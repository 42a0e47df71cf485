import PiVpn.App.Calls
import PiVpn.Lib.Transition

/-! Many requests at once: a handler runs alone until it awaits the helper, the helper
serves one call at a time, and any awaiting handler may go on next. -/

namespace App
open Text Cidr Ipaddress Effect Helper

/-- A request under way: its call sent, its call answered, or done. -/
inductive Thread where
  | waiting (req : Request) (k : Reply → Api HttpResponse)
  | answered (req : Request) (reply : Reply) (k : Reply → Api HttpResponse)
  | finished (outcome : Except Failure HttpResponse)

/-- A request with the metadata as it was when the request came in. -/
structure Session where
  loaded : Metadata
  thread : Thread

structure System where
  world : World
  sessions : List Session

/-- Run a handler until it awaits the helper or ends. -/
def advance (env : AppEnv) : Api HttpResponse → World → Thread × World
  | .pure a, w => (.finished (.ok a), w)
  | .raise e, w => (.finished (.error e), w)
  | .op (.helper req) k, w => (.waiting req k, w)
  | .op .readMetadata k, w => advance env (k w.metadata) w
  | .op (.writeMetadata m) k, w => advance env (k none) { w with metadata := .data m }
  | .op .netIfAddrs k, w => advance env (k (env.netIfAddrs w.helper.live)) w
  | .op .uuid4 k, w => advance env (k (env.uuid w.uuids)) { w with uuids := w.uuids + 1 }
  | .op (.log r) k, w => advance env (k ()) { w with log := w.log ++ [r] }

inductive Event where
  | launch (user : User) (call : ApiCall)
  | serve (i : Nat)
  | resume (i : Nat)

def step (env : AppEnv) : Event → System → Option System
  | .launch user call, s =>
    let next := advance env (call.handler user) s.world
    some ⟨next.2, s.sessions ++ [⟨s.world.metadata.loaded, next.1⟩]⟩
  | .serve i, s =>
    match s.sessions[i]? with
    | some ⟨m, .waiting req k⟩ =>
      let next := serve env req s.world
      some ⟨next.2, s.sessions.set i ⟨m, .answered req next.1 k⟩⟩
    | _ => none
  | .resume i, s =>
    match s.sessions[i]? with
    | some ⟨m, .answered _ r k⟩ =>
      let next := advance env (k r) s.world
      some ⟨next.2, s.sessions.set i ⟨m, next.1⟩⟩
    | _ => none

theorem set_of_getElem? {α : Type} {xs : List α} {i : Nat} {x : α} (h : xs[i]? = some x) (y : α) :
    ∃ pre post, xs = pre ++ x :: post ∧ xs.set i y = pre ++ y :: post := by
  obtain ⟨hi, rfl⟩ := List.getElem?_eq_some_iff.mp h
  refine ⟨xs.take i, xs.drop (i + 1), ?_, List.set_eq_take_append_cons_drop.trans (if_pos hi)⟩
  rw [List.getElem_cons_drop, List.take_append_drop]

theorem forall_replaced {pre post : List Session} {x x' : Session} {P : Session → Prop}
    (h : ∀ y ∈ pre ++ x :: post, P y) (hx : P x') : ∀ y ∈ pre ++ x' :: post, P y := by
  intro y hy
  rw [List.mem_append, List.mem_cons] at hy
  rcases hy with hy | rfl | hy
  · exact h y (List.mem_append_left _ hy)
  · exact hx
  · exact h y (List.mem_append_right _ (List.mem_cons_of_mem _ hy))

/-- What a step can do: start a request, serve a call, or go on with an answer. -/
theorem step_cases {env : AppEnv} {e : Event} {s s' : System} (h : step env e s = some s') :
    (∃ user call, e = .launch user call ∧
      s' = ⟨(advance env (call.handler user) s.world).2, s.sessions ++
        [⟨s.world.metadata.loaded, (advance env (call.handler user) s.world).1⟩]⟩) ∨
    (∃ i m req k pre post, e = .serve i ∧ s.sessions[i]? = some ⟨m, .waiting req k⟩ ∧
      s.sessions = pre ++ ⟨m, .waiting req k⟩ :: post ∧
      s' = ⟨(serve env req s.world).2,
        pre ++ ⟨m, .answered req (serve env req s.world).1 k⟩ :: post⟩) ∨
    ∃ i m req r k pre post, e = .resume i ∧ s.sessions[i]? = some ⟨m, .answered req r k⟩ ∧
      s.sessions = pre ++ ⟨m, .answered req r k⟩ :: post ∧
      s' = ⟨(advance env (k r) s.world).2, pre ++ ⟨m, (advance env (k r) s.world).1⟩ :: post⟩ := by
  cases e with
  | launch user call => exact .inl ⟨user, call, rfl, (Option.some.inj h).symm⟩
  | serve i =>
    simp only [step] at h
    split at h
    · rename_i m req k hi
      obtain ⟨pre, post, hs, hset⟩ := set_of_getElem? hi ⟨m, .answered req (serve env req s.world).1 k⟩
      refine .inr (.inl ⟨i, m, req, k, pre, post, rfl, hi, hs, ?_⟩)
      rw [← Option.some.inj h, hset]
    · cases h
  | resume i =>
    simp only [step] at h
    split at h
    · rename_i m req r k hi
      obtain ⟨pre, post, hs, hset⟩ := set_of_getElem? hi ⟨m, (advance env (k r) s.world).1⟩
      refine .inr (.inr ⟨i, m, req, r, k, pre, post, rfl, hi, hs, ?_⟩)
      rw [← Option.some.inj h, hset]
    · cases h

/-- The step is no call of the helper that fails. -/
def answers (env : AppEnv) : Event → System → Bool
  | .serve i, s =>
    match s.sessions[i]? with
    | some ⟨_, .waiting req _⟩ =>
      match (serve env req s.world).1 with
      | .response (.ok _) => true
      | _ => false
    | _ => true
  | _, _ => true

def Answered (env : AppEnv) (e : Event) (s : System) : Prop := answers env e s = true

instance {env : AppEnv} {e : Event} {s : System} : Decidable (Answered env e s) :=
  inferInstanceAs (Decidable (_ = true))

theorem Answered.serve {env : AppEnv} {s : System} {i : Nat} {m : Metadata} {req : Request}
    {k : Reply → Api HttpResponse} (h : Answered env (.serve i) s)
    (hi : s.sessions[i]? = some ⟨m, .waiting req k⟩) :
    ∃ res, (App.serve env req s.world).1 = .response (.ok res) := by
  simp only [Answered, answers, hi] at h
  split at h
  · rename_i res hres
    exact ⟨res, hres⟩
  · cases h

def Thread.isFinished : Thread → Bool
  | .finished _ => true
  | _ => false

/-- Every request has ended. -/
def System.finished (s : System) : Bool := s.sessions.all fun x => x.thread.isFinished

/-! ## Changes

A request that alters something asks first, then has the helper make one change of the
conf files, and records the change in the metadata once the helper has answered. -/

inductive Change where
  | addTunnel (user : User) (name : String) (entry : TunnelMeta)
  | dropTunnel (user : User) (name : String)
  | addPeer (user : User) (loaded : Metadata) (name : String) (entry : TunnelMeta) (peer : PeerMeta)
  | dropPeer (user : User) (loaded : Metadata) (name : String) (entry : TunnelMeta)
      (peer : PeerMeta)

def Change.tunnel : Change → String
  | .addTunnel _ name _ => name
  | .dropTunnel _ name => name
  | .addPeer _ _ name _ _ => name
  | .dropPeer _ _ name _ _ => name

/-- The key of the peer, where the change is about one. -/
def Change.key : Change → Option Text
  | .addTunnel _ _ _ => none
  | .dropTunnel _ _ => none
  | .addPeer _ _ _ _ peer => some peer.publicKey
  | .dropPeer _ _ _ _ peer => some peer.publicKey

/-- The request has the helper make the change. -/
def Change.Sends : Change → Request → Prop
  | .addTunnel _ name entry, req =>
    ∃ key, req = createTunnelRequest name entry.address entry.listenPort key
  | .dropTunnel _ name, req => req = deleteTunnelRequest name
  | .addPeer _ _ name _ peer, req => ∃ psk keepalive, (∀ k ∈ psk, Stripped k) ∧
    req = addPeerRequest name peer.publicKey [peer.tunnelAddress] psk keepalive
  | .dropPeer _ _ name _ peer, req => req = removePeerRequest name peer.publicKey

/-- The rest of the handler once the change is made; a new peer has no id yet. -/
def Change.record (response : HttpResponse) : Change → Api HttpResponse
  | .addTunnel user name entry => do
    let metadata ← loadMetadata
    writeMetadata (metadata.put name entry)
    log (infoLog "tunnel_created" "wireguard.tunnel.created" user [("tunnel", .str name)])
    pure response
  | .dropTunnel user name => do
    let metadata ← loadMetadata
    writeMetadata (metadata.pop name)
    log (infoLog "tunnel_deleted" "wireguard.tunnel.deleted" user [("tunnel", .str name)])
    pure response
  | .addPeer user loaded name entry peer => do
    let peerId ← uuid4
    writeMetadata (loaded.withPeers name (entry.peers ++ [{ peer with id := peerId }]))
    log (infoLog "peer_created" "wireguard.peer.created" user
      [("tunnel", .str name), ("peer_id", .str peerId), ("description", .str peer.description)])
    pure response
  | .dropPeer user loaded name entry peer => do
    writeMetadata (loaded.withPeers name (entry.peers.filter (·.id ≠ peer.id)))
    log (infoLog "peer_deleted" "wireguard.peer.deleted" user
      [("tunnel", .str name), ("peer_id", .str peer.id)])
    pure response

/-- The change comes from a request that loaded the metadata `m`. -/
def Change.From (m : Metadata) : Change → Prop
  | .addTunnel _ _ entry => entry.peers = []
  | .dropTunnel _ _ => True
  | .addPeer _ loaded name entry peer => loaded = m ∧ m.lookup name = some entry ∧
    allocatePeerAddress entry = .pure peer.tunnelAddress ∧ Stripped peer.publicKey
  | .dropPeer _ loaded name entry peer => loaded = m ∧ m.lookup name = some entry ∧
    peer ∈ entry.peers

/-- The change is one of a peer. -/
def Change.PeerFrom (m : Metadata) (c : Change) : Prop := c.From m ∧ c.key ≠ none

/-- Whatever the world answers, the program writes nothing until it makes a change of
the kind `P`, which it then records. -/
def Prepares (P : Change → Prop) : Api HttpResponse → Prop
  | .pure _ => False
  | .raise _ => True
  | .op (.helper req) k =>
    (Quiet req ∧ ∀ r : Reply, r.Clean → Prepares P (k r)) ∨
      ∃ c, P c ∧ c.Sends req ∧ (∀ res, ∃ response, k (.response (.ok res)) = c.record response) ∧
        ∀ r : Reply, (∀ res, r ≠ .response (.ok res)) → Prepares P (k r)
  | .op .netIfAddrs k => ∀ addrs, Prepares P (k addrs)
  | .op (.log r) k => r.level = .error ∧ Prepares P (k ())
  | .op .readMetadata _ => False
  | .op (.writeMetadata _) _ => False
  | .op .uuid4 _ => False

section prepares

variable {P P' : Change → Prop} {cmd : String} {params : Request}

theorem Prepares.mono (hP : ∀ c, P c → P' c) {p : Api HttpResponse} (h : Prepares P p) :
    Prepares P' p := by
  induction p with
  | pure a => exact h
  | raise e => trivial
  | op o k ih =>
    cases o with
    | helper req =>
      rcases h with ⟨hq, hk⟩ | ⟨c, hc, hs, hrec, hk⟩
      · exact .inl ⟨hq, fun r hr => ih r (hk r hr)⟩
      · exact .inr ⟨c, hP c hc, hs, hrec, fun r hr => ih r (hk r hr)⟩
    | netIfAddrs => exact fun addrs => ih addrs (h addrs)
    | log r => exact ⟨h.1, ih () h.2⟩
    | readMetadata => exact h
    | writeMetadata m => exact h
    | uuid4 => exact h

theorem prepares_failed {α : Type} {f : α → Api HttpResponse} {r : LogRecord} (hr : r.level = .error)
    (status : Nat) (detail : String) :
    Prepares P ((do log r; httpError status detail : Api α) >>= f) := ⟨hr, trivial⟩

theorem prepares_quiet {f : Result → Api HttpResponse} (hq : Quiet (("cmd", .str cmd) :: params))
    (hf : ∀ res, Reply.Clean (.response (.ok res)) → Prepares P (f res)) :
    Prepares P (call cmd params >>= f) := by
  refine .inl ⟨hq, fun r hr => ?_⟩
  cases r with
  | unreachable e => exact prepares_failed rfl _ _
  | empty => exact prepares_failed rfl _ _
  | garbage => exact prepares_failed rfl _ _
  | response r =>
    cases r with
    | ok res => exact hf res hr
    | error e => exact prepares_failed rfl _ _

theorem prepares_change {f : Result → Api HttpResponse} {c : Change} (hc : P c)
    (hs : c.Sends (("cmd", .str cmd) :: params))
    (hf : ∀ res, ∃ response, f res = c.record response) :
    Prepares P (call cmd params >>= f) := by
  refine .inr ⟨c, hc, hs, hf, fun r hr => ?_⟩
  cases r with
  | unreachable e => exact prepares_failed rfl _ _
  | empty => exact prepares_failed rfl _ _
  | garbage => exact prepares_failed rfl _ _
  | response r =>
    cases r with
    | ok res => exact absurd rfl (hr res)
    | error e => exact prepares_failed rfl _ _

theorem prepares_genkey {f : KeyPair → Api HttpResponse}
    (hf : ∀ k, Stripped k.privateKey → Stripped k.publicKey → Prepares P (f k)) :
    Prepares P (Client.genkey >>= f) := by
  unfold Client.genkey
  rw [Prog.bind_assoc]
  exact prepares_quiet (.inl rfl) fun res hres => hf _ hres.keysOf.1 hres.keysOf.2

theorem prepares_tunnelStatus {name : Option String} {f : List TunnelStatus → Api HttpResponse}
    (hf : ∀ ts, Prepares P (f ts)) : Prepares P (Client.tunnelStatus name >>= f) := by
  unfold Client.tunnelStatus
  rw [Prog.bind_assoc]
  exact prepares_quiet (.inr ⟨name, rfl⟩) fun res _ => hf _

theorem prepares_refuseConflicts {start : String} {candidates : List IPNetwork}
    {f : Unit → Api HttpResponse} (hf : Prepares P (f ())) :
    Prepares P (refuseConflicts start candidates >>= f) := by
  intro addrs
  change Prepares P ((if (addrs.flatMap (conflictsWith candidates)).isEmpty then _ else _) >>= f)
  split
  · exact hf
  · trivial

theorem allocatePeerAddress_cases (t : TunnelMeta) :
    (∃ a, allocatePeerAddress t = .pure a) ∨ ∃ e, allocatePeerAddress t = .raise e := by
  unfold allocatePeerAddress
  split
  · simp only
    split
    · exact .inl ⟨_, rfl⟩
    · exact .inr ⟨_, rfl⟩
  · exact .inr ⟨_, rfl⟩

/-- The address as an interface of its own. -/
def hostInterface (h : BitVec 32) : Interface 32 := Interface.host h

/-- The allocated address is one of the tunnel's subnet, not the server's and none of
a recorded peer. -/
theorem allocatePeerAddress_eq {t : TunnelMeta} {a : Text} (h : allocatePeerAddress t = .pure a) :
    ∃ i peers host, ipInterface t.address = some (.v4 i) ∧
      t.peers.mapM (fun p => ipInterface p.tunnelAddress) = some peers ∧
      a = (IPInterface.v4 (hostInterface host)).str ∧ host ≠ i.ip ∧
      ∀ j, IPInterface.v4 j ∈ peers → j.ip ≠ host := by
  unfold allocatePeerAddress at h
  split at h
  · rename_i i peers hi hpeers
    simp only at h
    split at h
    · rename_i host hfind
      have hfree := List.find?_some hfind
      simp only [List.any_cons, Bool.not_or, Bool.and_eq_true, Bool.not_eq_true', beq_eq_false_iff_ne,
        List.any_eq_false] at hfree
      refine ⟨i, peers, host, hi, hpeers, ?_, hfree.1.symm, fun j hj hne => ?_⟩
      · rw [← Prog.pure.inj h]
        simp only [IPInterface.str, withPrefix, hostInterface, Interface.host, List.append_assoc]
        rfl
      · exact hfree.2 _ hj (by simp [hne])
    · cases h
  · cases h

end prepares

/-! ## The handlers -/

section handlers

variable {m : Metadata} {user : User}

theorem createTunnel_prepares (payload : TunnelCreateRequest) :
    Prepares (Change.From m) (createTunnel payload user) := by
  have hrest : Prepares (Change.From m) (do
      let keypair ← Client.genkey
      let address := (IPInterface.v4 payload.address).str
      Client.createTunnel payload.name address payload.listenPort keypair.privateKey
      let metadata ← loadMetadata
      writeMetadata (metadata.put payload.name ⟨address, payload.endpoint, payload.listenPort, []⟩)
      log (infoLog "tunnel_created" "wireguard.tunnel.created" user [("tunnel", .str payload.name)])
      pure (⟨201, .json (.obj [("name", .str payload.name),
        ("public_key", jsonText keypair.publicKey)])⟩ : HttpResponse)) := by
    refine prepares_genkey fun k hpriv hpub => ?_
    unfold Client.createTunnel
    simp only [Prog.bind_assoc]
    exact prepares_change (c := .addTunnel user payload.name
      ⟨(IPInterface.v4 payload.address).str, payload.endpoint, payload.listenPort, []⟩) rfl
      ⟨k.privateKey, rfl⟩ fun res => ⟨_, rfl⟩
  unfold createTunnel
  split
  · exact hrest
  · exact prepares_refuseConflicts hrest

theorem deleteTunnel_prepares (name : String) :
    Prepares (Change.From m) (deleteTunnel name user) := by
  unfold deleteTunnel Client.deleteTunnel
  simp only [Prog.bind_assoc]
  exact prepares_change (c := .dropTunnel user name) trivial rfl fun res => ⟨_, rfl⟩

theorem prepares_addPeer {P : Change → Prop} {name : String} {key : Text} {addresses : List Text}
    {psk : Option Text} {keepalive : Option Int} {f : Unit → Api HttpResponse} {c : Change} (hc : P c)
    (hs : c.Sends (addPeerRequest name key addresses psk keepalive))
    (hf : ∃ response, f () = c.record response) :
    Prepares P (Client.addPeer name key addresses psk keepalive >>= f) := by
  unfold Client.addPeer
  rw [Prog.bind_assoc]
  exact prepares_change hc hs fun res => hf

theorem createPeerFrom_prepares (name : String) (payload : PeerCreateRequest) :
    Prepares (Change.PeerFrom m) (createPeerFrom m name payload user) := by
  unfold createPeerFrom
  cases hm : m.lookup name with
  | none => trivial
  | some entry =>
    refine prepares_tunnelStatus fun tunnels => ?_
    cases nonEmpty (tunnels.head?.bind TunnelStatus.publicKey) with
    | none => trivial
    | some serverKey =>
      rcases allocatePeerAddress_cases entry with ⟨address, ha⟩ | ⟨e, he⟩
      · simp only [ha, Prog.ret_bind]
        refine prepares_genkey fun k _ hk => ?_
        have hfrom : (Change.addPeer user m name entry ⟨"", payload.description, address,
            payload.allowedIps.map fun n => (IPNetwork.v4 n).str, k.publicKey, user⟩).PeerFrom m :=
          ⟨⟨rfl, hm, ha, hk⟩, by simp [Change.key]⟩
        split
        · refine prepares_genkey fun k' hk' _ => ?_
          exact prepares_addPeer hfrom ⟨some k'.privateKey, _, by simpa using hk', rfl⟩ ⟨_, rfl⟩
        · exact prepares_addPeer hfrom ⟨none, _, by simp, rfl⟩ ⟨_, rfl⟩
      · simp only [he, Prog.raise_bind]
        trivial

theorem deletePeerFrom_prepares (name peerId : String) :
    Prepares (Change.PeerFrom m) (deletePeerFrom m name peerId user) := by
  unfold deletePeerFrom
  cases hm : m.lookup name with
  | none => trivial
  | some entry =>
    cases hp : entry.peers.find? (·.id = peerId) with
    | none => simp only [hp]; trivial
    | some peer =>
      obtain rfl : peer.id = peerId := by simpa using List.find?_some hp
      simp only [hp]
      unfold Client.removePeer
      simp only [Prog.bind_assoc]
      exact prepares_change (c := .dropPeer user m name entry peer)
        ⟨⟨rfl, hm, List.mem_of_find?_eq_some hp⟩, by simp [Change.key]⟩ rfl fun res => ⟨_, rfl⟩

end handlers

/-! ## Threads -/

/-- The thread has changed nothing, and will make only changes of the kind `P`. -/
def Thread.Preparing (P : Change → Prop) : Thread → Prop
  | .waiting req k => Prepares P (.op (.helper req) k)
  | .answered _ r k => Prepares P (k r)
  | .finished outcome => ∃ e, outcome = .error e

/-- The thread has had a change made and is about to record it. -/
def Thread.Owes (c : Change) : Thread → Prop
  | .answered req r k => c.Sends req ∧ ∃ response, k r = c.record response
  | _ => False

/-- What a handler that has written nothing leaves alone. -/
structure Untouched (w w' : World) : Prop where
  conf : w'.helper.conf = w.helper.conf
  metadata : w'.metadata = w.metadata
  uuids : w'.uuids = w.uuids
  log : ∃ rs, w'.log = w.log ++ rs ∧ ∀ r ∈ rs, r.level = .error

theorem Untouched.refl (w : World) : Untouched w w := ⟨rfl, rfl, rfl, [], by simp, by simp⟩

theorem Untouched.trans {w₁ w₂ w₃ : World} (h : Untouched w₁ w₂) (h' : Untouched w₂ w₃) :
    Untouched w₁ w₃ := by
  obtain ⟨rs, hrs, hr⟩ := h.log
  obtain ⟨rs', hrs', hr'⟩ := h'.log
  refine ⟨h'.conf.trans h.conf, h'.metadata.trans h.metadata, h'.uuids.trans h.uuids,
    rs ++ rs', by rw [hrs', hrs, List.append_assoc], ?_⟩
  intro r hmem
  exact (List.mem_append.mp hmem).elim (hr r) (hr' r)

theorem Untouched.logged {w : World} {r : LogRecord} (hr : r.level = .error) :
    Untouched w { w with log := w.log ++ [r] } :=
  ⟨rfl, rfl, rfl, [r], rfl, by simp [hr]⟩

theorem untouched_afterLoad (w : World) : Untouched w w.afterLoad := by
  obtain ⟨helper, file, records, uuids, sent⟩ := w
  cases file with
  | absent => exact .refl _
  | unreadable e => exact .logged rfl
  | broken e => exact .refl _
  | data m => exact .refl _

section advancing

variable {env : AppEnv} {P : Change → Prop}

theorem Prepares.advance {p : Api HttpResponse} (h : Prepares P p) (w : World) :
    (App.advance env p w).1.Preparing P ∧ Untouched w (App.advance env p w).2 := by
  induction p generalizing w with
  | pure a => exact h.elim
  | raise e => exact ⟨⟨e, rfl⟩, .refl w⟩
  | op o k ih =>
    cases o with
    | helper req => exact ⟨h, .refl w⟩
    | readMetadata => exact h.elim
    | writeMetadata m => exact h.elim
    | netIfAddrs => exact ih _ (h _) w
    | uuid4 => exact h.elim
    | log r =>
      obtain ⟨hprep, hrest⟩ := ih () h.2 { w with log := w.log ++ [r] }
      exact ⟨hprep, (Untouched.logged h.1).trans hrest⟩

theorem advance_loadMetadata (f : Metadata → Api HttpResponse) {w : World} (h : w.metadata.Loads) :
    App.advance env (loadMetadata >>= f) w = App.advance env (f w.metadata.loaded) w.afterLoad := by
  obtain ⟨helper, file, records, uuids, sent⟩ := w
  cases file with
  | absent => rfl
  | unreadable e => rfl
  | broken e => exact absurd rfl (h e)
  | data m => rfl

theorem advance_loadMetadata_broken (f : Metadata → Api HttpResponse) {w : World} {e : String}
    (h : w.metadata = .broken e) :
    App.advance env (loadMetadata >>= f) w = (.finished (.error (.unhandled e)), w) := by
  obtain ⟨helper, file, records, uuids, sent⟩ := w
  obtain rfl : file = .broken e := h
  rfl

theorem Prepares.load {f : Metadata → Api HttpResponse} {w : World}
    (hf : Prepares P (f w.metadata.loaded)) :
    (App.advance env (loadMetadata >>= f) w).1.Preparing P ∧
      Untouched w (App.advance env (loadMetadata >>= f) w).2 := by
  by_cases hload : w.metadata.Loads
  · rw [advance_loadMetadata f hload]
    obtain ⟨hprep, hrest⟩ := Prepares.advance hf w.afterLoad
    exact ⟨hprep, (untouched_afterLoad w).trans hrest⟩
  · obtain ⟨e, he⟩ := not_forall_not.mp hload
    rw [advance_loadMetadata_broken f he]
    exact ⟨⟨_, rfl⟩, .refl w⟩

/-- The requests that alter tunnels and peers. -/
def ApiCall.alters : ApiCall → Bool
  | .createTunnel _ => true
  | .deleteTunnel _ => true
  | .createPeer _ _ => true
  | .deletePeer _ _ => true
  | _ => false

/-- A request that comes in loads the metadata and has changed nothing at its first call. -/
theorem launch_preparing {call : ApiCall} (h : call.alters = true) (user : User) (w : World) :
    (App.advance env (call.handler user) w).1.Preparing (Change.From w.metadata.loaded) ∧
      Untouched w (App.advance env (call.handler user) w).2 := by
  cases call with
  | createTunnel payload => exact (createTunnel_prepares payload).advance w
  | deleteTunnel name => exact (deleteTunnel_prepares name).advance w
  | createPeer name payload => exact Prepares.load ((createPeerFrom_prepares name payload).mono fun c hc => hc.1)
  | deletePeer name peerId => exact Prepares.load ((deletePeerFrom_prepares name peerId).mono fun c hc => hc.1)
  | _ => cases h

/-- The requests that alter peers. -/
def ApiCall.altersPeers : ApiCall → Bool
  | .createPeer _ _ => true
  | .deletePeer _ _ => true
  | _ => false

theorem launch_preparing_peers {call : ApiCall} (h : call.altersPeers = true) (user : User)
    (w : World) :
    (App.advance env (call.handler user) w).1.Preparing (Change.PeerFrom w.metadata.loaded) ∧
      Untouched w (App.advance env (call.handler user) w).2 := by
  cases call with
  | createPeer name payload => exact Prepares.load (createPeerFrom_prepares name payload)
  | deletePeer name peerId => exact Prepares.load (deletePeerFrom_prepares name peerId)
  | _ => cases h

end advancing

end App
