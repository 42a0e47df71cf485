import PiVpn.App.Interleaving

/-! The metadata and the conf files under interleaved requests: what a request records
is what it had the helper change, as long as nobody else came in between. -/

namespace App
open Text Cidr Ipaddress Effect Helper Transition

/-! ## What is configured, what is recorded -/

/-- The public keys of the peer sections of a conf text. -/
def sectionKeys (content : Text) : List Text :=
  (sections content).2.filterMap fun b => (readEntry b).publicKey

def confKeys (c : ConfDir) (name : String) : List Text :=
  ((c.lookup name).map sectionKeys).getD []

def TunnelMeta.keys (t : TunnelMeta) : List Text := t.peers.map PeerMeta.publicKey

def TunnelMeta.ids (t : TunnelMeta) : List String := t.peers.map PeerMeta.id

def recordedKeys (m : Metadata) (name : String) : List Text :=
  ((m.lookup name).map TunnelMeta.keys).getD []

/-- Each recorded tunnel has a conf file, with the peers that are recorded. -/
def InStep (w : World) : Prop :=
  ∀ name entry, w.metadata.loaded.lookup name = some entry →
    ∃ content, w.helper.conf.lookup name = some content ∧ (sectionKeys content).Perm entry.keys

/-! ## What has happened, as the log tells it -/

inductive Happening where
  | tunnelCreated (name : String)
  | tunnelDeleted (name : String)
  | peerCreated (name id : String)
  | peerDeleted (name id : String)

def happening (r : LogRecord) : Option Happening :=
  match r.level, r.message, r.extra with
  | .info, "tunnel_created", [_, _, (_, .str name)] => some (.tunnelCreated name)
  | .info, "tunnel_deleted", [_, _, (_, .str name)] => some (.tunnelDeleted name)
  | .info, "peer_created", [_, _, (_, .str name), (_, .str id), _] => some (.peerCreated name id)
  | .info, "peer_deleted", [_, _, (_, .str name), (_, .str id)] => some (.peerDeleted name id)
  | _, _, _ => none

def World.history (w : World) : List Happening := w.log.filterMap happening

/-- The tunnels, each with the ids of its peers. -/
abbrev Listing := String → Option (List String)

def Happening.apply : Happening → Listing → Listing
  | .tunnelCreated name, l => Function.update l name (some [])
  | .tunnelDeleted name, l => Function.update l name none
  | .peerCreated name id, l => Function.update l name ((l name).map (· ++ [id]))
  | .peerDeleted name id, l => Function.update l name ((l name).map (·.filter (· ≠ id)))

/-- The tunnels and peers created and not deleted since. -/
def replay (hs : List Happening) (l : Listing) : Listing := hs.foldl (fun l h => h.apply l) l

def listing (m : Metadata) : Listing := fun name => (m.lookup name).map TunnelMeta.ids

/-! ## The condition -/

/-- Nobody came in between: when a request records its change, the conf file of a tunnel
it created is there without peers, that of one it deleted is gone, a peer it added is
there and was not recorded before, one it removed is gone; and where it writes back what
it loaded at first, the metadata are still the same. -/
def undisturbed (loaded : Metadata) (req : Request) (w : World) : Bool :=
  match Json.get req "cmd", Json.get req "name", Json.get req "tunnel", Json.get req "public_key" with
  | .str "create_tunnel", .str name, _, _ =>
    (w.helper.conf.lookup name).any fun content => (sections content).2.isEmpty
  | .str "delete_tunnel", .str name, _, _ => (w.helper.conf.lookup name).isNone
  | .str "add_peer", _, .str name, .str key => w.metadata.loaded = loaded ∧
    key.toList ∈ confKeys w.helper.conf name ∧ key.toList ∉ recordedKeys loaded name
  | .str "remove_peer", _, .str name, .str key => w.metadata.loaded = loaded ∧
    key.toList ∉ confKeys w.helper.conf name
  | _, _, _, _ => true

/-- Only altering requests come in, and each records its change undisturbed. -/
def undisturbing : Event → System → Bool
  | .launch _ call, _ => call.alters
  | .serve _, _ => true
  | .resume i, s =>
    match s.sessions[i]? with
    | some ⟨m, .answered req _ _⟩ => undisturbed m req s.world
    | _ => true

def Undisturbing (e : Event) (s : System) : Prop := undisturbing e s = true

instance {e : Event} {s : System} : Decidable (Undisturbing e s) :=
  inferInstanceAs (Decidable (_ = true))

section condition

variable {m : Metadata} {w : World} {name : String} {key : Text}

theorem undisturbed_createTunnel {address privateKey : Text} {listenPort : Int}
    (h : undisturbed m (createTunnelRequest name address listenPort privateKey) w = true) :
    ∃ content, w.helper.conf.lookup name = some content ∧ (sections content).2 = [] := by
  obtain ⟨content, hc, hno⟩ := (Option.any_eq_true _ _).mp h
  exact ⟨content, hc, List.isEmpty_iff.mp hno⟩

theorem undisturbed_addPeer {addresses : List Text} {psk : Option Text} {keepalive : Option Int}
    (h : undisturbed m (addPeerRequest name key addresses psk keepalive) w = true) :
    w.metadata.loaded = m ∧ key ∈ confKeys w.helper.conf name ∧ key ∉ recordedKeys m name := by
  have h := of_decide_eq_true h
  rwa [String.toList_ofList] at h

theorem undisturbed_removePeer (h : undisturbed m (removePeerRequest name key) w = true) :
    w.metadata.loaded = m ∧ key ∉ confKeys w.helper.conf name := by
  have h := of_decide_eq_true h
  rwa [String.toList_ofList] at h

end condition

/-! ## Looking entries up -/

section lookup

variable {m : Metadata} {name n : String} {entry : TunnelMeta}

theorem lookup_map_entry (f : String × TunnelMeta → String × TunnelMeta) (hf : ∀ e, (f e).1 = e.1) :
    List.lookup n (m.map f) = (m.lookup n).map fun t => (f (n, t)).2 := by
  induction m with
  | nil => rfl
  | cons e m ih =>
    obtain ⟨k, t⟩ := e
    rw [List.map_cons, show f (k, t) = (k, (f (k, t)).2) from Prod.ext (hf (k, t)) rfl,
      List.lookup_cons, List.lookup_cons]
    by_cases hk : n = k
    · subst hk
      simp
    · simp [beq_eq_false_iff_ne.mpr hk, ih]

theorem fst_put (e : String × TunnelMeta) :
    (if e.1 = name then (name, entry) else e).1 = e.1 := by
  split
  · rename_i h
    exact h.symm
  · rfl

theorem lookup_put_self : List.lookup name (m.put name entry) = some entry := by
  unfold Metadata.put
  split
  · rename_i h
    obtain ⟨t, ht⟩ := Option.isSome_iff_exists.mp h
    rw [lookup_map_entry _ fst_put, ht]
    simp
  · rename_i h
    rw [List.lookup_append, Option.not_isSome_iff_eq_none.mp h]
    simp

theorem lookup_put_ne (h : n ≠ name) : List.lookup n (m.put name entry) = m.lookup n := by
  unfold Metadata.put
  split
  · rw [lookup_map_entry _ fst_put]
    simp [h]
  · rw [List.lookup_append, List.lookup_cons, beq_eq_false_iff_ne.mpr h]
    simp

theorem lookup_pop_self : List.lookup name (m.pop name) = none := by
  rw [Metadata.pop, List.lookup_eq_none_iff]
  intro e he
  have hne : e.1 ≠ name := by simpa using (List.mem_filter.mp he).2
  simpa using hne.symm

theorem lookup_pop_ne (h : n ≠ name) : List.lookup n (m.pop name) = m.lookup n :=
  ConfDir.lookup_filter_ne h

theorem lookup_withPeers_self {peers : List PeerMeta} (h : m.lookup name = some entry) :
    List.lookup name (m.withPeers name peers) = some { entry with peers := peers } := by
  rw [Metadata.withPeers, lookup_map_entry _ (fun e => by split <;> rfl), h, Option.map_some, if_pos rfl]

theorem lookup_withPeers_ne {peers : List PeerMeta} (h : n ≠ name) :
    List.lookup n (m.withPeers name peers) = m.lookup n := by
  rw [Metadata.withPeers, lookup_map_entry _ (fun e => by split <;> rfl)]
  simp only [h, if_false, Option.map_id']

end lookup

/-! ## Recording -/

section recording

variable {env : AppEnv} {w : World}

/-- The metadata after the change is recorded over `m`. -/
def Change.recorded (id : String) (m : Metadata) : Change → Metadata
  | .addTunnel _ name entry => m.put name entry
  | .dropTunnel _ name => m.pop name
  | .addPeer _ loaded name entry peer =>
    loaded.withPeers name (entry.peers ++ [{ peer with id := id }])
  | .dropPeer _ loaded name entry peer =>
    loaded.withPeers name (entry.peers.filter (·.id ≠ peer.id))

def Change.happens (id : String) : Change → Happening
  | .addTunnel _ name _ => .tunnelCreated name
  | .dropTunnel _ name => .tunnelDeleted name
  | .addPeer _ _ name _ _ => .peerCreated name id
  | .dropPeer _ _ name _ peer => .peerDeleted name peer.id

theorem history_untouched {w' : World} (h : Untouched w w') : w'.history = w.history := by
  obtain ⟨rs, hrs, hr⟩ := h.log
  have hnone : rs.filterMap happening = [] := by
    refine List.filterMap_eq_nil_iff.mpr fun r hmem => ?_
    have := hr r hmem
    obtain ⟨level, message, extra⟩ := r
    obtain rfl : level = .error := this
    rfl
  rw [World.history, World.history, hrs, List.filterMap_append, hnone, List.append_nil]

/-- How many ids the recording draws. -/
def Change.draws : Change → Nat
  | .addPeer _ _ _ _ _ => 1
  | _ => 0

theorem history_logged {helper : State} {file : MetadataFile} {uuids : Nat} {sent : List Request}
    {r : LogRecord} {h : Happening} (hr : happening r = some h) (rs : List LogRecord) :
    World.history ⟨helper, file, rs ++ [r], uuids, sent⟩ = rs.filterMap happening ++ [h] := by
  simp [World.history, hr]

theorem advance_record_broken (c : Change) (response : HttpResponse) {e : String} (hkey : c.key = none)
    (h : w.metadata = .broken e) :
    advance env (c.record response) w = (.finished (.error (.unhandled e)), w) := by
  cases c with
  | addTunnel user name entry => exact advance_loadMetadata_broken _ h
  | dropTunnel user name => exact advance_loadMetadata_broken _ h
  | addPeer user loaded name entry peer => cases hkey
  | dropPeer user loaded name entry peer => cases hkey

theorem advance_record (env : AppEnv) (c : Change) (response : HttpResponse)
    (h : c.key = none → w.metadata.Loads) :
    ∃ w', advance env (c.record response) w = (.finished (.ok response), w') ∧
      w'.helper.conf = w.helper.conf ∧ w'.metadata = .data (c.recorded (env.uuid w.uuids) w.metadata.loaded) ∧
      w'.uuids = w.uuids + c.draws ∧
      w'.history = w.history ++ [c.happens (env.uuid w.uuids)] := by
  have hload := untouched_afterLoad w
  have hhist : w.afterLoad.log.filterMap happening = w.history := history_untouched hload
  cases c with
  | addTunnel user name entry =>
    simp only [Change.record, advance_loadMetadata _ (h rfl)]
    refine ⟨_, rfl, hload.conf, rfl, hload.uuids, ?_⟩
    rw [← hhist]
    exact history_logged rfl _
  | dropTunnel user name =>
    simp only [Change.record, advance_loadMetadata _ (h rfl)]
    refine ⟨_, rfl, hload.conf, rfl, hload.uuids, ?_⟩
    rw [← hhist]
    exact history_logged rfl _
  | addPeer user loaded name entry peer =>
    exact ⟨_, rfl, rfl, rfl, rfl, history_logged rfl _⟩
  | dropPeer user loaded name entry peer =>
    exact ⟨_, rfl, rfl, rfl, rfl, history_logged rfl _⟩

theorem jsonText_injective : Function.Injective jsonText :=
  fun _ _ h => String.ofList_injective (Json.str.inj h)

/-- The tunnel and the key a change is about stand in its request. -/
theorem Change.Sends.fields {c : Change} {req : Request} (h : c.Sends req) :
    (req.lookup "name" <|> req.lookup "tunnel") = some (.str c.tunnel) ∧
      req.lookup "public_key" = c.key.map jsonText := by
  cases c with
  | addTunnel user name entry =>
    obtain ⟨key, rfl⟩ := h
    exact ⟨rfl, rfl⟩
  | dropTunnel user name =>
    obtain rfl := h
    exact ⟨rfl, rfl⟩
  | addPeer user loaded name entry peer =>
    obtain ⟨psk, keepalive, -, rfl⟩ := h
    exact ⟨rfl, rfl⟩
  | dropPeer user loaded name entry peer =>
    obtain rfl := h
    exact ⟨rfl, rfl⟩

theorem Change.Sends.same {c c' : Change} {req : Request} (h : c.Sends req) (h' : c'.Sends req) :
    c.tunnel = c'.tunnel ∧ c.key = c'.key := by
  obtain ⟨ht, hk⟩ := h.fields
  obtain ⟨ht', hk'⟩ := h'.fields
  exact ⟨Json.str.inj (Option.some.inj (ht.symm.trans ht')),
    Option.map_injective jsonText_injective (hk.symm.trans hk')⟩

/-- A thread that still prepares owes nothing. -/
theorem not_prepares_record {P : Change → Prop} {c : Change} {response : HttpResponse} :
    ¬ Prepares P (c.record response) := by
  cases c <;> exact id

end recording

/-! ## The invariant -/

/-- Some request has made a change of this tunnel, or of this peer of it, and not
recorded it yet. -/
def Debt (s : System) (name : String) (key : Option Text) : Prop :=
  ∃ x ∈ s.sessions, ∃ c, x.thread.Owes c ∧ c.tunnel = name ∧ c.key = key

/-- Up to debts the conf file of the tunnel holds the recorded peers. -/
def Agrees (s : System) (name : String) (entry : TunnelMeta) : Prop :=
  ∃ content header peers, s.world.helper.conf.lookup name = some content ∧
    Stores content header peers ∧ (peers.map fun r => r.publicKey.text).Nodup ∧
    ∀ key, Debt s name (some key) ∨ (key ∈ entry.keys ↔ ∃ r ∈ peers, r.publicKey.text = key)

/-- The peers of an entry have different keys and ids, and their ids were drawn before. -/
structure Orderly (env : AppEnv) (uuids : Nat) (entry : TunnelMeta) : Prop where
  keys : entry.keys.Nodup
  stripped : ∀ p ∈ entry.peers, Stripped p.publicKey
  ids : entry.ids.Nodup
  drawn : ∀ p ∈ entry.peers, ∃ i < uuids, p.id = env.uuid i

/-- Where a session stands. -/
def Session.Fine (x : Session) : Prop :=
  (∀ name entry, x.loaded.lookup name = some entry → ∀ p ∈ entry.peers, Stripped p.publicKey) ∧
    (x.thread.Preparing (Change.From x.loaded) ∨
      (∃ c, c.From x.loaded ∧ x.thread.Owes c) ∨ ∃ response, x.thread = .finished (.ok response))

def Session.succeeded (x : Session) : Bool :=
  match x.thread with
  | .finished (.ok _) => true
  | _ => false

structure Invariant (env : AppEnv) (start : World) (s : System) : Prop where
  fine : ∀ x ∈ s.sessions, x.Fine
  orderly : ∀ name entry, s.world.metadata.loaded.lookup name = some entry →
    Orderly env s.world.uuids entry
  agrees : ∀ name entry, s.world.metadata.loaded.lookup name = some entry →
    Debt s name none ∨ Agrees s name entry
  history : ∃ hs, s.world.history = start.history ++ hs ∧
    listing s.world.metadata.loaded = replay hs (listing start.metadata.loaded) ∧
    s.sessions.countP Session.succeeded = hs.length

/-! ## The conf files under a change -/

section changing

variable {env : AppEnv} {w : World} {content header : Text} {peers : List AddPeer}

theorem ipNetwork_hostInterface (h : BitVec 32) :
    ipNetwork (IPInterface.v4 (hostInterface h)).str = some (.v4 (hostInterface h).network) := by
  rw [ipNetwork, ipInterface_str]
  rfl

theorem hostInterface_str (h : BitVec 32) :
    (IPNetwork.v4 (hostInterface h).network).str = (IPInterface.v4 (hostInterface h)).str := by
  simp only [IPNetwork.str, IPInterface.str, Interface.network, hostInterface, Interface.host, mask_full]

theorem ReadsPeer.regular {r : AddPeer} {tunnel : String} {key address : Text} {t : TunnelMeta}
    (h : ReadsPeer r tunnel key address) (hkey : Stripped key)
    (ha : allocatePeerAddress t = .pure address) : Regular r := by
  obtain ⟨n, hn, hnets⟩ := h.nets
  obtain ⟨i, ps, host, -, -, rfl, -, -⟩ := allocatePeerAddress_eq ha
  rw [ipNetwork_hostInterface] at hn
  refine ⟨FullKey.of_stripped (h.key ▸ hkey), fun k hk => FullKey.of_stripped (h.psk k hk), ?_,
    h.keepalive⟩
  rw [hnets]
  intro n' hn'
  rw [List.mem_singleton.mp hn', ← Option.some.inj hn]
  rfl

theorem wgKey_ext {a b : WgKey} (h : a.text = b.text) : a = b := by
  cases a
  cases b
  cases h
  rfl

theorem stores_sectionKeys (h : Stores content header peers) :
    sectionKeys content = peers.map fun r => r.publicKey.text := by
  rw [sectionKeys, h.blocks, List.filterMap_map, ← List.filterMap_eq_map]
  refine List.filterMap_congr fun r hr => ?_
  simp [(h.regular r hr).readEntry, AddPeer.entry]

theorem stores_nothing (h : (sections content).2 = []) : Stores content (sections content).1 [] := by
  refine ⟨by simp, .inl rfl, h, .inl ⟨rfl, ?_⟩⟩
  have hjoin := Blocks.splitBefore_join '\n' peerMark (universalNewlines content)
  change (sections content).1 ++ ((sections content).2.map ('\n' :: ·)).flatten = _ at hjoin
  rwa [h, List.map_nil, List.flatten_nil, List.append_nil] at hjoin

theorem stores_addedPeer {c c' : ConfDir} {tunnel : String} {key address : Text} {t : TunnelMeta}
    (h : Stores content header peers) (hn : (peers.map fun r => r.publicKey.text).Nodup)
    (hc : c.lookup tunnel = some content) (hadd : AddedPeer c c' tunnel key address)
    (hkey : Stripped key) (ha : allocatePeerAddress t = .pure address) :
    ∃ content' r, c'.lookup tunnel = some content' ∧ Stores content' header (peers ++ [r]) ∧
      ReadsPeer r tunnel key address ∧ ((peers ++ [r]).map fun r => r.publicKey.text).Nodup := by
  obtain ⟨r, content₁, hreads, hc₁, hnew, rfl⟩ := hadd.done
  obtain rfl : content = content₁ := Option.some.inj (hc.symm.trans hc₁)
  have hreg := hreads.regular hkey ha
  refine ⟨_, r, ConfDir.lookup_set_self _ _ _, h.add hreg, hreads, ?_⟩
  rw [List.map_append, List.nodup_append]
  refine ⟨hn, by simp, ?_⟩
  rintro a ha' b hb rfl
  obtain ⟨p, hp, hpa⟩ := List.mem_map.mp ha'
  simp only [List.map_cons, List.map_nil, List.mem_singleton] at hb
  have hpresent := (h.hasPeer_iff hreg.key).mpr ⟨p, hp, wgKey_ext (hpa.trans hb)⟩
  simp [hpresent] at hnew

theorem stores_removedPeer {c c' : ConfDir} {tunnel : String} {key : Text}
    (h : Stores content header peers) (hc : c.lookup tunnel = some content) (hrem : RemovedPeer c c' tunnel key)
    (hkey : Stripped key) :
    ∃ content', c'.lookup tunnel = some content' ∧
      Stores content' header (peers.filter (·.publicKey.text ≠ key)) := by
  obtain ⟨k, content₁, rfl, hc₁, rfl⟩ := hrem.done
  obtain rfl : content = content₁ := Option.some.inj (hc.symm.trans hc₁)
  refine ⟨_, ConfDir.lookup_set_self _ _ _, ?_⟩
  have hsame : peers.filter (·.publicKey.text ≠ k.text) = peers.filter (·.publicKey ≠ k) := by
    refine List.filter_congr fun p _ => decide_eq_decide.mpr (not_congr ⟨wgKey_ext, ?_⟩)
    exact congrArg WgKey.text
  rw [hsame]
  exact h.remove (FullKey.of_stripped hkey)

end changing

section preservation

variable {env : AppEnv} {start : World} {s s' : System} {pre post : List Session} {x x' : Session}

/-- Where one session goes on, the debts of the others stay. -/
theorem Debt.replace (hs : s.sessions = pre ++ x :: post) (hs' : s'.sessions = pre ++ x' :: post)
    {name : String} {key : Option Text} (h : Debt s name key) :
    Debt s' name key ∨ ∃ c, x.thread.Owes c ∧ c.tunnel = name ∧ c.key = key := by
  obtain ⟨y, hy, c, hc⟩ := h
  rw [hs, List.mem_append, List.mem_cons] at hy
  rcases hy with hy | rfl | hy
  · exact .inl ⟨y, by rw [hs']; exact List.mem_append_left _ hy, c, hc⟩
  · exact .inr ⟨c, hc⟩
  · exact .inl ⟨y, by rw [hs']; exact List.mem_append_right _ (List.mem_cons_of_mem _ hy), c, hc⟩

theorem Invariant.of_untouched (h : Invariant env start s) (hw : Untouched s.world s'.world)
    (hfine : ∀ x ∈ s'.sessions, x.Fine) (hdebt : ∀ name key, Debt s name key → Debt s' name key)
    (hcount : s'.sessions.countP Session.succeeded = s.sessions.countP Session.succeeded) :
    Invariant env start s' := by
  refine ⟨hfine, ?_, ?_, ?_⟩
  · rw [hw.metadata, hw.uuids]
    exact h.orderly
  · rw [hw.metadata]
    intro name entry hentry
    refine (h.agrees name entry hentry).imp (hdebt name none) ?_
    rintro ⟨content, header, peers, hc, hst, hn, hkeys⟩
    refine ⟨content, header, peers, by rw [hw.conf]; exact hc, hst, hn, fun key => ?_⟩
    exact (hkeys key).imp (hdebt name _) id
  · obtain ⟨hs, hh, hl, hcs⟩ := h.history
    exact ⟨hs, by rw [history_untouched hw, hh], by rw [hw.metadata, hl], hcount.trans hcs⟩

theorem Thread.Preparing.not_owes {P : Change → Prop} {t : Thread} (h : t.Preparing P) (c : Change) :
    ¬ t.Owes c := by
  cases t with
  | waiting req k => exact id
  | answered req r k =>
    rintro ⟨-, response, hk⟩
    have h : Prepares P (k r) := h
    rw [hk] at h
    exact not_prepares_record h
  | finished outcome => exact id

theorem Thread.Preparing.not_succeeded {P : Change → Prop} {m : Metadata} {t : Thread}
    (h : t.Preparing P) : Session.succeeded ⟨m, t⟩ = false := by
  cases t with
  | waiting req k => rfl
  | answered req r k => rfl
  | finished outcome =>
    obtain ⟨e, rfl⟩ := h
    rfl

theorem Invariant.launch (h : Invariant env start s) {call : ApiCall} (hc : call.alters = true) (user : User) :
    Invariant env start ⟨(advance env (call.handler user) s.world).2, s.sessions ++
      [⟨s.world.metadata.loaded, (advance env (call.handler user) s.world).1⟩]⟩ := by
  obtain ⟨hprep, hw⟩ := @launch_preparing env _ hc user s.world
  refine h.of_untouched hw ?_ ?_ ?_
  · intro x hx
    rcases List.mem_append.mp hx with hx | hx
    · exact h.fine x hx
    · rw [List.mem_singleton.mp hx]
      exact ⟨fun name entry he => (h.orderly name entry he).stripped, .inl hprep⟩
  · rintro name key ⟨x, hx, c, hc⟩
    exact ⟨x, List.mem_append_left _ hx, c, hc⟩
  · simp [hprep.not_succeeded]

theorem Invariant.quietly (h : Invariant env start s) {w : World} (hs : s.sessions = pre ++ x :: post)
    (hw : Untouched s.world w) (hx : ∀ c, ¬ x.thread.Owes c) (hxs : x.succeeded = false)
    (hl : x'.loaded = x.loaded) (hx' : x'.thread.Preparing (Change.From x'.loaded)) :
    Invariant env start ⟨w, pre ++ x' :: post⟩ := by
  have hfine : ∀ y ∈ pre ++ x :: post, y.Fine := hs ▸ h.fine
  refine h.of_untouched hw ?_ ?_ ?_
  · refine forall_replaced hfine ⟨?_, .inl hx'⟩
    rw [hl]
    exact (hfine x (by simp)).1
  · intro name key hd
    refine (hd.replace hs rfl).resolve_right ?_
    rintro ⟨c, hc, -⟩
    exact hx c hc
  · obtain ⟨m, t⟩ := x'
    simp [hs, hx'.not_succeeded, hxs]

/-- The conf files after a change that was answered well: other tunnels keep theirs,
and of the peers of its own only the one it is about is another. -/
theorem conf_changed {c : Change} {m : Metadata} {req : Request} {w : World} {res : Result}
    (hfrom : c.From m)
    (hm : ∀ name entry, m.lookup name = some entry → ∀ p ∈ entry.peers, Stripped p.publicKey)
    (hsends : c.Sends req) (hok : (serve env req w).1 = .response (.ok res)) :
    (∀ name, name ≠ c.tunnel →
      (serve env req w).2.helper.conf.lookup name = w.helper.conf.lookup name) ∧
    ∀ key, c.key = some key → ∀ content header peers,
      w.helper.conf.lookup c.tunnel = some content → Stores content header peers →
      (peers.map fun r => r.publicKey.text).Nodup →
      ∃ content' peers', (serve env req w).2.helper.conf.lookup c.tunnel = some content' ∧
        Stores content' header peers' ∧ (peers'.map fun r => r.publicKey.text).Nodup ∧
        ∀ key', key' ≠ key →
          ((∃ r ∈ peers', r.publicKey.text = key') ↔ ∃ r ∈ peers, r.publicKey.text = key') := by
  cases c with
  | addTunnel user name entry =>
    obtain ⟨key, rfl⟩ := hsends
    obtain ⟨r, -, hconf⟩ := (serve_createTunnel hok).done
    refine ⟨fun n hn => ?_, fun key hk => nomatch hk⟩
    rw [hconf]
    exact ConfDir.lookup_set_ne hn _
  | dropTunnel user name =>
    obtain rfl := hsends
    have hconf := serve_deleteTunnel hok
    refine ⟨fun n hn => ?_, fun key hk => nomatch hk⟩
    rw [hconf]
    exact ConfDir.lookup_erase_ne hn
  -- the two changes of the peers go by what is stored; those of tunnels have no key
  | addPeer user loaded name entry peer =>
    obtain ⟨psk, keepalive, hpsk, rfl⟩ := hsends
    obtain ⟨-, -, ha, hkey⟩ := hfrom
    have hadd := (serve_addPeer hpsk).2 res hok
    constructor
    · intro n hn
      obtain ⟨r, content, -, -, -, hconf⟩ := hadd.done
      rw [hconf]
      exact ConfDir.lookup_set_ne hn _
    · intro key hk content header peers hc hst hn
      obtain rfl := Option.some.inj hk
      obtain ⟨content', r, hc', hst', hr, hn'⟩ := stores_addedPeer hst hn hc hadd hkey ha
      refine ⟨content', _, hc', hst', hn', fun key' hne => ?_⟩
      simp [hr.key, Ne.symm hne, or_and_right, exists_or]
  | dropPeer user loaded name entry peer =>
    obtain rfl := hsends
    obtain ⟨rfl, hl, hp⟩ := hfrom
    have hrem := serve_removePeer.2 res hok
    constructor
    · intro n hn
      obtain ⟨k, content, -, -, hconf⟩ := hrem.done
      rw [hconf]
      exact ConfDir.lookup_set_ne hn _
    · intro key hk content header peers hc hst hn
      obtain rfl := Option.some.inj hk
      obtain ⟨content', hc', hst'⟩ := stores_removedPeer hst hc hrem (hm name entry hl peer hp)
      refine ⟨content', _, hc', hst', hn.sublist (List.filter_sublist.map _), fun key' hne => ?_⟩
      refine exists_congr fun r => ?_
      rw [List.mem_filter, and_assoc, and_congr_right_iff]
      rintro -
      simp only [decide_eq_true_eq, and_iff_right_iff_imp]
      rintro rfl
      exact hne

theorem Invariant.changed (h : Invariant env start s) {c : Change} {m : Metadata} {req : Request}
    {k : Reply → Api HttpResponse} {res : Result} {response : HttpResponse}
    (hs : s.sessions = pre ++ ⟨m, .waiting req k⟩ :: post) (hfrom : c.From m) (hsends : c.Sends req)
    (hok : (serve env req s.world).1 = .response (.ok res))
    (hk : k (.response (.ok res)) = c.record response) :
    Invariant env start ⟨(serve env req s.world).2,
      pre ++ ⟨m, .answered req (serve env req s.world).1 k⟩ :: post⟩ := by
  have hall : ∀ y ∈ pre ++ ⟨m, .waiting req k⟩ :: post, y.Fine := hs ▸ h.fine
  have hm := (hall ⟨m, .waiting req k⟩ (by simp)).1
  have howes : Thread.Owes c (.answered req (serve env req s.world).1 k) := by
    rw [hok]
    exact ⟨hsends, response, hk⟩
  obtain ⟨hother, hown⟩ := conf_changed hfrom hm hsends hok
  -- debts of the other requests stay; the one that was served owes its record from now on
  have hdebt : ∀ {name key}, Debt s name key → Debt ⟨(serve env req s.world).2,
      pre ++ ⟨m, .answered req (serve env req s.world).1 k⟩ :: post⟩ name key := by
    intro name key hd
    refine (hd.replace hs rfl).resolve_right ?_
    rintro ⟨c', hc', -⟩
    exact hc'
  have hnew : Debt ⟨(serve env req s.world).2,
      pre ++ ⟨m, .answered req (serve env req s.world).1 k⟩ :: post⟩ c.tunnel c.key :=
    ⟨⟨m, .answered req (serve env req s.world).1 k⟩, by simp, c, howes, rfl, rfl⟩
  refine ⟨?_, by simpa using h.orderly, ?_, ?_⟩
  · exact forall_replaced hall ⟨hm, .inr (.inl ⟨c, hfrom, howes⟩)⟩
  · intro name entry hentry
    rw [serve_metadata] at hentry
    rcases h.agrees name entry hentry with hd | ⟨content, header, peers, hc, hst, hn, hkeys⟩
    · exact .inl (hdebt hd)
    · by_cases hname : name = c.tunnel
      · subst hname
        cases hck : c.key with
        | none => exact .inl (hck ▸ hnew)
        | some key =>
          obtain ⟨content', peers', hc', hst', hn', hsame⟩ := hown key hck content header peers hc hst hn
          refine .inr ⟨content', header, peers', hc', hst', hn', fun key' => ?_⟩
          by_cases hkk : key' = key
          · rw [hkk, ← hck]
            exact .inl hnew
          · rw [hsame key' hkk]
            exact (hkeys key').imp hdebt id
      · refine .inr ⟨content, header, peers, (hother name hname).trans hc, hst, hn, fun key => ?_⟩
        exact (hkeys key).imp hdebt id
  · obtain ⟨hist, hh, hl, hcount⟩ := h.history
    refine ⟨hist, by simpa [World.history] using hh, by simpa using hl, ?_⟩
    rw [← hcount, hs]
    simp [Session.succeeded]

/-- The entry of the tunnel of a change, once the change is recorded. -/
def Change.entryAfter (id : String) : Change → Option TunnelMeta
  | .addTunnel _ _ entry => some entry
  | .dropTunnel _ _ => none
  | .addPeer _ _ _ entry peer => some { entry with peers := entry.peers ++ [{ peer with id := id }] }
  | .dropPeer _ _ _ entry peer =>
    some { entry with peers := entry.peers.filter (·.id ≠ peer.id) }

theorem recorded_lookup {c : Change} {m : Metadata} (h : c.From m) (id name : String) :
    (c.recorded id m).lookup name = if name = c.tunnel then c.entryAfter id else m.lookup name := by
  split
  · rename_i hn
    subst hn
    cases c with
    | addTunnel user name entry => exact lookup_put_self
    | dropTunnel user name => exact lookup_pop_self
    | addPeer user loaded name entry peer =>
      obtain ⟨rfl, hl, -⟩ := h
      exact lookup_withPeers_self hl
    | dropPeer user loaded name entry peer =>
      obtain ⟨rfl, hl, -⟩ := h
      exact lookup_withPeers_self hl
  · rename_i hn
    cases c with
    | addTunnel user name entry => exact lookup_put_ne hn
    | dropTunnel user name => exact lookup_pop_ne hn
    | addPeer user loaded name entry peer =>
      obtain ⟨rfl, -⟩ := h
      exact lookup_withPeers_ne hn
    | dropPeer user loaded name entry peer =>
      obtain ⟨rfl, -⟩ := h
      exact lookup_withPeers_ne hn

theorem listing_of_lookup {m : Metadata} {name : String} {entry : TunnelMeta}
    (h : m.lookup name = some entry) : listing m name = some entry.ids := by
  rw [listing, h]
  rfl

theorem listing_recorded {c : Change} {m : Metadata} (h : c.From m) (id : String) :
    listing (c.recorded id m) = (c.happens id).apply (listing m) := by
  funext name
  rw [listing, recorded_lookup h]
  by_cases hn : name = c.tunnel
  · subst hn
    rw [if_pos rfl]
    cases c with
    | addTunnel user name entry =>
      have h : entry.peers = [] := h
      simp [Change.entryAfter, Change.happens, Happening.apply, Change.tunnel, TunnelMeta.ids, h]
    | dropTunnel user name =>
      simp [Change.entryAfter, Change.happens, Happening.apply, Change.tunnel]
    | addPeer user loaded name entry peer =>
      have hl := listing_of_lookup h.2.1
      simp [Change.entryAfter, Change.happens, Happening.apply, Change.tunnel, TunnelMeta.ids, hl]
    | dropPeer user loaded name entry peer =>
      have hl := listing_of_lookup h.2.1
      simp [Change.entryAfter, Change.happens, Happening.apply, Change.tunnel, TunnelMeta.ids, hl,
        List.filter_map, Function.comp_def]
  · rw [if_neg hn]
    change listing m name = _
    cases c <;> exact (Function.update_of_ne hn _ _).symm

/-- An undisturbed request loaded what is there. -/
theorem from_of_undisturbed {c : Change} {m : Metadata} {req : Request} {w : World}
    (h : undisturbed m req w = true) (hfrom : c.From m) (hsends : c.Sends req) :
    c.From w.metadata.loaded := by
  cases c with
  | addTunnel user name entry => exact hfrom
  | dropTunnel user name => trivial
  | addPeer user loaded name entry peer =>
    obtain ⟨psk, keepalive, -, rfl⟩ := hsends
    rw [(undisturbed_addPeer h).1]
    exact hfrom
  | dropPeer user loaded name entry peer =>
    obtain rfl := hsends
    rw [(undisturbed_removePeer h).1]
    exact hfrom

theorem Orderly.mono {uuids uuids' : Nat} {entry : TunnelMeta} (h : Orderly env uuids entry)
    (hle : uuids ≤ uuids') : Orderly env uuids' entry :=
  ⟨h.keys, h.stripped, h.ids, fun p hp =>
    (h.drawn p hp).imp fun _ hi => ⟨Nat.lt_of_lt_of_le hi.1 hle, hi.2⟩⟩

theorem orderly_recorded (huuid : Function.Injective env.uuid) {c : Change} {w : World} {m : Metadata}
    {req : Request} (hund : undisturbed m req w = true) (hfrom : c.From w.metadata.loaded)
    (hsends : c.Sends req) {entry : TunnelMeta}
    (horderly : ∀ name entry, w.metadata.loaded.lookup name = some entry → Orderly env w.uuids entry)
    (hafter : c.entryAfter (env.uuid w.uuids) = some entry) :
    Orderly env (w.uuids + c.draws) entry := by
  cases c with
  | addTunnel user name e =>
    obtain rfl := Option.some.inj hafter
    have hnil : e.peers = [] := hfrom
    exact ⟨by simp [TunnelMeta.keys, hnil], by simp [hnil], by simp [TunnelMeta.ids, hnil],
      by simp [hnil]⟩
  | dropTunnel user name => cases hafter
  | addPeer user loaded name e peer =>
    obtain rfl := Option.some.inj hafter
    obtain ⟨psk, keepalive, -, rfl⟩ := hsends
    obtain ⟨rfl, hl, -, hkey⟩ := hfrom
    have ho := horderly name e hl
    obtain ⟨heq, -, hnew⟩ := undisturbed_addPeer hund
    have hnew : peer.publicKey ∉ e.keys := by
      rwa [← heq, recordedKeys, hl] at hnew
    -- the identifiers on record were drawn earlier, and no two draws agree
    have hid : env.uuid w.uuids ∉ e.ids := by
      intro hmem
      obtain ⟨p, hp, hpid⟩ := List.mem_map.mp hmem
      obtain ⟨i, hi, hpi⟩ := ho.drawn p hp
      exact absurd (huuid (hpi.symm.trans hpid)) hi.ne
    refine ⟨?_, ?_, ?_, ?_⟩
    · rw [TunnelMeta.keys, List.map_append]
      exact List.Nodup.append ho.keys (List.nodup_singleton _) (List.disjoint_singleton.mpr hnew)
    · intro p hp
      rcases List.mem_append.mp hp with hp | hp
      · exact ho.stripped p hp
      · rw [List.mem_singleton.mp hp]
        exact hkey
    · rw [TunnelMeta.ids, List.map_append]
      exact List.Nodup.append ho.ids (List.nodup_singleton _) (List.disjoint_singleton.mpr hid)
    · intro p hp
      rcases List.mem_append.mp hp with hp | hp
      · exact (ho.drawn p hp).imp fun i hi => ⟨Nat.lt_succ_of_lt hi.1, hi.2⟩
      · exact ⟨w.uuids, Nat.lt_succ_self _, by rw [List.mem_singleton.mp hp]⟩
  | dropPeer user loaded name e peer =>
    obtain rfl := Option.some.inj hafter
    have ho := horderly name e hfrom.2.1
    refine ⟨ho.keys.sublist (List.filter_sublist.map _), ?_, ho.ids.sublist (List.filter_sublist.map _), ?_⟩
    · exact fun p hp => ho.stripped p (List.mem_filter.mp hp).1
    · exact fun p hp => ho.drawn p (List.mem_filter.mp hp).1

/-- On the key a change is about, the record agrees with the file; on the others it
says what it said before. -/
theorem keys_recorded {c : Change} {w : World} {m : Metadata} {req : Request}
    (hund : undisturbed m req w = true) (hfrom : c.From w.metadata.loaded) (hsends : c.Sends req)
    {key : Text} (hkey : c.key = some key) {content header : Text} {peers : List AddPeer}
    (hc : w.helper.conf.lookup c.tunnel = some content) (hst : Stores content header peers)
    {entry : TunnelMeta} (hentry : w.metadata.loaded.lookup c.tunnel = some entry)
    {uuids : Nat} (ho : Orderly env uuids entry) (id : String) :
    ∃ entry', c.entryAfter id = some entry' ∧
      (key ∈ entry'.keys ↔ ∃ r ∈ peers, r.publicKey.text = key) ∧
      ∀ key', key' ≠ key → (key' ∈ entry'.keys ↔ key' ∈ entry.keys) := by
  have hconf : key ∈ confKeys w.helper.conf c.tunnel ↔ ∃ r ∈ peers, r.publicKey.text = key := by
    rw [confKeys, hc, Option.map_some, Option.getD_some, stores_sectionKeys hst, List.mem_map]
  cases c with
  | addTunnel user name e => cases hkey
  | dropTunnel user name => cases hkey
  | addPeer user loaded name e peer =>
    obtain rfl := Option.some.inj hkey
    obtain rfl : e = entry := Option.some.inj (hfrom.2.1.symm.trans hentry)
    obtain ⟨psk, keepalive, -, rfl⟩ := hsends
    obtain ⟨-, hin, -⟩ := undisturbed_addPeer hund
    refine ⟨_, rfl, iff_of_true (by simp [TunnelMeta.keys]) (hconf.mp hin), fun key' hne => ?_⟩
    simp [TunnelMeta.keys, hne]
  | dropPeer user loaded name e peer =>
    obtain rfl := Option.some.inj hkey
    obtain rfl : e = entry := Option.some.inj (hfrom.2.1.symm.trans hentry)
    obtain rfl := hsends
    obtain ⟨-, hout⟩ := undisturbed_removePeer hund
    -- the record goes by the identifier, the file by the key: each names one peer
    have hpeer : ∀ p ∈ e.peers, p.publicKey = peer.publicKey → p = peer :=
      fun p hp => List.inj_on_of_nodup_map ho.keys hp hfrom.2.2
    refine ⟨_, rfl, iff_of_false ?_ (mt hconf.mpr hout), fun key' hne => ?_⟩
    · intro hmem
      obtain ⟨p, hp, hpk⟩ := List.mem_map.mp hmem
      obtain ⟨hp, hid⟩ := List.mem_filter.mp hp
      simp [hpeer p hp hpk] at hid
    · constructor
      · intro hmem
        obtain ⟨p, hp, hpk⟩ := List.mem_map.mp hmem
        exact List.mem_map.mpr ⟨p, (List.mem_filter.mp hp).1, hpk⟩
      · intro hmem
        obtain ⟨p, hp, hpk⟩ := List.mem_map.mp hmem
        refine List.mem_map.mpr ⟨p, List.mem_filter.mpr ⟨hp, ?_⟩, hpk⟩
        rw [decide_eq_true_eq]
        intro hid
        obtain rfl := List.inj_on_of_nodup_map ho.ids hp hfrom.2.2 hid
        exact hne hpk.symm

theorem Change.From.lookup {c : Change} {m : Metadata} (h : c.From m) {key : Text}
    (hkey : c.key = some key) : ∃ entry, m.lookup c.tunnel = some entry := by
  cases c with
  | addTunnel user name entry => cases hkey
  | dropTunnel user name => cases hkey
  | addPeer user loaded name entry peer => exact ⟨entry, h.2.1⟩
  | dropPeer user loaded name entry peer => exact ⟨entry, h.2.1⟩

/-- A created tunnel is recorded without peers, and its file has none. -/
theorem agrees_created {c : Change} {w : World} {m : Metadata} {req : Request}
    (hund : undisturbed m req w = true) (hfrom : c.From w.metadata.loaded) (hsends : c.Sends req)
    (hkey : c.key = none) {id : String} {entry : TunnelMeta} (hafter : c.entryAfter id = some entry)
    (hconf : s'.world.helper.conf = w.helper.conf) : Agrees s' c.tunnel entry := by
  cases c with
  | addTunnel user name e =>
    obtain rfl := Option.some.inj hafter
    have hnil : e.peers = [] := hfrom
    obtain ⟨key, rfl⟩ := hsends
    obtain ⟨content, hc, hno⟩ := undisturbed_createTunnel hund
    refine ⟨content, _, [], (congrArg (·.lookup name) hconf).trans hc, stores_nothing hno, by simp,
      fun key => .inr ?_⟩
    simp [TunnelMeta.keys, hnil]
  | dropTunnel user name => cases hafter
  | addPeer user loaded name e peer => cases hkey
  | dropPeer user loaded name e peer => cases hkey

/-- Where the metadata cannot be loaded nothing is recorded, and nothing counts as recorded. -/
theorem Invariant.unrecorded (h : Invariant env start s) {m : Metadata} {req : Request} {r : Reply}
    {k : Reply → Api HttpResponse} {e : String} (hs : s.sessions = pre ++ ⟨m, .answered req r k⟩ :: post)
    (hbroken : s.world.metadata = .broken e) :
    Invariant env start ⟨s.world, pre ++ ⟨m, .finished (.error (.unhandled e))⟩ :: post⟩ := by
  have hall : ∀ y ∈ pre ++ ⟨m, .answered req r k⟩ :: post, y.Fine := hs ▸ h.fine
  refine ⟨forall_replaced hall ⟨(hall ⟨m, .answered req r k⟩ (by simp)).1, .inl ⟨_, rfl⟩⟩, h.orderly, ?_, ?_⟩
  · intro name entry hentry
    change s.world.metadata.loaded.lookup name = some entry at hentry
    rw [hbroken] at hentry
    cases hentry
  · obtain ⟨hist, hh, hl, hcount⟩ := h.history
    refine ⟨hist, hh, hl, ?_⟩
    have hold : Session.succeeded ⟨m, .answered req r k⟩ = false := rfl
    have hnew : Session.succeeded ⟨m, .finished (.error (.unhandled e))⟩ = false := rfl
    rw [← hcount, hs]
    simp only [List.countP_append, List.countP_cons, hold, hnew]

theorem Invariant.recorded (h : Invariant env start s) (huuid : Function.Injective env.uuid)
    {c : Change} {m : Metadata} {req : Request} {r : Reply} {k : Reply → Api HttpResponse}
    {response : HttpResponse} (hs : s.sessions = pre ++ ⟨m, .answered req r k⟩ :: post)
    (hloaded : c.From m) (hsends : c.Sends req) (hk : k r = c.record response)
    (hund : undisturbed m req s.world = true) :
    Invariant env start ⟨(advance env (k r) s.world).2,
      pre ++ ⟨m, (advance env (k r) s.world).1⟩ :: post⟩ := by
  by_cases hload : c.key = none → s.world.metadata.Loads
  swap
  · obtain ⟨hkey, hbroken⟩ := not_forall.mp hload
    obtain ⟨e, he⟩ := not_forall_not.mp hbroken
    rw [hk, advance_record_broken c response hkey he]
    exact h.unrecorded hs he
  obtain ⟨w', hadv, hconf, hmeta, huuids, hhist⟩ := advance_record env c response hload
  have hfrom := from_of_undisturbed hund hloaded hsends
  rw [hk, hadv]
  have hall : ∀ y ∈ pre ++ ⟨m, .answered req r k⟩ :: post, y.Fine := hs ▸ h.fine
  have hlookup : ∀ name, w'.metadata.loaded.lookup name =
      if name = c.tunnel then c.entryAfter (env.uuid s.world.uuids)
      else s.world.metadata.loaded.lookup name := by
    rw [hmeta]
    exact recorded_lookup hfrom _
  -- only the debt that is paid is gone
  have hdebt : ∀ {name key}, (name ≠ c.tunnel ∨ key ≠ c.key) → Debt s name key →
      Debt ⟨w', pre ++ ⟨m, .finished (.ok response)⟩ :: post⟩ name key := by
    intro name key hne hd
    refine (hd.replace hs rfl).resolve_right ?_
    rintro ⟨c', ⟨hsends', -⟩, rfl, rfl⟩
    obtain ⟨ht, hkey⟩ := hsends'.same hsends
    exact hne.elim (absurd ht) (absurd hkey)
  refine ⟨?_, ?_, ?_, ?_⟩
  · exact forall_replaced hall ⟨(hall ⟨m, .answered req r k⟩ (by simp)).1, .inr (.inr ⟨response, rfl⟩)⟩
  · intro name entry hentry
    change w'.metadata.loaded.lookup name = some entry at hentry
    change Orderly env w'.uuids entry
    rw [hlookup] at hentry
    rw [huuids]
    split at hentry
    · exact orderly_recorded huuid hund hfrom hsends h.orderly hentry
    · exact (h.orderly name entry hentry).mono (Nat.le_add_right _ _)
  · intro name entry hentry
    change w'.metadata.loaded.lookup name = some entry at hentry
    rw [hlookup] at hentry
    split at hentry
    · rename_i hname
      subst hname
      cases hck : c.key with
      | none => exact .inr (agrees_created hund hfrom hsends hck hentry hconf)
      | some key =>
        obtain ⟨e, he⟩ := hfrom.lookup hck
        refine (h.agrees c.tunnel e he).imp (hdebt (.inr (by simp [hck]))) ?_
        rintro ⟨content, header, peers, hc, hst, hn, hkeys⟩
        obtain ⟨entry', he', hown, hothers⟩ :=
          keys_recorded hund hfrom hsends hck hc hst he (h.orderly _ _ he) (env.uuid s.world.uuids)
        obtain rfl : entry = entry' := Option.some.inj (hentry.symm.trans he')
        refine ⟨content, header, peers, (congrArg (·.lookup c.tunnel) hconf).trans hc, hst, hn,
          fun key' => ?_⟩
        by_cases hkk : key' = key
        · exact .inr (hkk ▸ hown)
        · rw [hothers key' hkk]
          exact (hkeys key').imp (hdebt (.inr (by simp [hck, hkk]))) id
    · rename_i hname
      refine (h.agrees name entry hentry).imp (hdebt (.inl hname)) ?_
      rintro ⟨content, header, peers, hc, hst, hn, hkeys⟩
      refine ⟨content, header, peers, (congrArg (·.lookup name) hconf).trans hc, hst, hn, fun key => ?_⟩
      exact (hkeys key).imp (hdebt (.inl hname)) id
  · obtain ⟨hist, hh, hl, hcount⟩ := h.history
    refine ⟨hist ++ [c.happens (env.uuid s.world.uuids)], ?_, ?_, ?_⟩
    · change w'.history = _
      rw [hhist, hh, List.append_assoc]
    · change listing w'.metadata.loaded = _
      rw [hmeta, replay, List.foldl_append]
      change _ = Happening.apply _ (replay hist _)
      rw [← hl]
      exact listing_recorded hfrom _
    · have hold : Session.succeeded ⟨m, .answered req r k⟩ = false := rfl
      have hnew : Session.succeeded ⟨m, .finished (.ok response)⟩ = true := rfl
      rw [List.length_append, ← hcount, hs]
      simp only [List.countP_append, List.countP_cons, hold, hnew]
      rfl

theorem Invariant.step (huuid : Function.Injective env.uuid) {e : Event}
    (hcond : Answered env e s ∧ Undisturbing e s) (hstep : App.step env e s = some s')
    (h : Invariant env start s) : Invariant env start s' := by
  obtain ⟨user, call, rfl, rfl⟩ | ⟨i, m, req, k, pre, post, rfl, hi, hs, rfl⟩ |
    ⟨i, m, req, r, k, pre, post, rfl, hi, hs, rfl⟩ := step_cases hstep
  · exact h.launch hcond.2 user
  · obtain ⟨res, hok⟩ := hcond.1.serve hi
    have hx := (h.fine ⟨m, .waiting req k⟩ (by simp [hs])).2
    rcases hx with hprep | ⟨c, -, howes⟩ | ⟨response, hdone⟩
    · rcases hprep with ⟨hq, hrest⟩ | ⟨c, hfrom, hsends, hrec, -⟩
      · refine h.quietly hs ⟨hq.conf, by simp, by simp, [], by simp, by simp⟩ (fun c => id) rfl rfl ?_
        exact hrest _ hq.clean
      · obtain ⟨response, hk⟩ := hrec res
        exact h.changed hs hfrom hsends hok hk
    · exact howes.elim
    · cases hdone
  · have hx := (h.fine ⟨m, .answered req r k⟩ (by simp [hs])).2
    rcases hx with hprep | ⟨c, hfrom, hsends, response, hk⟩ | ⟨response, hdone⟩
    · obtain ⟨hnext, hw⟩ := @Prepares.advance env _ _ hprep s.world
      exact h.quietly hs hw hprep.not_owes rfl rfl hnext
    · refine h.recorded huuid hs hfrom hsends hk ?_
      have hund : undisturbing (.resume i) s = true := hcond.2
      simpa only [undisturbing, hi] using hund
    · cases hdone

end preservation

/-- Each recorded tunnel has a conf file that stores its peers, and the peers have
different keys and ids. -/
structure Settled (env : AppEnv) (w : World) : Prop where
  orderly : ∀ name entry, w.metadata.loaded.lookup name = some entry → Orderly env w.uuids entry
  stored : ∀ name entry, w.metadata.loaded.lookup name = some entry →
    ∃ content header peers, w.helper.conf.lookup name = some content ∧
      Stores content header peers ∧ (peers.map fun r => r.publicKey.text).Perm entry.keys

/-- From a settled world, once all requests have ended, each recorded tunnel has a conf
file with just the recorded peers, and the tunnels and peers recorded are those created
and not deleted since: as long as no call of the helper fails and each request records
its change undisturbed. -/
theorem undisturbed_requests_keep_in_step (env : AppEnv) (huuid : Function.Injective env.uuid)
    (w : World) (hw : Settled env w) (es : List Event) (s : System)
    (hrun : steps (step env) es ⟨w, []⟩ = some s)
    (hanswered : Along (step env) (Answered env) es ⟨w, []⟩)
    (hundisturbed : Along (step env) Undisturbing es ⟨w, []⟩) (hdone : s.finished = true) :
    InStep s.world ∧ ∃ hs, s.world.history = w.history ++ hs ∧
      listing s.world.metadata.loaded = replay hs (listing w.metadata.loaded) ∧
      s.sessions.countP Session.succeeded = hs.length := by
  have hstart : Invariant env w ⟨w, []⟩ := by
    refine ⟨by simp, hw.orderly, fun name entry he => .inr ?_, [], by simp, rfl, rfl⟩
    obtain ⟨content, header, peers, hc, hst, hperm⟩ := hw.stored name entry he
    refine ⟨content, header, peers, hc, hst, hperm.nodup_iff.mpr (hw.orderly name entry he).keys,
      fun key => .inr ?_⟩
    rw [← hperm.mem_iff, List.mem_map]
  have hend : Invariant env w s :=
    (hanswered.and hundisturbed).invariant (fun e s t hc hs hi => hi.step huuid hc hs) hrun hstart
  have hnodebt : ∀ name key, ¬ Debt s name key := by
    rintro name key ⟨x, hx, c, howes, -⟩
    have hfin := List.all_eq_true.mp hdone x hx
    obtain ⟨m, t⟩ := x
    cases t with
    | finished outcome => exact howes
    | waiting req k => cases hfin
    | answered req r k => cases hfin
  refine ⟨fun name entry he => ?_, hend.history⟩
  obtain ⟨content, header, peers, hc, hst, hn, hkeys⟩ :=
    (hend.agrees name entry he).resolve_left (hnodebt name none)
  refine ⟨content, hc, ?_⟩
  rw [stores_sectionKeys hst, List.perm_ext_iff_of_nodup hn (hend.orderly name entry he).keys]
  intro key
  rw [List.mem_map, (hkeys key).resolve_left (hnodebt name (some key))]

/-! ## Concrete requests -/

def keyOf (c : Char) : Text := List.replicate 42 c ++ ['A', '=']

def sampleDump : Text :=
  ['w', 'g', '0', '\t', 'k', '\t'] ++ keyOf 'S' ++
    ['\t', '5', '1', '8', '2', '0', '\t', 'o', 'f', 'f', '\n']

/-- The tunnel is up, and every subprocess succeeds; the sixth call of all yields one
public key and every other another. -/
def sampleHelper : Env := fun tick c _ live =>
  match c with
  | .wgGenkey => (.exited 0 (keyOf 'P') [], live)
  | .wgPubkey _ => (.exited 0 (keyOf (if tick = 5 then 'A' else 'B')) [], live)
  | .wgShowAllDump => (.exited 0 sampleDump [], live)
  | _ => (.exited 0 [] [], live)

def sampleEnv : AppEnv where
  helper := sampleHelper
  repr := fun _ => ""
  uid := 0
  link := fun _ => .up
  netIfAddrs := fun _ => []
  uuid := fun n => String.ofList (List.replicate n 'x')

theorem sampleEnv_uuid : Function.Injective sampleEnv.uuid := fun a b h => by
  simpa [sampleEnv] using congrArg List.length (String.ofList_injective h)

def serverAddress : Interface 32 := ⟨0x0A080001#32, 24, Cidr.length_24⟩

def sampleTunnel : CreateTunnel where
  name := sampleName
  privateKey := ⟨keyOf 'P', by decide +kernel⟩
  address := .v4 serverAddress
  listenPort := samplePort

/-- One tunnel as it is created. -/
def sampleWorld : World where
  helper :=
    { conf := ⟨[("wg0", tunnelText sampleTunnel)], by decide⟩
      live := fun n => if n = "wg0" then some [] else none
      psk := none
      log := []
      tick := 0 }
  metadata := .data [("wg0", ⟨(IPInterface.v4 serverAddress).str, none, 51820, []⟩)]
  log := []
  uuids := 0
  sent := []

theorem sampleWorld_lookup {name : String} {entry : TunnelMeta}
    (h : sampleWorld.metadata.loaded.lookup name = some entry) :
    name = "wg0" ∧ entry = ⟨(IPInterface.v4 serverAddress).str, none, 51820, []⟩ := by
  change List.lookup name [("wg0", _)] = some entry at h
  rw [List.lookup_cons] at h
  split at h
  · rename_i hn
    exact ⟨by simpa using hn, (Option.some.inj h).symm⟩
  · cases h

theorem sampleWorld_settled (env : AppEnv) : Settled env sampleWorld := by
  constructor
  · intro name entry h
    obtain ⟨rfl, rfl⟩ := sampleWorld_lookup h
    exact ⟨by simp [TunnelMeta.keys], by simp, by simp [TunnelMeta.ids], by simp⟩
  · intro name entry h
    obtain ⟨rfl, rfl⟩ := sampleWorld_lookup h
    exact ⟨_, _, [], rfl, stores_nothing (by decide +kernel), by simp [TunnelMeta.keys]⟩

def samplePeer : PeerCreateRequest where
  description := "laptop"
  allowedIps := [serverAddress.network]
  presharedKey := false
  keepalive := none
  descriptionOk := ⟨by decide, by decide, by decide⟩
  allowedIpsOk := by decide
  keepaliveOk := by simp

def officeTunnel : TunnelCreateRequest where
  name := "wg1"
  address := ⟨0x0A090001#32, 24, Cidr.length_24⟩
  listenPort := 51821
  endpoint := none
  force := false
  nameOk := ⟨by decide, by decide, by decide⟩
  portOk := by decide
  endpointOk := by simp

/-- Each call of `wg pubkey` prints another key. -/
def variedHelper : Env := fun tick c dir live =>
  match c with
  | .wgPubkey _ => (.exited 0 (keyOf (Char.ofNat (65 + tick))) [], live)
  | _ => sampleHelper tick c dir live

def variedEnv : AppEnv := { sampleEnv with helper := variedHelper }

/-- The `i`-th request adds a peer to `wg0`, from its first call to its answer. -/
def addingPeer (i : Nat) : List Event :=
  [.launch none (.createPeer "wg0" samplePeer), .serve i, .resume i, .serve i, .resume i, .serve i, .resume i]

/-- Three peers are added, one of them while a deletion comes to nothing; then the first one is
deleted and a tunnel is created in turns. -/
def orderlyRequests : List Event :=
  [.launch none (.createPeer "wg0" samplePeer), .serve 0, .resume 0, .launch none (.deletePeer "wg0" "nobody"),
    .serve 0, .resume 0, .serve 0, .resume 0] ++
  addingPeer 2 ++ addingPeer 3 ++
  [.launch none (.createTunnel officeTunnel), .launch none (.deletePeer "wg0" (variedEnv.uuid 0)),
    .serve 4, .serve 5, .resume 4, .resume 5, .serve 4, .resume 4]

theorem orderly_requests_in_step :
    ∃ s, steps (step variedEnv) orderlyRequests ⟨sampleWorld, []⟩ = some s ∧
      s.sessions.countP Session.succeeded = 5 ∧ (confKeys s.world.helper.conf "wg0").length = 2 ∧
        InStep s.world := by
  have hend : (steps (step variedEnv) orderlyRequests ⟨sampleWorld, []⟩).map (fun s =>
      (s.finished, s.sessions.countP Session.succeeded, (confKeys s.world.helper.conf "wg0").length)) =
      some (true, 5, 2) := by decide +kernel
  obtain ⟨s, hs, heq⟩ := Option.map_eq_some_iff.mp hend
  obtain ⟨hdone, hcount, hpeers⟩ : _ ∧ _ ∧ _ := by simpa only [Prod.mk.injEq] using heq
  exact ⟨s, hs, hcount, hpeers, (undisturbed_requests_keep_in_step variedEnv sampleEnv_uuid sampleWorld
    (sampleWorld_settled variedEnv) orderlyRequests s hs (by decide +kernel) (by decide +kernel) hdone).1⟩

/-- Two requests that add a peer to one tunnel, call by call in turns. -/
def peerRace : List Event :=
  [.launch none (.createPeer "wg0" samplePeer), .launch none (.createPeer "wg0" samplePeer),
    .serve 0, .serve 1, .resume 0, .resume 1, .serve 0, .serve 1, .resume 0, .resume 1,
    .serve 0, .serve 1, .resume 0, .resume 1]

/-- Both requests succeed, but the second writes back what it loaded at first: the peer
of the other one is in the conf file and no longer recorded. -/
theorem race_loses_a_peer :
    ∃ s, steps (step sampleEnv) peerRace ⟨sampleWorld, []⟩ = some s ∧
      Along (step sampleEnv) (Answered sampleEnv) peerRace ⟨sampleWorld, []⟩ ∧ s.finished = true ∧
      s.sessions.countP Session.succeeded = 2 ∧
      confKeys s.world.helper.conf "wg0" = [keyOf 'A', keyOf 'B'] ∧
      recordedKeys s.world.metadata.loaded "wg0" = [keyOf 'B'] ∧ ¬ InStep s.world := by
  have hend : (steps (step sampleEnv) peerRace ⟨sampleWorld, []⟩).map (fun s =>
      (s.finished, s.sessions.countP Session.succeeded, confKeys s.world.helper.conf "wg0",
        recordedKeys s.world.metadata.loaded "wg0")) =
      some (true, 2, [keyOf 'A', keyOf 'B'], [keyOf 'B']) := by decide +kernel
  obtain ⟨s, hs, heq⟩ := Option.map_eq_some_iff.mp hend
  obtain ⟨hdone, hcount, hconf, hrec⟩ : _ ∧ _ ∧ _ ∧ _ := by simpa only [Prod.mk.injEq] using heq
  refine ⟨s, hs, by decide +kernel, hdone, hcount, hconf, hrec, fun hin => ?_⟩
  cases hl : s.world.metadata.loaded.lookup "wg0" with
  | none => simp [recordedKeys, hl] at hrec
  | some entry =>
    obtain ⟨content, hc, hperm⟩ := hin "wg0" entry hl
    rw [confKeys, hc] at hconf
    rw [recordedKeys, hl] at hrec
    have hlen := hperm.length_eq
    rw [show sectionKeys content = _ from hconf, show entry.keys = _ from hrec] at hlen
    cases hlen

end App
