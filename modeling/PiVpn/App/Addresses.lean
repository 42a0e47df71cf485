import PiVpn.App.Consistency

/-! The tunnel addresses of the peers under interleaved requests: each is handed out
once, as long as whoever adds a peer knew of all that are in the conf file by then. -/

namespace App
open Text Cidr Ipaddress Effect Helper Transition

/-! ## The addresses in a conf file -/

/-- The networks in the `AllowedIPs` of a peer section. -/
def blockNetworks (block : Text) : List IPNetwork := (blockAllowedIps block).filterMap ipNetwork

/-- No two peer sections carry a common address, and none carries the server's own. -/
structure AddressesApart (content : Text) (server : BitVec 32) : Prop where
  peers : ((sections content).2.map blockNetworks).Pairwise fun ns ns' =>
    ∀ n ∈ ns, ∀ n' ∈ ns', n.overlaps n' = false
  server : ∀ b ∈ (sections content).2, ∀ n ∈ blockNetworks b, n.contains (.v4 server) = false

def confAddresses (c : ConfDir) (name : String) : List Text :=
  ((c.lookup name).map fun content => (sections content).2.flatMap blockAllowedIps).getD []

def recordedAddresses (m : Metadata) (name : String) : List Text :=
  ((m.lookup name).map fun t => t.peers.map PeerMeta.tunnelAddress).getD []

/-! ## The condition -/

/-- When the helper adds a peer, every address in the conf file of the tunnel is one of
those that were recorded when the request came in. -/
def covered : Event → System → Bool
  | .launch _ call, _ => call.altersPeers
  | .resume _, _ => true
  | .serve i, s =>
    match s.sessions[i]? with
    | some ⟨m, .waiting req _⟩ =>
      match Json.get req "cmd", Json.get req "tunnel" with
      | .str "add_peer", .str name =>
        (confAddresses s.world.helper.conf name).all fun a => (recordedAddresses m name).contains a
      | _, _ => true
    | _ => true

def Covered (e : Event) (s : System) : Prop := covered e s = true

instance {e : Event} {s : System} : Decidable (Covered e s) :=
  inferInstanceAs (Decidable (_ = true))

/-! ## Host networks -/

def hostNetwork (h : BitVec 32) : Network 32 := (hostInterface h).network

theorem hostNetwork_contains {h a : BitVec 32} : (hostNetwork h).contains a = true ↔ a = h :=
  Interface.host_contains

theorem hostNetwork_overlaps {h h' : BitVec 32} (hne : h ≠ h') :
    (hostNetwork h).overlaps (hostNetwork h') = false := by
  rw [Bool.eq_false_iff]
  intro ho
  obtain ⟨a, ha, ha'⟩ := Network.overlaps_iff_common.mp ho
  rw [hostNetwork_contains] at ha ha'
  exact hne (ha.symm.trans ha')

theorem ipNetwork_hostNetwork (h : BitVec 32) :
    ipNetwork (IPNetwork.v4 (hostNetwork h)).str = some (.v4 (hostNetwork h)) := by
  rw [hostNetwork, hostInterface_str, ipNetwork_hostInterface]

/-! ## The invariant -/

/-- The peer carries one address, which is not the server's. -/
def OneHost (server : BitVec 32) (r : AddPeer) : Prop :=
  ∃ h, h ≠ server ∧ r.allowedIps.nets = [.v4 (hostNetwork h)]

def Apart (r r' : AddPeer) : Prop :=
  ∀ n ∈ r.allowedIps.nets, ∀ n' ∈ r'.allowedIps.nets, n.overlaps n' = false

/-- The conf file of the tunnel stores peers with one address each, all different. -/
structure Assigned (c : ConfDir) (name : String) (server : BitVec 32) : Prop where
  stored : ∃ content header peers, c.lookup name = some content ∧ Stores content header peers ∧
    (peers.map fun r => r.publicKey.text).Nodup ∧ (∀ r ∈ peers, OneHost server r) ∧
    peers.Pairwise Apart

theorem stores_blockNetworks {content header : Text} {peers : List AddPeer} {server : BitVec 32}
    (hst : Stores content header peers) (hone : ∀ r ∈ peers, OneHost server r) :
    (sections content).2.map blockNetworks = peers.map fun r => r.allowedIps.nets := by
  rw [hst.blocks, List.map_map]
  apply List.map_congr_left
  intro r hr
  obtain ⟨h, -, hnets⟩ := hone r hr
  have hread := (hst.regular r hr).blockAllowedIps
  simp [blockNetworks, hread, hnets, ipNetwork_hostNetwork]

theorem Assigned.apart {c : ConfDir} {name : String} {server : BitVec 32} {content : Text}
    (h : Assigned c name server) (hc : c.lookup name = some content) :
    AddressesApart content server := by
  obtain ⟨content', header, peers, hc', hst, -, hone, hapart⟩ := h.stored
  obtain rfl : content = content' := Option.some.inj (hc.symm.trans hc')
  have hnets := stores_blockNetworks hst hone
  refine ⟨?_, fun b hb n hn => ?_⟩
  · rw [hnets, List.pairwise_map]
    exact hapart
  · have hmem : blockNetworks b ∈ peers.map fun r => r.allowedIps.nets :=
      hnets ▸ List.mem_map_of_mem hb
    obtain ⟨r, hr, hrb⟩ := List.mem_map.mp hmem
    obtain ⟨h, hne, hone⟩ := hone r hr
    rw [← hrb, hone, List.mem_singleton] at hn
    subst hn
    rw [Bool.eq_false_iff]
    exact fun hin => hne (hostNetwork_contains.mp hin).symm

theorem Assigned.congr {c c' : ConfDir} {name : String} {server : BitVec 32}
    (h : Assigned c name server) (hc : c'.lookup name = c.lookup name) : Assigned c' name server := by
  obtain ⟨content, header, peers, hl, hrest⟩ := h.stored
  exact ⟨content, header, peers, hc.trans hl, hrest⟩

theorem Assigned.remove {c c' : ConfDir} {name : String} {server : BitVec 32} {key : Text}
    (h : Assigned c name server) (hrem : RemovedPeer c c' name key) (hkey : Stripped key) :
    Assigned c' name server := by
  obtain ⟨content, header, peers, hc, hst, hn, hone, hapart⟩ := h.stored
  obtain ⟨content', hc', hst'⟩ := stores_removedPeer hst hc hrem hkey
  exact ⟨content', header, _, hc', hst', hn.sublist (List.filter_sublist.map _),
    fun r hr => hone r (List.mem_filter.mp hr).1, hapart.sublist List.filter_sublist⟩

theorem mem_of_mapM {α β : Type} {f : α → Option β} {xs : List α} {ys : List β}
    (h : xs.mapM f = some ys) {x : α} (hx : x ∈ xs) : ∃ y ∈ ys, f x = some y := by
  induction xs generalizing ys with
  | nil => cases hx
  | cons z zs ih =>
    rw [List.mapM_cons] at h
    obtain ⟨y, hy, h⟩ := Option.bind_eq_some_iff.mp h
    obtain ⟨ys', hys, h⟩ := Option.bind_eq_some_iff.mp h
    obtain rfl := Option.some.inj h
    rcases List.mem_cons.mp hx with rfl | hx
    · exact ⟨y, List.mem_cons_self, hy⟩
    · obtain ⟨y', hy', hf⟩ := ih hys hx
      exact ⟨y', List.mem_cons_of_mem _ hy', hf⟩

/-- An address that is allocated while all those in the file are recorded is a new one. -/
theorem Assigned.add {c c' : ConfDir} {name : String} {server : Interface 32} {key address : Text}
    {entry : TunnelMeta} (h : Assigned c name server.ip) (hadd : AddedPeer c c' name key address)
    (hkey : Stripped key) (ha : allocatePeerAddress entry = .pure address)
    (hserver : entry.address = (IPInterface.v4 server).str)
    (hcover : ∀ a ∈ confAddresses c name, a ∈ entry.peers.map PeerMeta.tunnelAddress) :
    Assigned c' name server.ip := by
  obtain ⟨content, header, peers, hc, hst, hn, hone, hapart⟩ := h.stored
  obtain ⟨content', r, hc', hst', hr, hn'⟩ := stores_addedPeer hst hn hc hadd hkey ha
  obtain ⟨i, used, host, hi, hused, rfl, hnotServer, hfree⟩ := allocatePeerAddress_eq ha
  obtain rfl : server = i := by
    rw [hserver, ipInterface_str] at hi
    exact IPInterface.v4.inj (Option.some.inj hi)
  have hnets : r.allowedIps.nets = [.v4 (hostNetwork host)] := by
    obtain ⟨n, hnet, hnets⟩ := hr.nets
    rw [ipNetwork_hostInterface] at hnet
    rw [hnets, ← Option.some.inj hnet]
    rfl
  refine ⟨content', header, _, hc', hst', hn', ?_, ?_⟩
  · intro r' hr'
    rcases List.mem_append.mp hr' with hr' | hr'
    · exact hone r' hr'
    · rw [List.mem_singleton.mp hr']
      exact ⟨host, hnotServer, hnets⟩
  · rw [List.pairwise_append]
    refine ⟨hapart, List.pairwise_singleton _ _, fun r' hr' r'' hr'' => ?_⟩
    obtain rfl := List.mem_singleton.mp hr''
    obtain ⟨h', -, hnets'⟩ := hone r' hr'
    -- the older address is recorded, so the allocation has passed it over
    have hmem : (IPInterface.v4 (hostInterface h')).str ∈ entry.peers.map PeerMeta.tunnelAddress := by
      apply hcover
      rw [confAddresses, hc, Option.map_some, Option.getD_some, hst.blocks]
      rw [List.mem_flatMap]
      refine ⟨peerText r', List.mem_map_of_mem hr', ?_⟩
      rw [(hst.regular r' hr').blockAllowedIps, hnets', List.map_singleton, hostNetwork, hostInterface_str,
        List.mem_singleton]
    obtain ⟨p, hp, hpa⟩ := List.mem_map.mp hmem
    have hne : h' ≠ host := by
      obtain ⟨j, hj, hjp⟩ := mem_of_mapM hused hp
      rw [hpa, ipInterface_str] at hjp
      obtain rfl := Option.some.inj hjp
      exact hfree _ hj
    intro n hn n' hn'
    rw [hnets', List.mem_singleton] at hn
    rw [hnets, List.mem_singleton] at hn'
    rw [hn, hn']
    exact hostNetwork_overlaps hne

/-- The same tunnels with the same addresses as at first, and keys without a newline. -/
structure SameTunnels (start m : Metadata) : Prop where
  address : ∀ name entry, m.lookup name = some entry →
    ∃ entry₀, start.lookup name = some entry₀ ∧ entry.address = entry₀.address
  keys : ∀ name entry, m.lookup name = some entry → ∀ p ∈ entry.peers, Stripped p.publicKey

/-- A recorded peer change keeps the address of the tunnel, and its peers but for one. -/
theorem entryAfter_peer {m : Metadata} {c : Change} (hc : c.PeerFrom m) {peerId : String}
    {entry : TunnelMeta} (h : c.entryAfter peerId = some entry) :
    ∃ e, m.lookup c.tunnel = some e ∧ entry.address = e.address ∧
      ∀ p ∈ entry.peers, p ∈ e.peers ∨ Stripped p.publicKey := by
  obtain ⟨hfrom, hkey⟩ := hc
  cases c with
  | addTunnel user name e => exact absurd rfl hkey
  | dropTunnel user name => exact absurd rfl hkey
  | addPeer user loaded name e peer =>
    obtain rfl := Option.some.inj h
    refine ⟨e, hfrom.2.1, rfl, fun p hp => (List.mem_append.mp hp).imp id fun hp => ?_⟩
    rw [List.mem_singleton.mp hp]
    exact hfrom.2.2.2
  | dropPeer user loaded name e peer =>
    obtain rfl := Option.some.inj h
    exact ⟨e, hfrom.2.1, rfl, fun p hp => .inl (List.mem_filter.mp hp).1⟩

theorem SameTunnels.recorded {start m m' : Metadata} {c : Change} (h : SameTunnels start m)
    (hc : c.PeerFrom m) (peerId : String) : SameTunnels start (c.recorded peerId m') := by
  have hm : c.recorded peerId m' = c.recorded peerId m := by
    cases c with
    | addTunnel user name entry => exact absurd rfl hc.2
    | dropTunnel user name => exact absurd rfl hc.2
    | addPeer user loaded name entry peer => rfl
    | dropPeer user loaded name entry peer => rfl
  rw [hm]
  constructor
  · intro name entry he
    rw [recorded_lookup hc.1] at he
    split at he
    · rename_i hname
      obtain ⟨e, hl, ha, -⟩ := entryAfter_peer hc he
      obtain ⟨e₀, h₀, ha₀⟩ := h.address _ e hl
      exact ⟨e₀, hname ▸ h₀, ha.trans ha₀⟩
    · exact h.address name entry he
  · intro name entry he p hp
    rw [recorded_lookup hc.1] at he
    split at he
    · obtain ⟨e, hl, -, hpeers⟩ := entryAfter_peer hc he
      exact (hpeers p hp).elim (h.keys _ e hl p) id
    · exact h.keys name entry he p hp

structure AddressInvariant (start : Metadata) (s : System) : Prop where
  same : SameTunnels start s.world.metadata.loaded
  sessions : ∀ x ∈ s.sessions, SameTunnels start x.loaded ∧
    (x.thread.Preparing (Change.PeerFrom x.loaded) ∨
      (∃ c, c.PeerFrom x.loaded ∧ x.thread.Owes c) ∨ ∃ response, x.thread = .finished (.ok response))
  assigned : ∀ name entry server, start.lookup name = some entry →
    entry.address = (IPInterface.v4 server).str → Assigned s.world.helper.conf name server.ip

section preservation

variable {env : AppEnv} {start : Metadata} {s s' : System} {pre post : List Session}

/-- A change of the peers of one tunnel keeps the addresses apart. -/
theorem assigned_changed {m : Metadata} {req : Request} {w : World} {c : Change}
    (hsame : SameTunnels start m) (hfrom : c.PeerFrom m) (hsends : c.Sends req)
    (hcover : ∀ name key addresses psk keepalive,
      req = addPeerRequest name key addresses psk keepalive →
      ∀ a ∈ confAddresses w.helper.conf name, a ∈ recordedAddresses m name)
    {name : String} {entry : TunnelMeta} {server : Interface 32}
    (hentry : start.lookup name = some entry) (hserver : entry.address = (IPInterface.v4 server).str)
    (h : Assigned w.helper.conf name server.ip) :
    Assigned (serve env req w).2.helper.conf name server.ip := by
  obtain ⟨hfrom, hkey⟩ := hfrom
  cases c with
  | addTunnel user tunnel e => exact absurd rfl hkey
  | dropTunnel user tunnel => exact absurd rfl hkey
  | addPeer user loaded tunnel e peer =>
    obtain ⟨psk, keepalive, hpsk, rfl⟩ := hsends
    obtain ⟨-, hl, ha, hstripped⟩ := hfrom
    rcases (serve_addPeer hpsk).1 with hc | hadd
    · exact h.congr (by rw [hc])
    · by_cases hname : name = tunnel
      · subst hname
        -- the allocation has looked at the record, which covers what the file holds
        obtain ⟨e₀, he₀, haddr⟩ := hsame.address name e hl
        obtain rfl : entry = e₀ := Option.some.inj (hentry.symm.trans he₀)
        refine h.add hadd hstripped ha (haddr.trans hserver) fun a hmem => ?_
        have hrec := hcover _ _ _ _ _ rfl a hmem
        rwa [recordedAddresses, hl] at hrec
      · obtain ⟨r, content, -, -, -, hc⟩ := hadd.done
        exact h.congr (by rw [hc]; exact ConfDir.lookup_set_ne hname _)
  | dropPeer user loaded tunnel e peer =>
    obtain rfl := hsends
    obtain ⟨-, hl, hp⟩ := hfrom
    rcases serve_removePeer.1 with hc | hrem
    · exact h.congr (by rw [hc])
    · by_cases hname : name = tunnel
      · subst hname
        exact h.remove hrem (hsame.keys name e hl peer hp)
      · obtain ⟨k, content, -, -, hc⟩ := hrem.done
        exact h.congr (by rw [hc]; exact ConfDir.lookup_set_ne hname _)

theorem covered_serve {i : Nat} {m : Metadata} {name : String} {key : Text} {addresses : List Text}
    {psk : Option Text} {keepalive : Option Int} {k : Reply → Api HttpResponse}
    (h : Covered (.serve i) s)
    (hi : s.sessions[i]? = some ⟨m, .waiting (addPeerRequest name key addresses psk keepalive) k⟩) :
    ∀ a ∈ confAddresses s.world.helper.conf name, a ∈ recordedAddresses m name := by
  have h : covered (.serve i) s = true := h
  simp only [covered, hi] at h
  intro a ha
  exact List.contains_iff_mem.mp (List.all_eq_true.mp h a ha)

theorem AddressInvariant.of_untouched {w : World} {sessions : List Session}
    (h : AddressInvariant start s) (hw : Untouched s.world w)
    (hsessions : ∀ x ∈ sessions, SameTunnels start x.loaded ∧
      (x.thread.Preparing (Change.PeerFrom x.loaded) ∨ (∃ c, c.PeerFrom x.loaded ∧ x.thread.Owes c) ∨
        ∃ response, x.thread = .finished (.ok response))) :
    AddressInvariant start ⟨w, sessions⟩ := by
  refine ⟨?_, hsessions, fun name entry server he ha => (h.assigned name entry server he ha).congr ?_⟩
  · change SameTunnels start w.metadata.loaded
    rw [hw.metadata]
    exact h.same
  · change w.helper.conf.lookup name = _
    rw [hw.conf]

theorem AddressInvariant.step {e : Event} (hcond : Covered e s) (hstep : App.step env e s = some s')
    (h : AddressInvariant start s) : AddressInvariant start s' := by
  obtain ⟨user, call, rfl, rfl⟩ | ⟨i, m, req, k, pre, post, rfl, hi, hs, rfl⟩ |
    ⟨i, m, req, r, k, pre, post, rfl, hi, hs, rfl⟩ := step_cases hstep
  · obtain ⟨hprep, hw⟩ := @launch_preparing_peers env call hcond user s.world
    refine h.of_untouched hw fun x hx => ?_
    rcases List.mem_append.mp hx with hx | hx
    · exact h.sessions x hx
    · rw [List.mem_singleton.mp hx]
      exact ⟨h.same, .inl hprep⟩
  -- a call is served: only the call of a change touches the file
  · have hall := hs ▸ h.sessions
    obtain ⟨hm, hprep | ⟨c, -, howes⟩ | ⟨response, hdone⟩⟩ := hall ⟨m, .waiting req k⟩ (by simp)
    · rcases hprep with ⟨hq, hrest⟩ | ⟨c, hfrom, hsends, hrec, hfail⟩
      · refine h.of_untouched ⟨hq.conf, by simp, by simp, [], by simp, by simp⟩ ?_
        exact forall_replaced hall ⟨hm, .inl (hrest _ hq.clean)⟩
      · refine ⟨by simpa using h.same, forall_replaced hall ⟨hm, ?_⟩, ?_⟩
        · by_cases hok : ∃ res, (serve env req s.world).1 = .response (.ok res)
          · obtain ⟨res, hok⟩ := hok
            obtain ⟨response, hk⟩ := hrec res
            refine .inr (.inl ⟨c, hfrom, hsends, response, ?_⟩)
            rw [hok, hk]
          · exact .inl (hfail _ fun res hres => hok ⟨res, hres⟩)
        · intro name entry server he ha
          refine assigned_changed hm hfrom hsends ?_ he ha (h.assigned name entry server he ha)
          rintro tunnel key addresses psk keepalive rfl
          exact covered_serve hcond hi
    · exact howes.elim
    · cases hdone
  -- a request goes on: what it owes is recorded, which leaves the file alone
  · have hall := hs ▸ h.sessions
    obtain ⟨hm, hprep | ⟨c, hfrom, hsends, response, hk⟩ | ⟨response, hdone⟩⟩ :=
      hall ⟨m, .answered req r k⟩ (by simp)
    · obtain ⟨hnext, hw⟩ := @Prepares.advance env _ _ hprep s.world
      exact h.of_untouched hw (forall_replaced hall ⟨hm, .inl hnext⟩)
    · obtain ⟨w', hadv, hconf, hmeta, -⟩ := advance_record env c response fun hkey => absurd hkey hfrom.2
      rw [hk, hadv]
      refine ⟨?_, forall_replaced hall ⟨hm, .inr (.inr ⟨response, rfl⟩)⟩, ?_⟩
      · change SameTunnels start w'.metadata.loaded
        rw [hmeta]
        exact hm.recorded hfrom _
      · intro name entry server he ha
        exact (h.assigned name entry server he ha).congr (congrArg (·.lookup name) hconf)
    · cases hdone

end preservation

/-- The tunnels are as the application creates them: recorded without peers, and with
the conf file that was written for them. -/
def JustCreated (w : World) : Prop :=
  ∀ name entry, w.metadata.loaded.lookup name = some entry → entry.peers = [] ∧
    ∃ t : CreateTunnel, ∃ i : Interface 32, t.address = .v4 i ∧
      entry.address = (IPInterface.v4 i).str ∧ w.helper.conf.lookup name = some (tunnelText t)

/-- Under every order of requests that add and delete peers, with calls that fail or
not, the addresses in the conf file of each tunnel stay apart, as long as each peer is
added by a request that knew of all addresses that are in the file by then. -/
theorem covered_requests_keep_addresses_apart (env : AppEnv) (w : World) (hw : JustCreated w)
    (es : List Event) (s : System) (hrun : steps (step env) es ⟨w, []⟩ = some s)
    (hcovered : Along (step env) Covered es ⟨w, []⟩) (name : String) (entry : TunnelMeta)
    (server : Interface 32) (hentry : w.metadata.loaded.lookup name = some entry)
    (hserver : entry.address = (IPInterface.v4 server).str) :
    ∃ content, s.world.helper.conf.lookup name = some content ∧
      AddressesApart content server.ip := by
  have hstart : AddressInvariant w.metadata.loaded ⟨w, []⟩ := by
    refine ⟨⟨fun name entry he => ⟨entry, he, rfl⟩, fun name entry he p hp => ?_⟩, by simp, ?_⟩
    · rw [(hw name entry he).1] at hp
      cases hp
    · intro name entry server he ha
      obtain ⟨-, t, i, ht, -, hc⟩ := hw name entry he
      have hscope : t.address.scope = none := by rw [ht]; rfl
      have hst : Stores (tunnelText t) (universalNewlines (tunnelText t)) [] := by
        refine stores_header ?_
        rw [(tunnelText_header hscope).1]
        exact (tunnelText_header hscope).2
      exact ⟨_, _, [], hc, hst, by simp, by simp, List.Pairwise.nil⟩
  have hend : AddressInvariant w.metadata.loaded s :=
    hcovered.invariant (fun e s t hc hs hi => hi.step hc hs) hrun hstart
  have hassigned := hend.assigned name entry server hentry hserver
  obtain ⟨content, header, peers, hc, -⟩ := hassigned.stored
  exact ⟨content, hc, hassigned.apart hc⟩

theorem sampleWorld_justCreated : JustCreated sampleWorld := by
  intro name entry h
  obtain ⟨rfl, rfl⟩ := sampleWorld_lookup h
  exact ⟨rfl, sampleTunnel, serverAddress, rfl, rfl, rfl⟩

/-- Two peers are added while another deletion comes to nothing; the first one is deleted, and
a third one gets its address. -/
def coveredRequests : List Event :=
  addingPeer 0 ++
  [.launch none (.createPeer "wg0" samplePeer), .serve 1, .resume 1, .launch none (.deletePeer "wg0" "nobody"),
    .serve 1, .resume 1, .serve 1, .resume 1, .launch none (.deletePeer "wg0" (variedEnv.uuid 0)), .serve 3,
    .resume 3] ++
  addingPeer 4

theorem covered_requests_addresses_apart :
    ∃ s content, steps (step variedEnv) coveredRequests ⟨sampleWorld, []⟩ = some s ∧
      s.world.helper.conf.lookup "wg0" = some content ∧
      confAddresses s.world.helper.conf "wg0" =
        [(IPInterface.v4 (hostInterface 0x0A080003#32)).str,
          (IPInterface.v4 (hostInterface 0x0A080002#32)).str] ∧
      AddressesApart content serverAddress.ip := by
  have hend : (steps (step variedEnv) coveredRequests ⟨sampleWorld, []⟩).map (fun s =>
      confAddresses s.world.helper.conf "wg0") =
      some [(IPInterface.v4 (hostInterface 0x0A080003#32)).str,
        (IPInterface.v4 (hostInterface 0x0A080002#32)).str] := by decide +kernel
  obtain ⟨s, hs, haddresses⟩ := Option.map_eq_some_iff.mp hend
  obtain ⟨content, hc, hapart⟩ := covered_requests_keep_addresses_apart variedEnv sampleWorld
    sampleWorld_justCreated coveredRequests s hs (by decide +kernel) "wg0" _ serverAddress rfl rfl
  exact ⟨s, content, hs, hc, haddresses, hapart⟩

/-- Two requests at once choose the same address, and both peers get it. -/
theorem race_shares_an_address :
    ∃ s content, steps (step sampleEnv) peerRace ⟨sampleWorld, []⟩ = some s ∧
      Along (step sampleEnv) (Answered sampleEnv) peerRace ⟨sampleWorld, []⟩ ∧
      s.world.helper.conf.lookup "wg0" = some content ∧
      confAddresses s.world.helper.conf "wg0" =
        [(IPInterface.v4 (hostInterface 0x0A080002#32)).str,
          (IPInterface.v4 (hostInterface 0x0A080002#32)).str] ∧
      ¬ AddressesApart content serverAddress.ip := by
  have hend : ((steps (step sampleEnv) peerRace ⟨sampleWorld, []⟩).map fun s =>
      (confAddresses s.world.helper.conf "wg0",
        (s.world.helper.conf.lookup "wg0").map fun content =>
          decide (((sections content).2.map blockNetworks).Pairwise fun ns ns' =>
            ∀ n ∈ ns, ∀ n' ∈ ns', n.overlaps n' = false))) =
      some ([(IPInterface.v4 (hostInterface 0x0A080002#32)).str,
        (IPInterface.v4 (hostInterface 0x0A080002#32)).str], some false) := by decide +kernel
  obtain ⟨s, hs, heq⟩ := Option.map_eq_some_iff.mp hend
  obtain ⟨haddresses, hapart⟩ : _ ∧ _ := by simpa only [Prod.mk.injEq] using heq
  obtain ⟨content, hc, hno⟩ := Option.map_eq_some_iff.mp hapart
  exact ⟨s, content, hs, by decide +kernel, hc, haddresses,
    fun h => of_decide_eq_false hno h.peers⟩

end App
