import PiVpn.App.Wireguard

/-! Which address a new peer gets: the lowest usable host of the subnet that nobody has. -/

/-- In an ascending list the first that passes is the lowest that passes. -/
theorem List.lowest_of_find? {α : Type} {f : α → Nat} {l : List α} {p : α → Bool} {a : α}
    (hl : l.Pairwise fun x y => f x < f y) (h : l.find? p = some a) : ∀ b ∈ l, p b = true → f a ≤ f b := by
  obtain ⟨-, xs, ys, rfl, hxs⟩ := List.find?_eq_some_iff_append.mp h
  intro b hb hpb
  rw [List.pairwise_append, List.pairwise_cons] at hl
  rcases List.mem_append.mp hb with hb | hb
  · have := hxs b hb
    rw [hpb] at this
    cases this
  · rcases List.mem_cons.mp hb with rfl | hb
    · exact Nat.le_refl _
    · exact Nat.le_of_lt (hl.2.1.1 b hb)

namespace App
open Text Cidr Ipaddress Effect

/-! ## Usable hosts -/

/-- An address of the network; below /31 neither the network's own nor its broadcast address. -/
def Usable (n : Network 32) (h : BitVec 32) : Prop :=
  n.contains h = true ∧ (n.prefixlen < 31 → h ≠ n.address ∧ h ≠ n.broadcast)

theorem toNat_ne {a b : BitVec 32} : a ≠ b ↔ a.toNat ≠ b.toNat := by
  rw [Ne, Ne, BitVec.toNat_inj]

theorem mem_hosts {n : Network 32} {h : BitVec 32} : h ∈ hosts n ↔ Usable n h := by
  have hb := n.toNat_broadcast
  have hlt := n.address_add_lt
  rw [Usable, n.contains_iff_range, hosts]
  by_cases h32 : n.prefixlen = 32
  · rw [Network.hostBits, h32] at hb
    simp only [h32, if_true, List.mem_singleton, ← BitVec.toNat_inj]
    omega
  · by_cases h31 : n.prefixlen = 31
    · have hlarge : ¬ n.prefixlen < 31 := by omega
      rw [Network.hostBits, h31] at hb
      rw [if_neg h32, if_pos h31, List.mem_cons, List.mem_singleton, ← BitVec.toNat_inj, ← BitVec.toNat_inj]
      simp only [hlarge, false_implies, and_true]
      omega
    · have hsmall : n.prefixlen < 31 := by
        have := n.le
        omega
      rw [if_neg h32, if_neg h31, List.mem_map]
      simp only [hsmall, true_implies, toNat_ne, List.mem_range'_1]
      constructor
      · rintro ⟨k, hk, rfl⟩
        have hk' : (BitVec.ofNat 32 k).toNat = k := by
          rw [BitVec.toNat_ofNat]
          exact Nat.mod_eq_of_lt (by have := n.broadcast.isLt; omega)
        omega
      · intro hh
        exact ⟨h.toNat, by omega, by rw [BitVec.ofNat_toNat, BitVec.setWidth_eq]⟩

theorem hosts_ascending (n : Network 32) : (hosts n).Pairwise fun a b => a.toNat < b.toNat := by
  rw [hosts]
  split
  · exact List.pairwise_singleton _ _
  · split
    · next h31 =>
      have hb := n.toNat_broadcast
      rw [Network.hostBits, h31] at hb
      simp [hb]
    · rw [List.pairwise_map]
      refine (List.pairwise_lt_range' ..).imp_of_mem fun ha hb hab => ?_
      have hlt := n.broadcast.isLt
      rw [List.mem_range'_1] at ha hb
      rw [BitVec.toNat_ofNat, BitVec.toNat_ofNat, Nat.mod_eq_of_lt (by omega), Nat.mod_eq_of_lt (by omega)]
      exact hab

/-! ## What is allocated -/

/-- The host is the server's own or that of a peer. -/
def Taken (i : Interface 32) (peers : List IPInterface) (h : BitVec 32) : Prop :=
  h = i.ip ∨ ∃ j, IPInterface.v4 j ∈ peers ∧ j.ip = h

/-- The address that is handed out is the lowest usable one that is not taken. -/
structure Lowest (i : Interface 32) (peers : List IPInterface) (h : BitVec 32) : Prop where
  usable : Usable i.network h
  free : ¬ Taken i peers h
  least : ∀ h', Usable i.network h' → ¬ Taken i peers h' → h.toNat ≤ h'.toNat

def noneFree : String := "No free addresses left in this tunnel's subnet"

section search

variable {i : Interface 32} {peers : List IPInterface} {test : BitVec 32 → IPInterface → Bool}
  (hv4 : ∀ h j, test h (.v4 j) = (j.ip == h)) (hv6 : ∀ h j scope, test h (.v6 j scope) = false)

include hv4 hv6

/-- The addresses in use are compared as IPv4 addresses; an IPv6 one is no host's. -/
theorem any_iff_taken {h : BitVec 32} : (IPInterface.v4 i :: peers).any (test h) = true ↔ Taken i peers h := by
  rw [List.any_cons, Bool.or_eq_true, hv4, beq_iff_eq, List.any_eq_true, Taken, eq_comm]
  refine or_congr Iff.rfl ?_
  constructor
  · rintro ⟨u, hu, hf⟩
    cases u with
    | v4 j => exact ⟨j, hu, by simpa [hv4] using hf⟩
    | v6 j scope => exact absurd (hv6 h j scope ▸ hf) Bool.false_ne_true
  · rintro ⟨j, hj, hjh⟩
    exact ⟨_, hj, by simp [hv4, hjh]⟩

theorem free_iff {h : BitVec 32} :
    (!(IPInterface.v4 i :: peers).any (test h)) = true ↔ ¬ Taken i peers h := by
  rw [Bool.not_eq_true', ← Bool.not_eq_true, any_iff_taken hv4 hv6]

theorem lowest_of_found {h : BitVec 32}
    (hfind : (hosts i.network).find? (fun h => !(IPInterface.v4 i :: peers).any (test h)) = some h) :
    Lowest i peers h where
  usable := mem_hosts.mp (List.mem_of_find?_eq_some hfind)
  free := by
    have := List.find?_some hfind
    exact (free_iff hv4 hv6).mp this
  least h' hu hfree :=
    List.lowest_of_find? (hosts_ascending _) hfind h' (mem_hosts.mpr hu) ((free_iff hv4 hv6).mpr hfree)

theorem taken_of_not_found
    (hfind : (hosts i.network).find? (fun h => !(IPInterface.v4 i :: peers).any (test h)) = none) {h : BitVec 32}
    (hu : Usable i.network h) : Taken i peers h := by
  by_contra hfree
  exact List.find?_eq_none.mp hfind h (mem_hosts.mpr hu) ((free_iff hv4 hv6).mpr hfree)

end search

theorem allocatePeerAddress_search {t : TunnelMeta} {i : Interface 32} {peers : List IPInterface}
    (hi : ipInterface t.address = some (.v4 i))
    (hpeers : (t.peers.mapM fun p => ipInterface p.tunnelAddress) = some peers) :
    (∃ h, Lowest i peers h ∧ allocatePeerAddress t = .pure (ipv4Str h ++ ['/', '3', '2'])) ∨
      (∀ h, Usable i.network h → Taken i peers h) ∧ allocatePeerAddress t = httpError 409 noneFree := by
  rw [allocatePeerAddress, hi, hpeers]
  simp only
  split
  · next h hfind => exact .inl ⟨h, lowest_of_found (fun _ _ => rfl) (fun _ _ _ => rfl) hfind, rfl⟩
  · next hfind =>
    exact .inr ⟨fun h hu => taken_of_not_found (fun _ _ => rfl) (fun _ _ _ => rfl) hfind hu, rfl⟩

theorem Lowest.unique {i : Interface 32} {peers : List IPInterface} {h h' : BitVec 32} (hl : Lowest i peers h)
    (hl' : Lowest i peers h') : h = h' := by
  apply BitVec.eq_of_toNat_eq
  exact Nat.le_antisymm (hl.least h' hl'.usable hl'.free) (hl'.least h hl.usable hl.free)

/-! ## Filling a tunnel -/

/-- A peer is recorded with the address that is allocated for it. -/
def recordPeer (t : TunnelMeta) (p : PeerMeta) : Option TunnelMeta :=
  match allocatePeerAddress t with
  | .pure a => some { t with peers := t.peers ++ [{ p with tunnelAddress := a }] }
  | _ => none

def recordPeers : TunnelMeta → List PeerMeta → Option TunnelMeta
  | t, [] => some t
  | t, p :: ps => (recordPeer t p).bind fun t' => recordPeers t' ps

/-- The hosts that can still be handed out. -/
def freeHosts (i : Interface 32) (peers : List IPInterface) : Set (BitVec 32) :=
  {h | Usable i.network h ∧ ¬ Taken i peers h}

noncomputable def room (i : Interface 32) (peers : List IPInterface) : Nat := (freeHosts i peers).ncard

theorem ipInterface_host (h : BitVec 32) :
    ipInterface (ipv4Str h ++ ['/', '3', '2']) = some (.v4 (Interface.host h)) := by
  have hread := ipInterface_str (Interface.host h)
  simp only [IPInterface.str, withPrefix, Interface.host, List.append_assoc] at hread
  exact hread

theorem mapM_append_some {ps : List PeerMeta} {peers : List IPInterface} {p : PeerMeta} {u : IPInterface}
    (hps : (ps.mapM fun p => ipInterface p.tunnelAddress) = some peers) (hp : ipInterface p.tunnelAddress = some u) :
    ((ps ++ [p]).mapM fun p => ipInterface p.tunnelAddress) = some (peers ++ [u]) := by
  rw [List.mapM_append, hps, List.mapM_cons, hp]
  rfl

theorem freeHosts_append (i : Interface 32) (peers : List IPInterface) (h : BitVec 32) :
    freeHosts i (peers ++ [.v4 (Interface.host h)]) = freeHosts i peers \ {h} := by
  ext h'
  simp only [freeHosts, Taken, Set.mem_ofPred_eq, Set.mem_sdiff, Set.mem_singleton_iff, List.mem_append,
    List.mem_singleton, IPInterface.v4.injEq]
  constructor
  · rintro ⟨hu, hfree⟩
    refine ⟨⟨hu, fun ht => hfree (ht.imp_right fun ⟨j, hj, hjh⟩ => ⟨j, .inl hj, hjh⟩)⟩, ?_⟩
    rintro rfl
    exact hfree (.inr ⟨_, .inr rfl, rfl⟩)
  · rintro ⟨⟨hu, hfree⟩, hne⟩
    refine ⟨hu, fun ht => hfree (ht.imp_right ?_)⟩
    rintro ⟨j, hj | rfl, hjh⟩
    · exact ⟨j, hj, hjh⟩
    · exact absurd hjh.symm hne

/-- A peer can be recorded while a usable host is left, and takes one. -/
theorem recordPeers_isSome_iff {t : TunnelMeta} {i : Interface 32} {peers : List IPInterface}
    (hi : ipInterface t.address = some (.v4 i))
    (hpeers : (t.peers.mapM fun p => ipInterface p.tunnelAddress) = some peers) (ps : List PeerMeta) :
    (recordPeers t ps).isSome ↔ ps.length ≤ room i peers := by
  induction ps generalizing t peers with
  | nil => simp [recordPeers]
  | cons p ps ih =>
    rw [recordPeers, recordPeer]
    rcases allocatePeerAddress_search hi hpeers with ⟨h, hlow, ha⟩ | ⟨hfull, ha⟩
    · have hmem : h ∈ freeHosts i peers := ⟨hlow.usable, hlow.free⟩
      have hroom : room i (peers ++ [.v4 (Interface.host h)]) + 1 = room i peers := by
        rw [room, freeHosts_append]
        exact Set.ncard_sdiff_singleton_add_one hmem (Set.toFinite _)
      have hrest : (recordPeers { t with peers := t.peers ++ [{ p with tunnelAddress := ipv4Str h ++ ['/', '3', '2'] }] }
          ps).isSome ↔ ps.length ≤ room i (peers ++ [.v4 (Interface.host h)]) := by
        apply ih
        · exact hi
        · apply mapM_append_some hpeers
          exact ipInterface_host h
      rw [ha, Option.bind_some, hrest, List.length_cons]
      omega
    · have hroom : room i peers = 0 := by
        rw [room, Set.ncard_eq_zero (Set.toFinite _), Set.eq_empty_iff_forall_notMem]
        exact fun h hh => hh.2 (hfull h hh.1)
      rw [ha, hroom]
      simp [httpError]

theorem httpError_ne_pure {a : Text} : (httpError 409 noneFree : Api Text) ≠ .pure a := by
  rw [httpError]
  exact nofun

/-- What allocation does for a tunnel whose address and whose peers' addresses can be read. -/
structure Allocates (t : TunnelMeta) (i : Interface 32) (peers : List IPInterface) : Prop where
  lowest : ∀ a, allocatePeerAddress t = .pure a ↔ ∃ h, Lowest i peers h ∧ a = ipv4Str h ++ ['/', '3', '2']
  full : allocatePeerAddress t = httpError 409 noneFree ↔ ∀ h, Usable i.network h → Taken i peers h
  fills : ∀ ps, (recordPeers t ps).isSome ↔ ps.length ≤ room i peers
  /-- In a full tunnel the address of a peer that is removed is the next one to be handed out. -/
  reuses : ∀ xs p ys j rest, t.peers = xs ++ p :: ys → ipInterface p.tunnelAddress = some (.v4 j) →
    ((xs ++ ys).mapM fun p => ipInterface p.tunnelAddress) = some rest → Usable i.network j.ip →
    ¬ Taken i rest j.ip → (∀ h, Usable i.network h → Taken i peers h) →
    allocatePeerAddress { t with peers := xs ++ ys } = .pure (ipv4Str j.ip ++ ['/', '3', '2'])

/-- A host that was taken and is free without one peer is that peer's. -/
theorem taken_without {i : Interface 32} {peers rest : List IPInterface} {xs ys : List PeerMeta} {p : PeerMeta}
    {j : Interface 32} (hpeers : ((xs ++ p :: ys).mapM fun p => ipInterface p.tunnelAddress) = some peers)
    (hrest : ((xs ++ ys).mapM fun p => ipInterface p.tunnelAddress) = some rest)
    (hj : ipInterface p.tunnelAddress = some (.v4 j)) {h : BitVec 32} (ht : Taken i peers h)
    (hfree : ¬ Taken i rest h) : h = j.ip := by
  rw [List.mapM_append] at hpeers hrest
  obtain ⟨us, hus, hpeers⟩ := Option.bind_eq_some_iff.mp hpeers
  obtain ⟨us', hus', hrest⟩ := Option.bind_eq_some_iff.mp hrest
  obtain rfl : us = us' := Option.some.inj (hus.symm.trans hus')
  obtain ⟨vs, hvs, hrest⟩ := Option.bind_eq_some_iff.mp hrest
  rw [List.mapM_cons, hj] at hpeers
  simp only [Option.bind_eq_bind, Option.bind_some, hvs, Option.pure_def, Option.some.injEq] at hpeers hrest
  subst hpeers hrest
  rcases ht with ht | ⟨k, hk, hkh⟩
  · exact absurd (.inl ht) hfree
  · rcases List.mem_append.mp hk with hk | hk
    · exact absurd (.inr ⟨k, List.mem_append_left _ hk, hkh⟩) hfree
    · rcases List.mem_cons.mp hk with hk | hk
      · rw [← hkh, IPInterface.v4.inj hk]
      · exact absurd (.inr ⟨k, List.mem_append_right _ hk, hkh⟩) hfree

theorem allocates_lowest_free {t : TunnelMeta} {i : Interface 32} {peers : List IPInterface}
    (hi : ipInterface t.address = some (.v4 i))
    (hpeers : (t.peers.mapM fun p => ipInterface p.tunnelAddress) = some peers) : Allocates t i peers where
  lowest a := by
    rcases allocatePeerAddress_search hi hpeers with ⟨h, hlow, ha⟩ | ⟨hfull, ha⟩
    · rw [ha, Prog.pure.injEq]
      constructor
      · rintro rfl
        exact ⟨h, hlow, rfl⟩
      · rintro ⟨h', hlow', rfl⟩
        rw [hlow.unique hlow']
    · rw [ha]
      refine iff_of_false httpError_ne_pure ?_
      rintro ⟨h, hlow, -⟩
      exact hlow.free (hfull h hlow.usable)
  full := by
    rcases allocatePeerAddress_search hi hpeers with ⟨h, hlow, ha⟩ | ⟨hfull, ha⟩
    · rw [ha]
      exact iff_of_false httpError_ne_pure.symm fun hall => hlow.free (hall h hlow.usable)
    · exact iff_of_true ha hfull
  fills := recordPeers_isSome_iff hi hpeers
  reuses := by
    intro xs p ys j rest ht hj hrest hu hfree hfull
    rcases allocatePeerAddress_search (t := { t with peers := xs ++ ys }) hi hrest with ⟨h, hlow, ha⟩ | ⟨hnone, -⟩
    · rw [ht] at hpeers
      rw [ha, taken_without hpeers hrest hj (hfull h hlow.usable) hlow.free]
    · exact absurd (hnone j.ip hu) hfree

/-- Two hosts, the server and one peer: the tunnel is full. -/
def smallTunnel : TunnelMeta where
  address := "10.6.0.1/30".toList
  endpoint := none
  listenPort := 51820
  peers := [⟨"id", "laptop", "10.6.0.2/32".toList, [], [], none⟩]

theorem smallTunnel_allocates :
    Allocates smallTunnel ⟨0x0a060001#32, 30, by decide⟩ [.v4 (Interface.host 0x0a060002#32)] :=
  allocates_lowest_free (by decide +kernel) (by decide +kernel)

end App
