import PiVpn.App.NetworkConfig
import PiVpn.Lib.Dict

/-! The list of routes, the buttons made of it, and what a button asks the kernel. -/

namespace Routing
open Text Cidr Ipaddress Helper App Commands

/-- `_DEFAULT_TABLE`. -/
def defaultTable : Nat := 254

/-! ## The kernel -/

/-- A route of the main table. The default route may come without a destination, and a
route need not name a device. -/
structure Route where
  dst : Option (BitVec 32)
  dstLen : Nat
  gateway : Option (BitVec 32)
  oif : Option Nat
  priority : Option Nat
  le : dstLen ≤ 32
  masked : dst.getD 0 &&& mask 32 dstLen = dst.getD 0
  default : dst = none → dstLen = 0

def Route.destination (r : Route) : Network 32 := ⟨r.dst.getD 0, r.dstLen, r.le, r.masked⟩

structure Link where
  index : Nat
  name : Text

structure Kernel where
  links : List Link
  routes : List Route
  /-- The interfaces that have an address of some kind. -/
  addressed : List Text
  indices : (links.map Link.index).Nodup
  names : (links.map Link.name).Nodup

/-- What `_del_route_sync` puts to the kernel. -/
structure DelRoute where
  dst : Text
  dstLen : Nat
  oif : Nat
  table : Nat
  deriving DecidableEq

/-- Neither gateway nor metric are compared where a request has none. -/
def DelRoute.Matches (q : DelRoute) (r : Route) : Prop :=
  q.dst = ipv4Str r.destination.address ∧ q.dstLen = r.dstLen ∧ r.oif = some q.oif ∧ q.table = defaultTable

/-! ## The list -/

structure Row where
  destination : Text
  dstLen : Option Nat
  gateway : Option Text
  interface : Option Text
  table : Nat

def Kernel.nameOf (k : Kernel) (index : Nat) : Option Text := (k.links.find? (·.index = index)).map Link.name

def Kernel.row (k : Kernel) (r : Route) : Row where
  destination := (r.dst.map ipv4Str).getD "default".toList
  dstLen := r.dstLen
  gateway := r.gateway.map ipv4Str
  interface := r.oif.bind k.nameOf
  table := defaultTable

/-- `_list_routes_sync` of the main table. -/
def Kernel.listRoutes (k : Kernel) : List Row := k.routes.map k.row

/-! ## The page -/

/-- `dest` of `loadRoutes`. -/
def Row.dest (r : Row) : Text :=
  match r.dstLen with
  | some n => r.destination ++ '/' :: decimal n
  | none => "default".toList

def isPlain (c : Char) : Bool := c ∉ ['"', '&', '<', '>', '\r', '\x00']

/-- What is read back from the two attributes of a button. -/
structure Page where
  dataset : Text → Text → Text × Text
  plain : ∀ dest iface, dest.all isPlain = true → iface.all isPlain = true → dataset dest iface = (dest, iface)

/-- The body a row's button sends: its destination and interface. -/
def Page.body (p : Page) (r : Row) : Text × Text := p.dataset r.dest (r.interface.getD [])

/-! ## The request -/

structure RouteDeleteRequest where
  destination : Network 32
  interface : Text
  table : Option Nat
  interfaceOk : FullMatch isIfaceChar 1 15 (String.ofList interface)
  tableOk : table.all (fun t => 1 ≤ t ∧ t ≤ 252) = true

/-- `IPv4Network(s)`: no bit may be set beyond the prefix. -/
def ipv4Network (s : Text) : Option (Network 32) := do
  let i ← ipv4Interface s
  if hasHostBits i then none else pure i.network

def readRouteDelete (destination interface : Text) (table : Option Nat) : Option RouteDeleteRequest := do
  let network ← ipv4Network destination
  if h : FullMatch isIfaceChar 1 15 (String.ofList interface) ∧
      table.all (fun t => 1 ≤ t ∧ t ≤ 252) = true then
    pure ⟨network, interface, table, h.1, h.2⟩
  else none

/-- What was put to the kernel, if anything, and the answer to the page. -/
structure Outcome where
  asked : Option DelRoute
  answer : Except (Nat × String) Unit

/-- `_iface_index`. -/
def Kernel.ifaceIndex (k : Kernel) (interface : Text) : Option Nat :=
  (k.links.find? (·.name = interface)).map Link.index

/-- `delete_route`, given whether the kernel does as it is asked. -/
def deleteRoute (k : Kernel) (obeys : DelRoute → Bool) (payload : RouteDeleteRequest) : Outcome :=
  if payload.interface ∉ k.addressed then ⟨none, .error (404, "Unknown interface")⟩
  else match k.ifaceIndex payload.interface with
    | none => ⟨none, .error (404, "Unknown interface")⟩
    | some idx =>
      let q : DelRoute := ⟨ipv4Str payload.destination.address, payload.destination.prefixlen, idx,
        payload.table.getD defaultTable⟩
      ⟨some q, if obeys q then .ok () else .error (400, "Route could not be removed")⟩

/-- The delete button of a row asks for the row's route, and no other matches what it asks. -/
def RemovesOnly (p : Page) (k : Kernel) (obeys : DelRoute → Bool) (n : Fin k.routes.length) : Prop :=
  let body := p.body (k.row (k.routes.get n))
  ∃ payload q, readRouteDelete body.1 body.2 none = some payload ∧
    (deleteRoute k obeys payload).asked = some q ∧ q.Matches (k.routes.get n) ∧
    ∀ m, m ≠ n → ¬ q.Matches (k.routes.get m)

/-! ## What a row's button sends -/

theorem ipv4Str_injective : Function.Injective ipv4Str := by
  intro a b h
  have hread := congrArg ipv4OfString h
  rw [ipv4OfString_ipv4Str, ipv4OfString_ipv4Str] at hread
  exact Option.some.inj hread

theorem isPlain_of_iface {iface : Text} (h : FullMatch isIfaceChar 1 15 (String.ofList iface)) :
    iface.all isPlain = true := by
  have hall := List.all_eq_true.mp h.2.2
  rw [String.toList_ofList] at hall
  refine List.all_eq_true.mpr fun c hc => decide_eq_true fun hmem => ?_
  -- none of the six is a character of an interface name
  have hnot : ['"', '&', '<', '>', '\r', '\x00'].all (fun c => !isIfaceChar c) = true := by decide
  have hc' := List.all_eq_true.mp hnot c hmem
  rw [hall c hc] at hc'
  exact Bool.false_ne_true hc'

theorem isPlain_dest (k : Kernel) (r : Route) : (k.row r).dest.all isPlain = true := by
  have haddress : addressChars.all isPlain = true := by decide
  have hdigits : (decimal r.dstLen).all isPlain = true := by
    have hall : ∀ n ≤ 32, (decimal n).all isPlain = true := by decide +kernel
    exact hall _ r.le
  change (_ ++ '/' :: decimal r.dstLen).all isPlain = true
  rw [List.all_append, List.all_cons, hdigits]
  cases hdst : r.dst with
  | none => simp only [Kernel.row, hdst]; decide +kernel
  | some a =>
    have hall : (ipv4Str a).all isPlain = true :=
      List.all_eq_true.mpr fun c hc => List.all_eq_true.mp haddress c (mem_ipv4Str hc)
    simp only [Kernel.row, hdst, Option.map_some, Option.getD_some, hall]
    decide

theorem ipv4Network_str (n : Network 32) :
    ipv4Network (ipv4Str n.address ++ '/' :: decimal n.prefixlen) = some n := by
  have hread := ipv4Interface_str n.address (not_mem_decimal (n := n.prefixlen) (c := '/') (by decide))
    (makeNetmask4_decimal n.le) n.le
  have hbits : hasHostBits (⟨n.address, n.prefixlen, n.le⟩ : Interface 32) = false := by
    simp [hasHostBits, n.masked]
  simp only [ipv4Network, hread, Option.bind_eq_bind, Option.bind_some, hbits, Bool.false_eq_true, if_false,
    Option.pure_def, Interface.network, n.masked]

theorem ipv4Network_of_address {s a : Text} {m : Option Text} (hsplit : splitPrefix s = some (a, m))
    (haddress : ipv4OfString a = none) : ipv4Network s = none := by
  simp only [ipv4Network, ipv4Interface, hsplit, Option.bind_eq_bind, Option.bind_some, haddress, Option.bind_none]

theorem ipv4Network_default (n : Nat) : ipv4Network ("default".toList ++ '/' :: decimal n) = none :=
  ipv4Network_of_address (splitPrefix_append (by decide +kernel) (not_mem_decimal (by decide))) (by decide +kernel)

theorem ipv4Network_dest (k : Kernel) (r : Route) :
    ipv4Network (k.row r).dest = if r.dst.isSome then some r.destination else none := by
  change ipv4Network ((r.dst.map ipv4Str).getD "default".toList ++ '/' :: decimal r.dstLen) = _
  cases hdst : r.dst with
  | none => exact ipv4Network_default r.dstLen
  | some a =>
    have haddress : r.destination.address = a := congrArg (Option.getD · 0) hdst
    rw [← haddress]
    exact ipv4Network_str r.destination

/-! ## Devices and names -/

variable {k : Kernel}

theorem Kernel.nameOf_eq_some_iff {index : Nat} {name : Text} :
    k.nameOf index = some name ↔ ∃ l ∈ k.links, l.index = index ∧ l.name = name := by
  rw [nameOf, Option.map_eq_some_iff]
  simp only [Dict.find?_key_iff k.indices, and_assoc]

theorem Kernel.ifaceIndex_eq_some_iff {index : Nat} {name : Text} :
    k.ifaceIndex name = some index ↔ ∃ l ∈ k.links, l.name = name ∧ l.index = index := by
  rw [ifaceIndex, Option.map_eq_some_iff]
  simp only [Dict.find?_key_iff k.names, and_assoc]

theorem deleteRoute_asked_iff {obeys : DelRoute → Bool} {payload : RouteDeleteRequest} {q : DelRoute} :
    (deleteRoute k obeys payload).asked = some q ↔ payload.interface ∈ k.addressed ∧
      ∃ l ∈ k.links, l.name = payload.interface ∧ q = ⟨ipv4Str payload.destination.address,
        payload.destination.prefixlen, l.index, payload.table.getD defaultTable⟩ := by
  rw [deleteRoute]
  by_cases hiface : payload.interface ∈ k.addressed
  · rw [if_neg (not_not.mpr hiface)]
    cases hidx : k.ifaceIndex payload.interface with
    | none =>
      refine iff_of_false nofun ?_
      rintro ⟨-, l, hl, hname, -⟩
      have hfound := Kernel.ifaceIndex_eq_some_iff.mpr ⟨l, hl, hname, rfl⟩
      rw [hidx] at hfound
      exact nomatch hfound
    | some idx =>
      obtain ⟨l, hl, hname, rfl⟩ := Kernel.ifaceIndex_eq_some_iff.mp hidx
      constructor
      · rintro ⟨⟩
        exact ⟨hiface, l, hl, hname, rfl⟩
      · rintro ⟨-, l', hl', hname', rfl⟩
        rw [List.inj_on_of_nodup_map k.names hl' hl (hname'.trans hname.symm)]
  · rw [if_pos hiface]
    exact iff_of_false nofun fun h => hiface h.1

theorem readRouteDelete_iff {destination interface : Text} {payload : RouteDeleteRequest} :
    readRouteDelete destination interface none = some payload ↔
      ipv4Network destination = some payload.destination ∧ interface = payload.interface ∧
        payload.table = none := by
  rw [readRouteDelete]
  cases hnet : ipv4Network destination with
  | none => simp
  | some network =>
    simp only [Option.bind_eq_bind, Option.bind_some]
    split
    · next h =>
      constructor
      · rintro ⟨⟩
        exact ⟨rfl, rfl, rfl⟩
      · rintro ⟨hdest, rfl, htable⟩
        obtain ⟨_, _, _, _, _⟩ := payload
        obtain rfl := Option.some.inj hdest
        obtain rfl := htable
        rfl
    · next h =>
      refine iff_of_false nofun ?_
      rintro ⟨-, rfl, -⟩
      exact h ⟨payload.interfaceOk, rfl⟩

/-! ## The round trip -/

/-- The device of a route, where a request can name it. -/
def Kernel.Names (k : Kernel) (r : Route) : Prop :=
  ∃ l ∈ k.links, r.oif = some l.index ∧ FullMatch isIfaceChar 1 15 (String.ofList l.name) ∧ l.name ∈ k.addressed

/-- Same destination, same device: gateway and metric may differ. -/
def Route.Alike (r r' : Route) : Prop := r'.destination = r.destination ∧ r'.oif = r.oif

/-- The page sends back what the list had, where the name of the device is an ordinary one. -/
theorem body_of_link (p : Page) {r : Route} {l : Link} (hl : l ∈ k.links) (hoif : r.oif = some l.index)
    (hname : FullMatch isIfaceChar 1 15 (String.ofList l.name)) :
    p.body (k.row r) = ((k.row r).dest, l.name) := by
  have hrow : (k.row r).interface.getD [] = l.name := by
    change (r.oif.bind k.nameOf).getD [] = l.name
    rw [hoif, Option.bind_some, Kernel.nameOf_eq_some_iff.mpr ⟨l, hl, rfl, rfl⟩, Option.getD_some]
  rw [Page.body, hrow]
  exact p.plain _ _ (isPlain_dest k r) (isPlain_of_iface hname)

theorem matches_iff {r r' : Route} {l : Link} (hl : r.oif = some l.index) :
    (⟨ipv4Str r.destination.address, r.destination.prefixlen, l.index, defaultTable⟩ : DelRoute).Matches r' ↔
      r.Alike r' := by
  rw [DelRoute.Matches, Route.Alike, hl, Network.mk.injEq]
  constructor
  · rintro ⟨hdst, hlen, hoif, -⟩
    exact ⟨⟨(ipv4Str_injective hdst).symm, hlen.symm⟩, hoif⟩
  · rintro ⟨⟨hdst, hlen⟩, hoif⟩
    exact ⟨congrArg ipv4Str hdst.symm, hlen.symm, hoif, rfl⟩

/-- A row can be removed, and it alone, where its route has a destination, a device the request
can name, and no other route goes to the same destination over the same device. -/
theorem removesOnly_iff (p : Page) (k : Kernel) (obeys : DelRoute → Bool) (n : Fin k.routes.length) :
    RemovesOnly p k obeys n ↔ (k.routes.get n).dst.isSome ∧ k.Names (k.routes.get n) ∧
      ∀ m, m ≠ n → ¬ (k.routes.get n).Alike (k.routes.get m) := by
  set r := k.routes.get n with hr
  constructor
  · rintro ⟨payload, q, hread, hasked, hmatch, hother⟩
    rw [← hr] at hread hmatch
    obtain ⟨hnet, hiface, htable⟩ := readRouteDelete_iff.mp hread
    obtain ⟨hadd, l, hl, hname, rfl⟩ := deleteRoute_asked_iff.mp hasked
    -- the device asked for is the route's, so the name sent is its name
    have hoif : r.oif = some l.index := hmatch.2.2.1
    have hfull : FullMatch isIfaceChar 1 15 (String.ofList l.name) := hname ▸ payload.interfaceOk
    rw [body_of_link p hl hoif hfull, ipv4Network_dest] at hnet
    have hdst : r.dst.isSome = true := by
      by_contra hnone
      rw [if_neg hnone] at hnet
      exact nomatch hnet
    rw [if_pos hdst] at hnet
    rw [htable, ← Option.some.inj hnet] at hother
    exact ⟨hdst, ⟨l, hl, hoif, hfull, hname ▸ hadd⟩, fun m hm => (matches_iff hoif).not.mp (hother m hm)⟩
  · rintro ⟨hdst, ⟨l, hl, hoif, hfull, hadd⟩, hother⟩
    let payload : RouteDeleteRequest := ⟨r.destination, l.name, none, hfull, rfl⟩
    have hnet : ipv4Network (k.row r).dest = some r.destination := by rw [ipv4Network_dest, if_pos hdst]
    refine ⟨payload, _, ?_, deleteRoute_asked_iff.mpr ⟨hadd, l, hl, rfl, rfl⟩, ?_, fun m hm => ?_⟩
    · rw [← hr, body_of_link p hl hoif hfull]
      exact readRouteDelete_iff.mpr ⟨hnet, rfl, rfl⟩
    · exact (matches_iff hoif).mpr ⟨rfl, rfl⟩
    · exact (matches_iff hoif).not.mpr (hother m hm)

/-- A device behind a router. -/
def homeKernel : Kernel where
  links := [⟨2, "eth0".toList⟩]
  routes := [⟨none, 0, some 0xc0a80001#32, some 2, none, by decide, by decide, fun _ => rfl⟩]
  addressed := ["eth0".toList]
  indices := by decide
  names := List.nodup_singleton _

/-- The default route is listed as `default/0`, which no request accepts. -/
theorem default_route_stays : ¬ ∀ (p : Page) (k : Kernel) (obeys : DelRoute → Bool) (n : Fin k.routes.length),
    RemovesOnly p k obeys n := by
  intro hall
  obtain ⟨payload, q, hread, -⟩ := hall ⟨fun dest iface => (dest, iface), fun _ _ _ _ => rfl⟩ homeKernel
    (fun _ => true) ⟨0, by decide⟩
  have hrejected : readRouteDelete "default/0".toList "eth0".toList none = none := by decide +kernel
  exact nomatch hrejected.symm.trans hread

end Routing
