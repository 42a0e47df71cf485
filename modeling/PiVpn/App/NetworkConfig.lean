import PiVpn.App.Commands

/-! The configuration of an interface: which bodies are accepted, what is passed on to
`nmcli`, and what a failed request leaves in the stored profile. -/

namespace Commands
open Text Cidr Ipaddress Effect Helper App

/-! ## Reading the body -/

/-- `IPv4Interface(x)` of a decoded value. -/
def readIpv4Interface : Json → Option (Interface 32)
  | .str s => ipv4Interface s.toList
  | .int n => if 0 ≤ n ∧ n < 2 ^ 32 then some (Interface.host (BitVec.ofInt 32 n)) else none
  | .bool b => some (Interface.host (if b then 1 else 0))
  | _ => none

/-- `IPv4Address(x)`. -/
def readIpv4Address : Json → Option (BitVec 32)
  | .str s => ipv4OfString s.toList
  | .int n => if 0 ≤ n ∧ n < 2 ^ 32 then some (BitVec.ofInt 32 n) else none
  | .bool b => some (if b then 1 else 0)
  | _ => none

def readDns : Json → Option (List (BitVec 32))
  | .arr xs => xs.mapM readIpv4Address
  | _ => none

def readMethod : Json → Option InterfaceMethod
  | .str s => if s = "dhcp" then some .dhcp else if s = "static" then some .static else none
  | _ => none

instance (p : Char → Bool) (lo hi : Nat) (s : String) : Decidable (FullMatch p lo hi s) := by
  unfold FullMatch
  infer_instance

def readIfaceName : Json → Option { s : String // FullMatch isIfaceChar 1 15 s }
  | .str s => if h : FullMatch isIfaceChar 1 15 s then some ⟨s, h⟩ else none
  | _ => none

/-- A field of the type `Optional[..] = None`, as the body has it. -/
def readOptional {α : Type} (read : Json → Option α) : Option Json → Option (Option α)
  | none => some none
  | some .null => some none
  | some x => (read x).map some

/-- `address_required_for_static`, which runs only where the body has the field. -/
def addressAllowed (supplied : Bool) (method : InterfaceMethod) (address : Option (Interface 32)) : Bool :=
  !(supplied && method = .static && address = none)

def readNetworkConfig : Json → Option NetworkConfigRequest
  | .obj fields => do
    let interface ← fields.lookup "interface" >>= readIfaceName
    let method ← fields.lookup "method" >>= readMethod
    let address ← readOptional readIpv4Interface (fields.lookup "address")
    if addressAllowed (fields.lookup "address").isSome method address then
      let gateway ← readOptional readIpv4Address (fields.lookup "gateway")
      let dns ← readOptional readDns (fields.lookup "dns")
      pure ⟨interface.1, method, address, gateway, dns, interface.2⟩
    else none
  | _ => none

/-! ## What reaches `nmcli` -/

/-- The values given for `ipv4.addresses`. -/
def addressValues : Argv → List String
  | a :: b :: rest => if a = "ipv4.addresses" then b :: addressValues (b :: rest) else addressValues (b :: rest)
  | _ => []

def IsAddressText (v : String) : Prop := ∃ i : Interface 32, v = String.ofList (IPInterface.v4 i).str

/-- Whatever the task runs has addresses for addresses. -/
def PassesAddresses : Ask → Prop
  | .run argv => ∀ v ∈ addressValues argv, IsAddressText v
  | _ => True

/-- The method is static and the body has no address field. -/
def OmitsAddress (body : Json) : Prop :=
  ∃ fields, body = .obj fields ∧ fields.lookup "method" = some (.str "static") ∧ fields.lookup "address" = none

theorem readOptional_none {α : Type} {read : Json → Option α} {x : Option Json}
    (h : readOptional read x = some none) : x = none ∨ x = some .null := by
  rcases x with _ | x
  · exact .inl rfl
  · cases x <;> simp_all [readOptional]

theorem readMethod_static {x : Json} (h : readMethod x = some .static) : x = .str "static" := by
  cases x with
  | str s =>
    rw [readMethod] at h
    split at h
    · cases h
    · split at h
      · next hs => rw [hs]
      · cases h
  | null => cases h
  | bool b => cases h
  | int n => cases h
  | float r => cases h
  | arr xs => cases h
  | obj fs => cases h

/-- What an accepted body says of method and address. -/
theorem readNetworkConfig_eq {body : Json} {r : NetworkConfigRequest} (h : readNetworkConfig body = some r) :
    ∃ fields, body = .obj fields ∧ (fields.lookup "method" >>= readMethod) = some r.method ∧
      readOptional readIpv4Interface (fields.lookup "address") = some r.address ∧
      addressAllowed (fields.lookup "address").isSome r.method r.address = true := by
  cases body with
  | obj fields =>
    rw [readNetworkConfig] at h
    obtain ⟨interface, hi, h⟩ := Option.bind_eq_some_iff.mp h
    obtain ⟨method, hm, h⟩ := Option.bind_eq_some_iff.mp h
    obtain ⟨address, ha, h⟩ := Option.bind_eq_some_iff.mp h
    split at h
    · next hallowed =>
      obtain ⟨gateway, hg, h⟩ := Option.bind_eq_some_iff.mp h
      obtain ⟨dns, hd, h⟩ := Option.bind_eq_some_iff.mp h
      obtain rfl := Option.some.inj h
      exact ⟨fields, rfl, hm, ha, hallowed⟩
    · cases h
  | null => cases h
  | bool b => cases h
  | int n => cases h
  | float s => cases h
  | str s => cases h
  | arr xs => cases h

/-- Only the omitted field slips through the validator. -/
theorem address_missing_iff {body : Json} {r : NetworkConfigRequest} (h : readNetworkConfig body = some r) :
    r.method = .static ∧ r.address = none ↔ OmitsAddress body := by
  obtain ⟨fields, rfl, hm, ha, hallowed⟩ := readNetworkConfig_eq h
  obtain ⟨x, hx, hread⟩ := Option.bind_eq_some_iff.mp hm
  constructor
  · rintro ⟨hstatic, hnone⟩
    rw [hstatic] at hread
    refine ⟨fields, rfl, by rw [hx, readMethod_static hread], ?_⟩
    rcases readOptional_none (hnone ▸ ha) with hf | hf
    · exact hf
    · rw [hf, hstatic, hnone] at hallowed
      cases hallowed
  · rintro ⟨fields', hfields, hstatic, hnone⟩
    obtain rfl := Json.obj.inj hfields
    rw [hx] at hstatic
    rw [Option.some.inj hstatic] at hread
    rw [hnone] at ha
    exact ⟨(Option.some.inj hread).symm, (Option.some.inj ha).symm⟩

theorem connName_ne (interface : String) : connName interface ≠ "ipv4.addresses" := by
  intro h
  have hhead := congrArg (fun s : String => s.toList.head?) h
  have hp : (connName interface).toList.head? = some 'p' := by
    rw [connName, String.toList_append]
    rfl
  have hi : "ipv4.addresses".toList.head? = some 'i' := rfl
  rw [hp, hi] at hhead
  exact absurd hhead (by decide)

theorem addressValues_manual (interface v : String) :
    addressValues ["nmcli", "con", "mod", connName interface, "ipv4.method", "manual", "ipv4.addresses", v] = [v] := by
  have hconn := connName_ne interface
  simp [addressValues, hconn]

theorem none_is_no_address : ¬ IsAddressText "None" := by
  rintro ⟨i, hi⟩
  have hread := ipInterface_str i
  have hnone : ipInterface "None".toList = none := by decide +kernel
  rw [hi, String.toList_ofList, hread] at hnone
  cases hnone

theorem only_logCall (r : LogRecord) : Prog.Only PassesAddresses (logCall r) := by
  rw [logCall]
  split
  · trivial
  · exact ⟨trivial, fun _ => trivial⟩

theorem only_runNmcli {args : Argv} (h : ∀ v ∈ addressValues ("nmcli" :: args), IsAddressText v) :
    Prog.Only PassesAddresses (runNmcli args) := by
  have hask : Prog.Only PassesAddresses (perform (.run ("nmcli" :: args))) := ⟨h, fun _ => trivial⟩
  have hsubprocess : Prog.Only PassesAddresses (subprocess ("nmcli" :: args)) := by
    unfold subprocess
    split
    · trivial
    · exact hask.bind fun result => by cases result <;> trivial
  refine hsubprocess.bind fun result => ?_
  split
  · exact (only_logCall _).bind fun _ => trivial
  · trivial

theorem configureInterface_passes {payload : NetworkConfigRequest} (user : User)
    (h : payload.method = .static → payload.address.isSome = true) :
    Prog.Only PassesAddresses (configureInterface payload user) := by
  have hconn := connName_ne payload.interface
  -- the modifications of gateway and dns, and the activation, name no address
  have hother : ∀ args : Argv, addressValues ("nmcli" :: args) = [] → Prog.Only PassesAddresses (runNmcli args) :=
    fun args hargs => only_runNmcli (by simp [hargs])
  have hlast : Prog.Only PassesAddresses (do
      let _ ← runNmcli ["con", "up", connName payload.interface]
      logCall (infoLog "interface_configured" "network.configure" user
        [("interface", .str payload.interface), ("method", .str payload.method.value)])
      pure (.obj [("status", .str "ok")]) : Task Json) := by
    refine (hother _ (by simp [addressValues])).bind fun _ => ?_
    exact (only_logCall _).bind fun _ => trivial
  have hask : Prog.Only PassesAddresses (perform .interfaces) := ⟨trivial, fun _ => trivial⟩
  refine hask.bind fun interfaces => ?_
  by_cases hunknown : (!interfaces.contains payload.interface) = true
  · rw [if_pos hunknown]
    trivial
  · rw [if_neg hunknown]
    cases hm : payload.method with
    | dhcp =>
      rw [hm] at hlast
      exact (hother _ (by simp [addressValues, hconn])).bind fun _ => hlast
    | static =>
      rw [hm] at hlast
      obtain ⟨i, hi⟩ := Option.isSome_iff_exists.mp (h hm)
      have haddr : Prog.Only PassesAddresses (runNmcli ["con", "mod", connName payload.interface, "ipv4.method",
          "manual", "ipv4.addresses", addressArg payload.address]) := by
        apply only_runNmcli
        rw [addressValues_manual, hi]
        intro v hv
        obtain rfl := List.mem_singleton.mp hv
        exact ⟨i, rfl⟩
      refine haddr.bind fun _ => ?_
      cases payload.gateway with
      | none =>
        rcases payload.dns with _ | _ | ⟨d, ds⟩
        · exact hlast
        · exact hlast
        · exact (hother _ (by simp [addressValues, hconn])).bind fun _ => hlast
      | some g =>
        refine (hother _ (by simp [addressValues, hconn])).bind fun _ => ?_
        rcases payload.dns with _ | _ | ⟨d, ds⟩
        · exact hlast
        · exact hlast
        · exact (hother _ (by simp [addressValues, hconn])).bind fun _ => hlast

theorem connName_no_nul (payload : NetworkConfigRequest) :
    (connName payload.interface).toList.contains (Char.ofNat 0) = false := by
  have hiface : Char.ofNat 0 ∉ payload.interface.toList := fun hmem =>
    absurd (List.all_eq_true.mp payload.interfaceOk.2.2 _ hmem) (by decide)
  rw [connName, String.toList_append, Bool.eq_false_iff, ne_eq, List.contains_iff_mem, List.mem_append]
  rintro (hmem | hmem)
  · exact absurd hmem (by decide +kernel)
  · exact hiface hmem

/-- A static method without an address is passed on as the word None. -/
theorem configureInterface_passes_none {payload : NetworkConfigRequest} (user : User)
    (hstatic : payload.method = .static) (hnone : payload.address = none) :
    ¬ Prog.Only PassesAddresses (configureInterface payload user) := by
  intro h
  have hcmd := h.2 [payload.interface]
  dsimp only [Prog.bind] at hcmd
  rw [if_neg (by simp), hstatic, hnone] at hcmd
  have hnul : hasNul ["nmcli", "con", "mod", connName payload.interface, "ipv4.method", "manual",
      "ipv4.addresses", addressArg none] = false := by
    simp only [hasNul, List.any_cons, connName_no_nul, Bool.false_or]
    decide +kernel
  dsimp only [runNmcli, runProgram, subprocess] at hcmd
  rw [hnul] at hcmd
  have hargs : PassesAddresses (.run ["nmcli", "con", "mod", connName payload.interface, "ipv4.method", "manual",
      "ipv4.addresses", "None"]) := hcmd.1
  apply none_is_no_address
  apply hargs
  simp [addressValues, connName_ne]

/-- An accepted body has an address for a static interface, and all that reaches `nmcli` as an
address is one, exactly when it does not leave the address out of a static body. -/
theorem static_has_address_iff {body : Json} {r : NetworkConfigRequest} (h : readNetworkConfig body = some r)
    (user : User) :
    (r.method = .static → r.address.isSome = true) ∧ Prog.Only PassesAddresses (configureInterface r user) ↔
      ¬ OmitsAddress body := by
  rw [← address_missing_iff h]
  constructor
  · rintro ⟨haddress, -⟩ ⟨hstatic, hnone⟩
    have := haddress hstatic
    rw [hnone] at this
    cases this
  · intro hpresent
    have haddress : r.method = .static → r.address.isSome = true := by
      intro hstatic
      rw [Option.isSome_iff_ne_none]
      exact fun hnone => hpresent ⟨hstatic, hnone⟩
    exact ⟨haddress, configureInterface_passes user haddress⟩

/-- A static interface, with what the body gives for its address. -/
def staticBody (address : List (String × Json)) : Json :=
  .obj ([("interface", .str "eth0"), ("method", .str "static")] ++ address)

theorem eth0_ok : FullMatch isIfaceChar 1 15 "eth0" := by decide +kernel

def eth0Request (address : Option (Interface 32)) : NetworkConfigRequest where
  interface := "eth0"
  method := .static
  address := address
  gateway := none
  dns := none
  interfaceOk := eth0_ok

theorem address_given : Prog.Only PassesAddresses
    (configureInterface (eth0Request (some ⟨0xc0a80105#32, 24, by decide⟩)) none) := by
  have hbody : readNetworkConfig (staticBody [("address", .str "192.168.1.5/24")]) =
      some (eth0Request (some ⟨0xc0a80105#32, 24, by decide⟩)) := by rfl
  refine ((static_has_address_iff hbody none).mpr ?_).2
  rintro ⟨fields, hfields, -, haddress⟩
  obtain rfl := Json.obj.inj hfields
  cases haddress

/-- The address may be left out of a static body, and None reaches `nmcli`. -/
theorem address_left_out : readNetworkConfig (staticBody []) = some (eth0Request none) ∧
    ¬ ((eth0Request none).method = .static → (eth0Request none).address.isSome = true) ∧
    ¬ Prog.Only PassesAddresses (configureInterface (eth0Request none) none) :=
  ⟨rfl, fun h => Bool.false_ne_true (h rfl), configureInterface_passes_none none rfl rfl⟩

end Commands
