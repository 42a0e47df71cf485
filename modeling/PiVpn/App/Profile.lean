import PiVpn.App.NetworkConfig

/-! What a request to configure an interface leaves in the stored connection profile: each
modification is kept as soon as its `nmcli` call has succeeded, and none is taken back. -/

namespace Commands
open Text Cidr Ipaddress Effect Helper App

/-! ## The stored profile -/

structure Profile where
  method : String
  addresses : String
  gateway : String
  dns : String
  deriving DecidableEq

def Profile.set (p : Profile) (prop value : String) : Profile :=
  if prop = "ipv4.method" then { p with method := value }
  else if prop = "ipv4.addresses" then { p with addresses := value }
  else if prop = "ipv4.gateway" then { p with gateway := value }
  else if prop = "ipv4.dns" then { p with dns := value }
  else p

def Profile.setAll (p : Profile) : List String → Profile
  | prop :: value :: rest => (p.set prop value).setAll rest
  | _ => p

/-- The modification of the profile of `conn` that a command asks for; only `nmcli con mod` asks
for one. -/
def modify (conn : String) (p : Profile) (argv : Argv) : Profile :=
  if argv.take 4 = ["nmcli", "con", "mod", conn] then p.setAll (argv.drop 4) else p

/-- What the commands that have run make of the stored profile. -/
abbrev Store := Argv → Exit → Profile → Profile

/-- `nmcli con mod` stores the properties it names when it exits with 0 and none when it fails;
an activation stores nothing. -/
structure Store.Modifies (store : Store) (conn : String) : Prop where
  modified : ∀ settings x p, x.returncode = 0 →
    store (["nmcli", "con", "mod", conn] ++ settings) x p = p.setAll settings
  failed : ∀ settings x p, x.returncode ≠ 0 → store (["nmcli", "con", "mod", conn] ++ settings) x p = p
  activated : ∀ x p, store ["nmcli", "con", "up", conn] x p = p

/-- The device, with the profile of one connection. -/
structure Device where
  host : HostState
  profile : Profile

def deviceHandler (store : Store) (env : HostEnv) : Prog.Handler Host Device
  | .run argv, d =>
    let exit := env.exits d.host.ran.length argv
    (exit, { host := { d.host with ran := d.host.ran ++ exit.toList }
             profile := (exit.map fun x => store argv x d.profile).getD d.profile })
  | .interfaces, d => (env.interfaces, d)
  | .log r, d => ((), { d with host := { d.host with log := d.host.log ++ [r] } })

/-- A request against the profile of its interface. -/
def configure (store : Store) (env : HostEnv) (payload : NetworkConfigRequest) (user : User) (d : Device) :
    Except Failure Json × Device :=
  (configureInterface payload user).exec (deviceHandler store env) d

/-! ## Commands up to the first that fails -/

/-- The commands before the first that is not started or does not exit with 0, the first one
being the `n`-th subprocess. -/
def succeeded (env : HostEnv) : Nat → List Argv → List Argv
  | _, [] => []
  | n, c :: cs => if (printed env n c).isSome then c :: succeeded env (n + 1) cs else []

/-- The commands stop after `done`: these exit with 0, the next one does not. -/
structure StopsAfter (env : HostEnv) (n : Nat) (cs done : List Argv) : Prop where
  zero : AllZero env n done
  stop : ∃ c rest, cs = done ++ c :: rest ∧ printed env (n + done.length) c = none

theorem stopsAfter_succeeded {env : HostEnv} {n : Nat} {cs : List Argv} (h : succeeded env n cs ≠ cs) :
    StopsAfter env n cs (succeeded env n cs) := by
  induction cs generalizing n with
  | nil => exact absurd rfl h
  | cons c cs ih =>
    rw [succeeded] at h ⊢
    by_cases hc : (printed env n c).isSome = true
    · rw [if_pos hc] at h ⊢
      obtain ⟨hzero, c', rest, hcs, hne⟩ := ih fun heq => h (by rw [heq])
      refine ⟨⟨hc, hzero⟩, c', rest, congrArg (c :: ·) hcs, ?_⟩
      rwa [List.length_cons, Nat.add_comm _ 1, ← Nat.add_assoc]
    · rw [if_neg hc]
      exact ⟨trivial, c, cs, rfl, Option.not_isSome_iff_eq_none.mp hc⟩

section rules
variable {α β : Type} {conn : String} {store : Store} {env : HostEnv} {d : Device}

/-- The store does with this command what it asks for. -/
def Store.Follows (store : Store) (conn : String) (argv : Argv) : Prop :=
  ∀ x p, store argv x p = if x.returncode = 0 then modify conn p argv else p

theorem Store.Modifies.follows_mod (h : store.Modifies conn) (settings : Argv) :
    store.Follows conn (["nmcli", "con", "mod", conn] ++ settings) := by
  intro x p
  have hmodify : modify conn p (["nmcli", "con", "mod", conn] ++ settings) = p.setAll settings := if_pos rfl
  split
  · next hzero => rw [h.modified settings x p hzero, hmodify]
  · next hfail => exact h.failed settings x p hfail

theorem Store.Modifies.follows_up (h : store.Modifies conn) :
    store.Follows conn ["nmcli", "con", "up", conn] := by
  intro x p
  have hmodify : modify conn p ["nmcli", "con", "up", conn] = p := if_neg (by simp)
  rw [h.activated x p, hmodify, ite_self]

/-- The task runs these commands up to the first failure, and ends in an error only if there is
one; the profile is modified by those before it. -/
structure Modifies (conn : String) (store : Store) (env : HostEnv) (p : Task α) (d : Device) (cs : List Argv) :
    Prop where
  profile : (p.exec (deviceHandler store env) d).2.profile =
    (succeeded env d.host.ran.length cs).foldl (modify conn) d.profile
  failed : (∃ e, (p.exec (deviceHandler store env) d).1 = .error e) → succeeded env d.host.ran.length cs ≠ cs

theorem modifies_done {r : LogRecord} (h : (r.extra.find? fun e => recordAttributes.contains e.1) = none)
    (j : Json) :
    Modifies conn store env (do logCall r; pure j : Task Json) d [] := by
  have hrun : (do logCall r; pure j : Task Json).exec (deviceHandler store env) d =
      (.ok j, { d with host := { d.host with log := d.host.log ++ [r] } }) := by
    rw [logCall, h]
    rfl
  constructor
  · rw [hrun]
    rfl
  · rw [hrun]
    rintro ⟨e, he⟩
    cases he

/-- A command that succeeds hands its output on, and the device is left as the store has it. -/
theorem exec_runNmcli {args : Argv} {out : Text} (h : printed env d.host.ran.length ("nmcli" :: args) = some out)
    (f : Text → Task β) :
    ∃ d' x, (runNmcli args >>= f).exec (deviceHandler store env) d = (f out).exec (deviceHandler store env) d' ∧
      x.returncode = 0 ∧ d'.profile = store ("nmcli" :: args) x d.profile ∧
      d'.host.ran.length = d.host.ran.length + 1 := by
  obtain ⟨hnul, stderr, hexit⟩ := printed_eq_some h
  refine ⟨⟨{ d.host with ran := d.host.ran ++ [⟨0, out, stderr⟩] },
    store ("nmcli" :: args) ⟨0, out, stderr⟩ d.profile⟩, ⟨0, out, stderr⟩, ?_, rfl, rfl, by simp⟩
  rw [runNmcli, runProgram, subprocess, hnul, if_neg Bool.false_ne_true, Prog.bind_assoc, Prog.bind_assoc, perform,
    Prog.perform_bind, Prog.exec_op, deviceHandler, hexit]
  rfl

/-- One that fails ends the task and leaves the profile alone. -/
theorem exec_runNmcli_fails {args : Argv} (hstore : store.Follows conn ("nmcli" :: args))
    (h : printed env d.host.ran.length ("nmcli" :: args) = none) (f : Text → Task β) :
    ((runNmcli args >>= f).exec (deviceHandler store env) d).2.profile = d.profile := by
  unfold printed at h
  split at h
  · next hnul =>
    rw [runNmcli, runProgram, subprocess, hnul]
    rfl
  · next hnul =>
    rw [runNmcli, runProgram, subprocess, if_neg hnul, Prog.bind_assoc, Prog.bind_assoc, perform,
      Prog.perform_bind, Prog.exec_op, deviceHandler]
    cases hexit : env.exits d.host.ran.length ("nmcli" :: args) with
    | none => rfl
    | some x =>
      rw [hexit, Option.bind_some] at h
      have hfail : x.returncode ≠ 0 := fun hzero => by
        rw [if_pos hzero] at h
        cases h
      have hkeep : store ("nmcli" :: args) x d.profile = d.profile := (hstore x d.profile).trans (if_neg hfail)
      change (((if x.returncode ≠ 0 then _ else _ : Task Text) >>= f).exec (deviceHandler store env)
        ⟨_, _⟩).2.profile = _
      rw [if_pos hfail]
      exact hkeep

theorem Modifies.command {args : Argv} {f : Text → Task β} {cs : List Argv}
    (hstore : store.Follows conn ("nmcli" :: args)) (h : ∀ out d', Modifies conn store env (f out) d' cs) :
    Modifies conn store env (runNmcli args >>= f) d (("nmcli" :: args) :: cs) := by
  cases hp : printed env d.host.ran.length ("nmcli" :: args) with
  | some out =>
    obtain ⟨d', x, hrun, hzero, hprofile, hran⟩ := @exec_runNmcli β store env d args out hp f
    have hmod : d'.profile = modify conn d.profile ("nmcli" :: args) := by
      rw [hprofile, hstore x d.profile, if_pos hzero]
    have hsucceeded : succeeded env d.host.ran.length (("nmcli" :: args) :: cs) =
        ("nmcli" :: args) :: succeeded env d'.host.ran.length cs := by
      rw [succeeded, hp, hran]
      rfl
    constructor
    · rw [hrun, (h out d').profile, hsucceeded, List.foldl_cons, hmod]
    · rw [hrun, hsucceeded]
      exact fun hfail heq => (h out d').failed hfail (List.cons.inj heq).2
  | none =>
    have hsucceeded : succeeded env d.host.ran.length (("nmcli" :: args) :: cs) = [] := by
      rw [succeeded, hp]
      rfl
    constructor
    · rw [exec_runNmcli_fails hstore hp f, hsucceeded]
      rfl
    · rw [hsucceeded]
      exact fun _ => List.cons_ne_nil _ _ ∘ Eq.symm

theorem modifies_configureInterface {payload : NetworkConfigRequest} {user : User}
    (hstore : store.Modifies (connName payload.interface))
    (h : env.interfaces.contains payload.interface = true) :
    Modifies (connName payload.interface) store env (configureInterface payload user) d
      (configureCommands payload) := by
  have hknown : ∀ {p : List String → Task Json} {cs : List Argv},
      Modifies (connName payload.interface) store env (p env.interfaces) d cs →
      Modifies (connName payload.interface) store env (perform .interfaces >>= p) d cs :=
    fun hp => ⟨hp.profile, hp.failed⟩
  unfold configureInterface
  refine hknown ?_
  rw [h]
  have hlast : ∀ d' : Device, Modifies (connName payload.interface) store env (do
      let _ ← runNmcli ["con", "up", connName payload.interface]
      logCall (infoLog "interface_configured" "network.configure" user
        [("interface", .str payload.interface), ("method", .str payload.method.value)])
      pure (.obj [("status", .str "ok")]) : Task Json) d'
      [["nmcli", "con", "up", connName payload.interface]] := fun d' =>
    Modifies.command hstore.follows_up fun out d'' => modifies_done rfl _
  cases hm : payload.method with
  | dhcp =>
    rw [hm] at hlast
    simp only [configureCommands, hm]
    exact Modifies.command (hstore.follows_mod _) fun out d' => hlast d'
  | static =>
    rw [hm] at hlast
    simp only [configureCommands, hm]
    refine Modifies.command (hstore.follows_mod _) fun out d' => ?_
    cases payload.gateway with
    | none =>
      rcases payload.dns with _ | _ | ⟨s, ss⟩
      · exact hlast d'
      · exact hlast d'
      · exact Modifies.command (hstore.follows_mod _) fun out d'' => hlast d''
    | some g =>
      refine Modifies.command (hstore.follows_mod _) fun out d'' => ?_
      rcases payload.dns with _ | _ | ⟨s, ss⟩
      · exact hlast d''
      · exact hlast d''
      · exact Modifies.command (hstore.follows_mod _) fun out d₃ => hlast d₃

end rules

/-- A request that fails leaves the profile as it was, with the modifications before the first
failing command made and no other. -/
theorem failed_configure_stops_there {store : Store} {env : HostEnv} {payload : NetworkConfigRequest} {user : User}
    {d : Device} (hstore : store.Modifies (connName payload.interface))
    (h : ∃ e, (configure store env payload user d).1 = .error e) :
    (env.interfaces.contains payload.interface = false ∧
        (configure store env payload user d).2.profile = d.profile) ∨
      ∃ done, StopsAfter env d.host.ran.length (configureCommands payload) done ∧
        (configure store env payload user d).2.profile =
          done.foldl (modify (connName payload.interface)) d.profile := by
  by_cases hknown : env.interfaces.contains payload.interface = true
  · have hmod : Modifies (connName payload.interface) store env (configureInterface payload user) d
        (configureCommands payload) := modifies_configureInterface hstore hknown
    exact .inr ⟨_, stopsAfter_succeeded (hmod.failed h), hmod.profile⟩
  · rw [Bool.not_eq_true] at hknown
    refine .inl ⟨hknown, ?_⟩
    change ((if !env.interfaces.contains payload.interface then _ else _ : Task Json).exec _ d).2.profile = _
    rw [hknown]
    rfl

def wiredProfile : Profile := ⟨"auto", "", "", ""⟩

/-- A static address with a gateway. -/
def wiredRequest : NetworkConfigRequest where
  interface := "eth0"
  method := .static
  address := some ⟨0xc0a80105#32, 24, Cidr.length_24⟩
  gateway := some 0xc0a80101#32
  dns := none
  interfaceOk := eth0_ok

/-- The activation at the end fails. -/
def lastFails : HostEnv := ⟨["eth0"], fun n _ => some ⟨if n = 2 then 1 else 0, [], []⟩⟩

def wiredStore : Store := fun argv x p => if x.returncode = 0 then modify (connName "eth0") p argv else p

theorem wiredStore_modifies : wiredStore.Modifies (connName "eth0") where
  modified settings x p h := by
    rw [wiredStore, if_pos h]
    exact if_pos rfl
  failed settings x p h := if_neg h
  activated x p := by
    have hmodify : modify (connName "eth0") p ["nmcli", "con", "up", connName "eth0"] = p := if_neg (by simp)
    rw [wiredStore, hmodify, ite_self]

def wiredDevice : Device := ⟨⟨[], []⟩, wiredProfile⟩

theorem wired_profile_stops_there : ∃ done, StopsAfter lastFails 0 (configureCommands wiredRequest) done ∧
    (configure wiredStore lastFails wiredRequest none wiredDevice).2.profile =
      done.foldl (modify (connName "eth0")) wiredProfile := by
  have hfails : ∃ e, (configure wiredStore lastFails wiredRequest none wiredDevice).1 = .error e := ⟨_, rfl⟩
  exact (failed_configure_stops_there wiredStore_modifies hfails).resolve_left fun h => Bool.noConfusion h.1

/-- The activation fails after the profile has been changed. -/
theorem failed_activation_leaves_profile_changed :
    (∃ e, (configure wiredStore lastFails wiredRequest none wiredDevice).1 = .error e) ∧
      (configure wiredStore lastFails wiredRequest none wiredDevice).2.profile =
        ⟨"manual", "192.168.1.5/24", "192.168.1.1", ""⟩ ∧
      (configure wiredStore lastFails wiredRequest none wiredDevice).2.profile ≠ wiredProfile := by
  refine ⟨⟨_, rfl⟩, ?_, ?_⟩
  · decide +kernel
  · decide +kernel

end Commands
