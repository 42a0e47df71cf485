import PiVpn.App.Wireguard

/-! The endpoints that run `nmcli` and `systemctl`. A failing command is logged before
the error is raised, and the log call itself may raise. -/

namespace Commands
open Text Cidr Ipaddress Effect Helper App

/-! ## Subprocesses and log calls -/

/-- How a subprocess ends. -/
structure Exit where
  returncode : Int
  stdout : Text
  stderr : Text

abbrev Argv := List String

inductive Ask where
  | run (argv : Argv)
  | interfaces
  | log (r : LogRecord)

abbrev Ask.Answer : Ask → Type
  | .run _ => Option Exit
  | .interfaces => List String
  | .log _ => Unit

abbrev Host : Signature := ⟨Ask, Ask.Answer⟩

abbrev Task (α : Type) := Prog Host Failure α

def perform (a : Ask) : Task a.Answer := Prog.perform (S := Host) a

/-- The attributes of a `LogRecord`, with the two names reserved beside them. -/
def recordAttributes : List String :=
  ["name", "msg", "args", "levelname", "levelno", "pathname", "filename", "module", "exc_info",
    "exc_text", "stack_info", "lineno", "funcName", "created", "msecs", "relativeCreated", "thread",
    "threadName", "processName", "process", "taskName", "message", "asctime"]

/-- A log call; it raises where a key of `extra` is an attribute of the record. -/
def logCall (r : LogRecord) : Task Unit :=
  match r.extra.find? fun e => recordAttributes.contains e.1 with
  | some e => .raise (.unhandled ("Attempt to overwrite '" ++ e.1 ++ "' in LogRecord"))
  | none => perform (.log r)

def argvJson (argv : Argv) : Json := .arr (argv.map .str)

def hasNul (argv : Argv) : Bool := argv.any fun a => a.toList.contains (Char.ofNat 0)

/-- `asyncio.create_subprocess_exec` and `communicate`: an argument with a NUL character raises
before anything runs, and so does a program that cannot be started. -/
def subprocess (argv : Argv) : Task Exit :=
  if hasNul argv then .raise (.unhandled "embedded null byte")
  else do
    let result ← perform (.run argv)
    (result.map pure).getD (.raise (.unhandled "the program cannot be started"))

/-- `_run_nmcli` and `_run_systemctl`, up to the program and the texts. -/
def runProgram (program message event detail : String) (args : Argv) : Task Text := do
  let result ← subprocess (program :: args)
  if result.returncode ≠ 0 then
    logCall ⟨.error, message,
      [("event", .str event), ("args", argvJson args), ("stderr", jsonText result.stderr)]⟩
    .raise (.http 502 detail)
  else pure result.stdout

def runNmcli (args : Argv) : Task Text :=
  runProgram "nmcli" "nmcli_failed" "network.nmcli.failed"
    "Network operation failed" args

def runSystemctl (args : Argv) : Task Unit := do
  let _ ← runProgram "systemctl" "systemctl_failed"
    "system.systemctl.failed" "System action failed" args
  pure ()

/-! ## Terse output -/

/-- `re.split(r"(?<!\\):", line)`: at each colon with no backslash before it. -/
def splitFieldsFrom (field : Text) : Text → List Text
  | [] => [field.reverse]
  | c :: cs =>
    if c = ':' ∧ field.head? ≠ some '\\' then field.reverse :: splitFieldsFrom [] cs
    else splitFieldsFrom (c :: field) cs

/-- `f.replace(old, new)` for a pair of characters. -/
def replacePair (a b new : Char) : Text → Text
  | x :: y :: cs => if x = a ∧ y = b then new :: replacePair a b new cs else x :: replacePair a b new (y :: cs)
  | cs => cs

/-- `_parse_nmcli_terse`. -/
def parseNmcliTerse (output : Text) : List (List Text) :=
  ((splitlines output).filter (· ≠ [])).map fun line =>
    (splitFieldsFrom [] line).map fun f => replacePair '\\' '\\' '\\' (replacePair '\\' ':' ':' f)

/-! ## Requests -/

inductive InterfaceMethod where
  | dhcp
  | static
  deriving DecidableEq

def InterfaceMethod.value : InterfaceMethod → String
  | .dhcp => "dhcp"
  | .static => "static"

def isIfaceChar (c : Char) : Bool := isAlnum c || ['_', '.', '-'].contains c

/-- The address may be missing for a static interface too: its validator only runs where
one is given. -/
structure NetworkConfigRequest where
  interface : String
  method : InterfaceMethod
  address : Option (Interface 32)
  gateway : Option (BitVec 32)
  dns : Option (List (BitVec 32))
  interfaceOk : FullMatch isIfaceChar 1 15 interface

structure WifiConnectRequest where
  ssid : String
  psk : Option String
  connectionName : Option String
  ssidOk : 1 ≤ ssid.length ∧ ssid.length ≤ 32
  pskOk : ∀ p ∈ psk, 8 ≤ p.length ∧ p.length ≤ 63
  connectionNameOk : ∀ n ∈ connectionName, 1 ≤ n.length ∧ n.length ≤ 64

/-! ## Endpoints -/

def connName (interface : String) : String := "pi-config-ui-" ++ interface

/-- `str(payload.address)`. -/
def addressArg (address : Option (Interface 32)) : String :=
  match address with
  | some i => String.ofList (IPInterface.v4 i).str
  | none => "None"

def ipv4Arg (a : BitVec 32) : String := String.ofList (ipv4Str a)

def configureInterface (payload : NetworkConfigRequest) (user : User) : Task Json := do
  let interfaces ← perform .interfaces
  if !interfaces.contains payload.interface then .raise (.http 404 "Unknown interface")
  else do
    let conn := connName payload.interface
    match payload.method with
    | .dhcp => do
      let _ ← runNmcli ["con", "mod", conn, "ipv4.method", "auto"]
      pure ()
    | .static => do
      let _ ← runNmcli ["con", "mod", conn, "ipv4.method", "manual", "ipv4.addresses",
        addressArg payload.address]
      match payload.gateway with
      | some g => do
        let _ ← runNmcli ["con", "mod", conn, "ipv4.gateway", ipv4Arg g]
        pure ()
      | none => pure ()
      match payload.dns with
      | some (d :: ds) => do
        let _ ← runNmcli ["con", "mod", conn, "ipv4.dns",
          String.intercalate "," ((d :: ds).map ipv4Arg)]
        pure ()
      | _ => pure ()
    let _ ← runNmcli ["con", "up", conn]
    logCall (infoLog "interface_configured" "network.configure" user
      [("interface", .str payload.interface), ("method", .str payload.method.value)])
    pure (.obj [("status", .str "ok")])

/-- `text.strip().split(":", 1)[-1] or name`. -/
def ssidOf (output name : Text) : Text :=
  let t := strip output
  let last := if t.contains ':' then (t.dropWhile (· ≠ ':')).tail else t
  if last = [] then name else last

def wifiTypes : List Text := ["802-11-wireless".toList, "wifi".toList]

def ssidArgs (name : Text) : Argv :=
  ["-t", "-f", "802-11-wireless.ssid", "connection", "show", String.ofList name]

/-- The loop over the listing; a row that is no pair cannot be unpacked. -/
def knownWifi : List (List Text) → Task (List Json)
  | [] => pure []
  | [name, connType] :: rows =>
    if wifiTypes.contains connType then do
      let output ← runNmcli (ssidArgs name)
      let rest ← knownWifi rows
      pure (.obj [("name", jsonText name), ("ssid", jsonText (ssidOf output name))] :: rest)
    else knownWifi rows
  | _ :: _ => .raise (.unhandled "cannot unpack the row")

def knownArgs : Argv := ["-t", "-f", "NAME,TYPE", "connection", "show"]

def listKnownWifi : Task Json := do
  let output ← runNmcli knownArgs
  let results ← knownWifi (parseNmcliTerse output)
  pure (.arr results)

/-- Unicode beyond ASCII: what `str.isdigit` accepts, and what `int` reads as a digit. -/
structure Digits where
  isDigit : Char → Bool
  value : Char → Option Nat

/-- `int(signal)`. -/
def intOf (digits : Digits) (signal : Text) : Option Nat :=
  if signal.length ≤ 4300 then
    (signal.mapM digits.value).map fun ds => ds.foldl (fun n d => 10 * n + d) 0
  else none

structure WifiNetwork where
  ssid : Text
  signal : Nat
  security : Text

/-- `best_by_ssid[ssid] = ...` where it is new or stronger. -/
def keepBest (best : List WifiNetwork) (n : WifiNetwork) : List WifiNetwork :=
  match best.find? (·.ssid = n.ssid) with
  | none => best ++ [n]
  | some old => if old.signal < n.signal then best.map fun o => if o.ssid = n.ssid then n else o else best

def scanRows (digits : Digits) (best : List WifiNetwork) : List (List Text) → Task (List WifiNetwork)
  | [] => pure best
  | row :: rows =>
    let ssid := row.getD 0 []
    let signal := row.getD 1 []
    let security := row.getD 2 []
    if ssid = [] then scanRows digits best rows
    else
      let strength := if signal ≠ [] ∧ signal.all digits.isDigit then intOf digits signal else some 0
      match strength with
      | none => .raise (.unhandled "invalid literal for int() with base 10")
      | some n =>
        scanRows digits (keepBest best ⟨ssid, n, if security = [] then "open".toList else security⟩) rows

def networkJson (n : WifiNetwork) : Json :=
  .obj [("ssid", jsonText n.ssid), ("signal", .int n.signal), ("security", jsonText n.security)]

def scanArgs : Argv :=
  ["-t", "-f", "SSID,SIGNAL,SECURITY", "device", "wifi", "list", "--rescan", "yes"]

def scanWifi (digits : Digits) : Task Json := do
  let output ← runNmcli scanArgs
  let best ← scanRows digits [] (parseNmcliTerse output)
  pure (.arr ((best.mergeSort fun a b => b.signal ≤ a.signal).map networkJson))

def wifiArgs (payload : WifiConnectRequest) : Argv :=
  match payload.psk with
  | some psk => ["device", "wifi", "connect", payload.ssid, "password", psk]
  | none => ["connection", "up", payload.connectionName.getD payload.ssid]

def wifiConnect (payload : WifiConnectRequest) (user : User) : Task Json := do
  let _ ← runNmcli (wifiArgs payload)
  logCall (infoLog "wifi_connected" "network.wifi_connect" user [("ssid", .str payload.ssid)])
  pure (.obj [("status", .str "ok")])

def reboot (user : User) : Task Json := do
  logCall (infoLog "reboot_requested" "system.reboot" user [])
  runSystemctl ["reboot"]
  pure (.obj [("status", .str "ok")])

def shutdown (user : User) : Task Json := do
  logCall (infoLog "shutdown_requested" "system.shutdown" user [])
  runSystemctl ["poweroff"]
  pure (.obj [("status", .str "ok")])

/-- The endpoints that run a subprocess. -/
inductive Endpoint where
  | configureInterface (payload : NetworkConfigRequest)
  | listKnownWifi
  | scanWifi
  | wifiConnect (payload : WifiConnectRequest)
  | reboot
  | shutdown

def Endpoint.handler (digits : Digits) (user : User) : Endpoint → Task Json
  | .configureInterface payload => Commands.configureInterface payload user
  | .listKnownWifi => Commands.listKnownWifi
  | .scanWifi => Commands.scanWifi digits
  | .wifiConnect payload => Commands.wifiConnect payload user
  | .reboot => Commands.reboot user
  | .shutdown => Commands.shutdown user

/-! ## Runs -/

/-- The local interfaces, and how the `n`-th subprocess ends, if it can be started at all. -/
structure HostEnv where
  interfaces : List String
  exits : Nat → Argv → Option Exit

structure HostState where
  ran : List Exit
  log : List LogRecord

def hostHandler (env : HostEnv) : Prog.Handler Host HostState
  | .run argv, s =>
    (env.exits s.ran.length argv, { s with ran := s.ran ++ (env.exits s.ran.length argv).toList })
  | .interfaces, s => (env.interfaces, s)
  | .log r, s => ((), { s with log := s.log ++ [r] })

def run {α : Type} (env : HostEnv) (p : Task α) (s : HostState) : Except Failure α × HostState :=
  p.exec (hostHandler env) s

/-! ## What a run of commands comes to -/

/-- What the `n`-th subprocess prints, if it is started and exits with 0. -/
def printed (env : HostEnv) (n : Nat) (argv : Argv) : Option Text :=
  if hasNul argv then none
  else (env.exits n argv).bind fun x => if x.returncode = 0 then some x.stdout else none

/-- Where `c` holds the task ends well and runs only commands that exit with 0, and
elsewhere it ends with an exception that no handler expects. -/
structure Runs {α : Type} (env : HostEnv) (p : Task α) (s : HostState) (c : Prop)
    (Q : α → HostState → Prop) : Prop where
  good : c → ∃ a s' xs, run env p s = (.ok a, s') ∧ s'.ran = s.ran ++ xs ∧
    (∀ x ∈ xs, x.returncode = 0) ∧ Q a s'
  bad : ¬ c → ∃ e s', run env p s = (.error (.unhandled e), s')

section rules
variable {α β : Type} {env : HostEnv} {s : HostState} {c c' : Prop} {Q : α → HostState → Prop}

theorem Runs.bind {p : Task α} {f : α → Task β} {R : β → HostState → Prop} (hp : Runs env p s c Q)
    (hf : ∀ a s', Q a s' → Runs env (f a) s' c' R) : Runs env (p >>= f) s (c ∧ c') R := by
  constructor
  · rintro ⟨hc, hc'⟩
    obtain ⟨a, s₁, xs, hrun, hran, hzero, hq⟩ := hp.good hc
    obtain ⟨b, s₂, ys, hrun', hran', hzero', hr⟩ := (hf a s₁ hq).good hc'
    refine ⟨b, s₂, xs ++ ys, ?_, ?_, ?_, hr⟩
    · rw [run, Prog.exec_bind_of_ok hrun]
      exact hrun'
    · rw [hran', hran, List.append_assoc]
    · intro x hx
      rcases List.mem_append.mp hx with hx | hx
      · exact hzero x hx
      · exact hzero' x hx
  · intro hc
    by_cases hgood : c
    · obtain ⟨a, s₁, xs, hrun, -, -, hq⟩ := hp.good hgood
      obtain ⟨e, s₂, hrun'⟩ := (hf a s₁ hq).bad fun hc' => hc ⟨hgood, hc'⟩
      exact ⟨e, s₂, by rw [run, Prog.exec_bind_of_ok hrun]; exact hrun'⟩
    · obtain ⟨e, s₁, hrun⟩ := hp.bad hgood
      exact ⟨e, s₁, Prog.exec_bind_of_error hrun⟩

theorem Runs.iff {p : Task α} (h : Runs env p s c Q) (hc : c ↔ c') : Runs env p s c' Q :=
  ⟨fun h' => h.good (hc.mpr h'), fun h' => h.bad fun h => h' (hc.mp h)⟩

theorem runs_pure {a : α} (h : Q a s) : Runs env (pure a) s True Q :=
  ⟨fun _ => ⟨a, s, [], rfl, by simp, by simp, h⟩, fun h => absurd trivial h⟩

theorem runs_raise (e : String) : Runs env (.raise (.unhandled e) : Task α) s False Q :=
  ⟨False.elim, fun _ => ⟨e, s, rfl⟩⟩

/-- None of these keys is taken. -/
theorem runs_logCall {r : LogRecord}
    (h : (r.extra.find? fun e => recordAttributes.contains e.1) = none) :
    Runs env (logCall r) s True fun _ s' => s'.ran = s.ran := by
  refine ⟨fun _ => ⟨(), { s with log := s.log ++ [r] }, [], ?_, by simp, by simp, rfl⟩,
    fun h => absurd trivial h⟩
  rw [logCall, h]
  rfl

theorem printed_eq_some {n : Nat} {argv : Argv} {out : Text} (h : printed env n argv = some out) :
    hasNul argv = false ∧ ∃ stderr, env.exits n argv = some ⟨0, out, stderr⟩ := by
  unfold printed at h
  split at h
  · cases h
  · next hnul =>
    obtain ⟨⟨code, stdout, stderr⟩, hx, hzero⟩ := Option.bind_eq_some_iff.mp h
    split at hzero
    · next hcode =>
      obtain rfl : code = 0 := hcode
      obtain rfl := Option.some.inj hzero
      exact ⟨Bool.eq_false_iff.mpr hnul, stderr, hx⟩
    · cases hzero

theorem run_runProgram {program message event detail : String} {args : Argv} {out stderr : Text}
    (hnul : hasNul (program :: args) = false)
    (hexit : env.exits s.ran.length (program :: args) = some ⟨0, out, stderr⟩) :
    run env (runProgram program message event detail args) s =
      (.ok out, { s with ran := s.ran ++ [⟨0, out, stderr⟩] }) := by
  rw [run, runProgram, subprocess, hnul, if_neg Bool.false_ne_true, Prog.bind_assoc, perform,
    Prog.perform_bind, Prog.exec_op, hostHandler, hexit]
  rfl

/-- A program that is not started raises at once; the log call of one that fails has a key that
is taken, so it raises too. -/
theorem run_runProgram_fails {program message event detail : String} {args : Argv}
    (h : printed env s.ran.length (program :: args) = none) :
    ∃ e s', run env (runProgram program message event detail args) s = (.error (.unhandled e), s') := by
  unfold printed at h
  split at h
  · next hnul => exact ⟨_, _, by rw [run, runProgram, subprocess, hnul]; rfl⟩
  · next hnul =>
    rw [run, runProgram, subprocess, if_neg hnul, Prog.bind_assoc, perform, Prog.perform_bind, Prog.exec_op,
      hostHandler]
    cases hexit : env.exits s.ran.length (program :: args) with
    | none => exact ⟨_, _, rfl⟩
    | some x =>
      rw [hexit, Option.bind_some] at h
      have hfail : x.returncode ≠ 0 := fun hzero => by
        rw [if_pos hzero] at h
        cases h
      refine ⟨"Attempt to overwrite '" ++ "args" ++ "' in LogRecord", { s with ran := s.ran ++ [x] }, ?_⟩
      change run env (if x.returncode ≠ 0 then _ else _) _ = _
      rw [if_pos hfail]
      rfl

theorem runs_runProgram (program message event detail : String) (args : Argv) :
    Runs env (runProgram program message event detail args) s
      ((printed env s.ran.length (program :: args)).isSome = true)
      fun out s' => printed env s.ran.length (program :: args) = some out ∧
        s'.ran.length = s.ran.length + 1 := by
  constructor
  · intro h
    obtain ⟨out, hout⟩ := Option.isSome_iff_exists.mp h
    obtain ⟨hnul, stderr, hexit⟩ := printed_eq_some hout
    exact ⟨out, _, [⟨0, out, stderr⟩], run_runProgram hnul hexit, rfl, by simp, hout, by simp⟩
  · exact fun h => run_runProgram_fails (Option.not_isSome_iff_eq_none.mp h)

theorem runs_runNmcli (args : Argv) :
    Runs env (runNmcli args) s ((printed env s.ran.length ("nmcli" :: args)).isSome = true)
      fun out s' => printed env s.ran.length ("nmcli" :: args) = some out ∧
        s'.ran.length = s.ran.length + 1 :=
  runs_runProgram _ _ _ _ args

theorem runs_runSystemctl (args : Argv) :
    Runs env (runSystemctl args) s ((printed env s.ran.length ("systemctl" :: args)).isSome = true)
      fun _ _ => True :=
  ((runs_runProgram _ _ _ _ args).bind fun _ _ _ => runs_pure trivial).iff (by simp)

theorem exists_and_forall_eq {α : Type} {x : Option α} {P : α → Prop} :
    ((∃ a, x = some a) ∧ ∀ a, x = some a → P a) ↔ ∃ a, x = some a ∧ P a := by
  cases x <;> simp

theorem runs_interfaces {f : List String → Task α} (h : Runs env (f env.interfaces) s c Q) :
    Runs env (perform .interfaces >>= f) s c Q := ⟨h.good, h.bad⟩

end rules

/-! ## The commands of each endpoint -/

/-- These commands, from the `n`-th subprocess on, are all started and exit with 0. -/
def AllZero (env : HostEnv) : Nat → List Argv → Prop
  | _, [] => True
  | n, c :: cs => (printed env n c).isSome = true ∧ AllZero env (n + 1) cs

/-- The commands of `configure_interface`, in order. -/
def configureCommands (payload : NetworkConfigRequest) : List Argv :=
  let conn := connName payload.interface
  (match payload.method with
    | .dhcp => [["nmcli", "con", "mod", conn, "ipv4.method", "auto"]]
    | .static =>
      [["nmcli", "con", "mod", conn, "ipv4.method", "manual", "ipv4.addresses",
          addressArg payload.address]] ++
        (match payload.gateway with
          | some g => [["nmcli", "con", "mod", conn, "ipv4.gateway", ipv4Arg g]]
          | none => []) ++
        (match payload.dns with
          | some (d :: ds) => [["nmcli", "con", "mod", conn, "ipv4.dns",
              String.intercalate "," ((d :: ds).map ipv4Arg)]]
          | _ => [])) ++
    [["nmcli", "con", "up", conn]]

theorem Runs.command {β : Type} {env : HostEnv} {s : HostState} {args : Argv} {f : Text → Task β}
    {cs : List Argv} {R : β → HostState → Prop}
    (h : ∀ out s', Runs env (f out) s' (AllZero env s'.ran.length cs) R) :
    Runs env (runNmcli args >>= f) s (AllZero env s.ran.length (("nmcli" :: args) :: cs)) R :=
  (runs_runNmcli args).bind fun out s' hq => (h out s').iff (by rw [hq.2])

section endpoints
variable {env : HostEnv} {s : HostState} {user : User}

theorem runs_configureInterface {payload : NetworkConfigRequest}
    (h : env.interfaces.contains payload.interface = true) :
    Runs env (configureInterface payload user) s (AllZero env s.ran.length (configureCommands payload))
      fun _ _ => True := by
  unfold configureInterface
  refine runs_interfaces ?_
  rw [h]
  -- from the last command back to the first: each step needs the exits of the rest
  have hlast : ∀ s' : HostState, Runs env (do
      let _ ← runNmcli ["con", "up", connName payload.interface]
      logCall (infoLog "interface_configured" "network.configure" user
        [("interface", .str payload.interface), ("method", .str payload.method.value)])
      pure (.obj [("status", .str "ok")]) : Task Json) s'
      (AllZero env s'.ran.length [["nmcli", "con", "up", connName payload.interface]])
      fun _ _ => True := fun s' =>
    Runs.command fun out s'' => ((runs_logCall rfl).bind fun _ _ _ => runs_pure trivial).iff (by simp [AllZero])
  cases hm : payload.method with
  | dhcp =>
    rw [hm] at hlast
    simp only [configureCommands, hm]
    exact Runs.command fun out s' => hlast s'
  | static =>
    rw [hm] at hlast
    have hdns : ∀ s' : HostState, Runs env (do
        match payload.dns with
        | some (d :: ds) => do
          let _ ← runNmcli ["con", "mod", connName payload.interface, "ipv4.dns",
            String.intercalate "," ((d :: ds).map ipv4Arg)]
          pure ()
        | _ => pure ()
        let _ ← runNmcli ["con", "up", connName payload.interface]
        logCall (infoLog "interface_configured" "network.configure" user
          [("interface", .str payload.interface), ("method", .str InterfaceMethod.static.value)])
        pure (.obj [("status", .str "ok")]) : Task Json) s'
        (AllZero env s'.ran.length ((match payload.dns with
          | some (d :: ds) => [["nmcli", "con", "mod", connName payload.interface, "ipv4.dns",
              String.intercalate "," ((d :: ds).map ipv4Arg)]]
          | _ => []) ++ [["nmcli", "con", "up", connName payload.interface]]))
        fun _ _ => True := fun s' => by
      split
      · exact Runs.command fun out s'' => hlast s''
      · exact hlast s'
    simp only [configureCommands, hm]
    refine Runs.command fun out s' => ?_
    cases hg : payload.gateway with
    | none => exact hdns s'
    | some g => exact Runs.command fun out s'' => hdns s''

/-- The name in a row of a wifi connection. -/
def wifiName : List Text → Option Text
  | [name, connType] => if wifiTypes.contains connType then some name else none
  | _ => none

def ssidCommands (rows : List (List Text)) : List Argv :=
  (rows.filterMap wifiName).map fun name => "nmcli" :: ssidArgs name

theorem runs_knownWifi (env : HostEnv) (rows : List (List Text)) (s : HostState) :
    Runs env (knownWifi rows) s
      ((∀ row ∈ rows, row.length = 2) ∧ AllZero env s.ran.length (ssidCommands rows))
      fun _ _ => True := by
  induction rows generalizing s with
  | nil => exact (runs_pure trivial).iff (by simp [ssidCommands, AllZero])
  | cons row rows ih =>
    match row with
    | [name, connType] =>
      unfold knownWifi
      by_cases hw : wifiTypes.contains connType = true
      · rw [if_pos hw]
        have hrest : ∀ out s', s'.ran.length = s.ran.length + 1 → Runs env (do
            let rest ← knownWifi rows
            pure (.obj [("name", jsonText name), ("ssid", jsonText (ssidOf out name))] :: rest)) s'
            ((∀ row ∈ rows, row.length = 2) ∧ AllZero env (s.ran.length + 1) (ssidCommands rows))
            fun _ _ => True := fun out s' hlen => by
          have hpure : ∀ (rest : List Json) s'', Runs env (pure
              (Json.obj [("name", jsonText name), ("ssid", jsonText (ssidOf out name))] :: rest)) s''
              True fun _ _ => True := fun _ _ => runs_pure trivial
          exact ((ih s').bind fun rest s'' _ => hpure rest s'').iff (by rw [hlen, and_true])
        refine ((runs_runNmcli _).bind fun out s' hq => hrest out s' hq.2).iff ?_
        have hnames : ssidCommands ([name, connType] :: rows) =
            ("nmcli" :: ssidArgs name) :: ssidCommands rows := by
          have hname : wifiName [name, connType] = some name := if_pos hw
          rw [ssidCommands, List.filterMap_cons_some hname]
          rfl
        rw [hnames, AllZero]
        simp only [List.forall_mem_cons, List.length_cons, List.length_nil]
        tauto
      · rw [if_neg hw]
        have hnames : ssidCommands ([name, connType] :: rows) = ssidCommands rows := by
          have hname : wifiName [name, connType] = none := if_neg hw
          rw [ssidCommands, List.filterMap_cons_none hname]
          rfl
        refine (ih s).iff ?_
        rw [hnames]
        simp
    -- a row of any other length cannot be unpacked
    | [] => exact (runs_raise _).iff (by simp)
    | [_] => exact (runs_raise _).iff (by simp)
    | _ :: _ :: _ :: _ => exact (runs_raise _).iff (by simp)

theorem runs_listKnownWifi :
    Runs env listKnownWifi ⟨[], []⟩
      (∃ out, printed env 0 ("nmcli" :: knownArgs) = some out ∧
        (∀ row ∈ parseNmcliTerse out, row.length = 2) ∧ AllZero env 1 (ssidCommands (parseNmcliTerse out)))
      fun _ _ => True := by
  unfold listKnownWifi
  have hrows : ∀ out s', (printed env 0 ("nmcli" :: knownArgs) = some out ∧ s'.ran.length = 0 + 1) →
      Runs env (knownWifi (parseNmcliTerse out) >>= fun results => pure (Json.arr results) : Task Json) s'
        (∀ out, printed env 0 ("nmcli" :: knownArgs) = some out →
          (∀ row ∈ parseNmcliTerse out, row.length = 2) ∧ AllZero env 1 (ssidCommands (parseNmcliTerse out)))
        fun _ _ => True := by
    rintro out s' ⟨hout, hlen⟩
    refine ((runs_knownWifi env (parseNmcliTerse out) s').bind fun _ _ _ => runs_pure trivial).iff ?_
    rw [hlen, and_true, hout]
    simp
  refine ((runs_runNmcli knownArgs).bind hrows).iff ?_
  rw [Option.isSome_iff_exists]
  exact exists_and_forall_eq

/-- The signal of the row, if `int` is called on it, reads as a number. -/
def RowReads (digits : Digits) (row : List Text) : Prop :=
  row.getD 0 [] ≠ [] → row.getD 1 [] ≠ [] → (row.getD 1 []).all digits.isDigit = true →
    (intOf digits (row.getD 1 [])).isSome = true

theorem runs_scanRows (digits : Digits) (rows : List (List Text)) (best : List WifiNetwork) :
    Runs env (scanRows digits best rows) s (∀ row ∈ rows, RowReads digits row) fun _ _ => True := by
  induction rows generalizing best with
  | nil => exact (runs_pure trivial).iff (by simp)
  | cons row rows ih =>
    unfold scanRows
    rw [List.forall_mem_cons]
    by_cases hssid : row.getD 0 [] = []
    · rw [if_pos hssid]
      exact (ih best).iff (and_iff_right fun h => absurd hssid h).symm
    · rw [if_neg hssid]
      by_cases hsignal : row.getD 1 [] ≠ [] ∧ (row.getD 1 []).all digits.isDigit = true
      · rw [if_pos hsignal]
        cases hint : intOf digits (row.getD 1 []) with
        | none =>
          refine (runs_raise _).iff (iff_of_false id fun h => ?_)
          have := h.1 hssid hsignal.1 hsignal.2
          rw [hint] at this
          cases this
        | some n =>
          have hrow : RowReads digits row := fun _ _ _ => by rw [hint]; rfl
          exact (ih _).iff (and_iff_right hrow).symm
      · rw [if_neg hsignal]
        exact (ih _).iff (and_iff_right fun _ h h' => absurd ⟨h, h'⟩ hsignal).symm

theorem runs_scanWifi (digits : Digits) :
    Runs env (scanWifi digits) ⟨[], []⟩
      (∃ out, printed env 0 ("nmcli" :: scanArgs) = some out ∧
        ∀ row ∈ parseNmcliTerse out, RowReads digits row)
      fun _ _ => True := by
  unfold scanWifi
  have hrows : ∀ out s', (printed env 0 ("nmcli" :: scanArgs) = some out ∧ s'.ran.length = 0 + 1) →
      Runs env (scanRows digits [] (parseNmcliTerse out) >>= fun best =>
          pure (Json.arr ((best.mergeSort fun a b => b.signal ≤ a.signal).map networkJson)) : Task Json) s'
        (∀ out, printed env 0 ("nmcli" :: scanArgs) = some out → ∀ row ∈ parseNmcliTerse out, RowReads digits row)
        fun _ _ => True := by
    rintro out s' ⟨hout, -⟩
    refine ((runs_scanRows digits (parseNmcliTerse out) []).bind fun _ _ _ => runs_pure trivial).iff ?_
    rw [and_true, hout]
    simp
  refine ((runs_runNmcli scanArgs).bind hrows).iff ?_
  rw [Option.isSome_iff_exists]
  exact exists_and_forall_eq

theorem runs_wifiConnect (payload : WifiConnectRequest) :
    Runs env (wifiConnect payload user) s
      (AllZero env s.ran.length ["nmcli" :: wifiArgs payload]) fun _ _ => True := by
  unfold wifiConnect
  refine Runs.command fun out s' => ?_
  exact ((runs_logCall rfl).bind fun _ _ _ => runs_pure trivial).iff (by simp [AllZero])

theorem runs_power {r : LogRecord} {args : Argv}
    (hr : (r.extra.find? fun e => recordAttributes.contains e.1) = none) :
    Runs env (do logCall r; runSystemctl args; pure (.obj [("status", .str "ok")]) : Task Json) s
      (AllZero env s.ran.length ["systemctl" :: args]) fun _ _ => True := by
  have hrest : ∀ s' : HostState, s'.ran = s.ran → Runs env (do
      runSystemctl args
      pure (.obj [("status", .str "ok")]) : Task Json) s'
      (AllZero env s.ran.length ["systemctl" :: args]) fun _ _ => True := fun s' hs => by
    refine ((runs_runSystemctl args).bind fun _ _ _ => runs_pure trivial).iff ?_
    rw [hs]
    rfl
  exact ((runs_logCall hr).bind fun _ s' hs => hrest s' hs).iff (by rw [true_and])

end endpoints

/-! ## Failures surface as they should -/

/-- The endpoint ends well exactly where every subprocess it ran exited with 0; else it
stopped at the first that did not, with the error for it. -/
structure Surfaces {α : Type} (r : Except Failure α) (ran : List Exit) : Prop where
  success : (∃ a, r = .ok a) ↔ ∀ x ∈ ran, x.returncode = 0
  failure : (∃ x ∈ ran, x.returncode ≠ 0) → (∃ detail, r = .error (.http 502 detail)) ∧
    ∃ before last, ran = before ++ [last] ∧ (∀ x ∈ before, x.returncode = 0) ∧ last.returncode ≠ 0

theorem Runs.surfaces_iff {α : Type} {env : HostEnv} {p : Task α} {c : Prop}
    {Q : α → HostState → Prop} (h : Runs env p ⟨[], []⟩ c Q) :
    Surfaces (run env p ⟨[], []⟩).1 (run env p ⟨[], []⟩).2.ran ↔ c := by
  constructor
  · intro hs
    by_contra hc
    obtain ⟨e, s', hrun⟩ := h.bad hc
    rw [hrun] at hs
    by_cases hfail : ∃ x ∈ s'.ran, x.returncode ≠ 0
    · obtain ⟨⟨detail, hd⟩, -⟩ := hs.failure hfail
      cases hd
    · have hzero : ∀ x ∈ s'.ran, x.returncode = 0 := fun x hx => by_contra fun hne => hfail ⟨x, hx, hne⟩
      obtain ⟨a, ha⟩ := hs.success.mpr hzero
      cases ha
  · intro hc
    obtain ⟨a, s', xs, hrun, hran, hzero, -⟩ := h.good hc
    rw [hrun]
    rw [List.nil_append] at hran
    refine ⟨iff_of_true ⟨a, rfl⟩ (hran ▸ hzero), ?_⟩
    rintro ⟨x, hx, hne⟩
    exact absurd (hzero x (hran ▸ hx)) hne

/-- The request is past the endpoint's own checks. -/
def Endpoint.Accepted (env : HostEnv) : Endpoint → Prop
  | .configureInterface payload => env.interfaces.contains payload.interface = true
  | _ => True

/-- Every subprocess of the endpoint is started and exits with 0, and what the listings print can
be taken apart. -/
def Endpoint.Clear (digits : Digits) (env : HostEnv) : Endpoint → Prop
  | .configureInterface payload => AllZero env 0 (configureCommands payload)
  | .listKnownWifi => ∃ out, printed env 0 ("nmcli" :: knownArgs) = some out ∧
      (∀ row ∈ parseNmcliTerse out, row.length = 2) ∧ AllZero env 1 (ssidCommands (parseNmcliTerse out))
  | .scanWifi => ∃ out, printed env 0 ("nmcli" :: scanArgs) = some out ∧
      ∀ row ∈ parseNmcliTerse out, RowReads digits row
  | .wifiConnect payload => AllZero env 0 ["nmcli" :: wifiArgs payload]
  | .reboot => AllZero env 0 [["systemctl", "reboot"]]
  | .shutdown => AllZero env 0 [["systemctl", "poweroff"]]

theorem failures_surface_iff (digits : Digits) (env : HostEnv) (user : User) (e : Endpoint)
    (h : e.Accepted env) :
    Surfaces (run env (e.handler digits user) ⟨[], []⟩).1
        (run env (e.handler digits user) ⟨[], []⟩).2.ran ↔ e.Clear digits env := by
  cases e with
  | configureInterface payload => exact (runs_configureInterface h).surfaces_iff
  | listKnownWifi => exact runs_listKnownWifi.surfaces_iff
  | scanWifi => exact (runs_scanWifi digits).surfaces_iff
  | wifiConnect payload => exact (runs_wifiConnect payload).surfaces_iff
  | reboot => exact (runs_power rfl).surfaces_iff
  | shutdown => exact (runs_power rfl).surfaces_iff

def asciiDigits : Digits where
  isDigit := Char.isDigit
  value := fun c => if c.isDigit then some (c.toNat - 48) else none

/-- Every subprocess exits with this code. -/
def constantEnv (code : Int) : HostEnv := ⟨["eth0"], fun _ _ => some ⟨code, [], []⟩⟩

theorem reboot_surfaces :
    Surfaces (run (constantEnv 0) (Endpoint.reboot.handler asciiDigits none) ⟨[], []⟩).1
      (run (constantEnv 0) (Endpoint.reboot.handler asciiDigits none) ⟨[], []⟩).2.ran :=
  (failures_surface_iff asciiDigits (constantEnv 0) none .reboot trivial).mpr ⟨rfl, trivial⟩

/-- A failing `systemctl reboot` ends in the exception of the log call. -/
theorem failed_reboot_raises :
    (run (constantEnv 1) (Endpoint.reboot.handler asciiDigits none) ⟨[], []⟩).1 =
        .error (.unhandled "Attempt to overwrite 'args' in LogRecord") ∧
      ¬ Surfaces (run (constantEnv 1) (Endpoint.reboot.handler asciiDigits none) ⟨[], []⟩).1
        (run (constantEnv 1) (Endpoint.reboot.handler asciiDigits none) ⟨[], []⟩).2.ran := by
  have hraise : (run (constantEnv 1) (Endpoint.reboot.handler asciiDigits none) ⟨[], []⟩).1 =
      .error (.unhandled "Attempt to overwrite 'args' in LogRecord") := by rfl
  refine ⟨hraise, fun hs => ?_⟩
  obtain ⟨⟨detail, hd⟩, -⟩ := hs.failure ⟨⟨1, [], []⟩, List.mem_singleton_self _, by decide⟩
  rw [hraise] at hd
  cases hd

end Commands
