import PiVpn.Maintenance.Updates

/-! The commands beside the updates that change the system under the same lock: the health
check every ten minutes, the weekly cleaning and the weekly reboot. -/

namespace Maintenance
open Text Effect

/-! ## The device -/

/-- The disk, the units restarted so far, and the reboots of the schedule. -/
structure Device where
  disk : Disk
  restarted : List String
  scheduledReboots : Nat

inductive DeviceOp where
  | disk (o : Op)
  | isActive (unit : String)
  | isEnabled (unit : String)
  | restartUnit (unit : String)
  | readSsoEnv
  | getentHosts (host : Text)
  | sleep (seconds : Nat)
  | vacuumJournal
  | aptClean
  | systemctlReboot

abbrev DeviceOp.Answer : DeviceOp → Type
  | .disk o => o.Answer
  | .isActive _ => Bool
  | .isEnabled _ => Bool
  | .restartUnit _ => Bool
  | .readSsoEnv => Option Text
  | .getentHosts _ => Bool
  | .sleep _ => Unit
  | .vacuumJournal => Bool
  | .aptClean => Bool
  | .systemctlReboot => Bool

abbrev DeviceSys : Signature := ⟨DeviceOp, DeviceOp.Answer⟩

abbrev DeviceCmd (α : Type) := Prog DeviceSys Empty α

def askDevice (o : DeviceOp) : DeviceCmd o.Answer := Prog.perform (S := DeviceSys) o

/-- A command that works on the disk alone. -/
def onDisk {α : Type} (c : Cmd α) : DeviceCmd α := c.lift DeviceOp.disk fun _ x => x

/-- How what is outside the script turns out, at each moment. -/
structure DeviceOutcomes where
  base : Outcomes
  active : Nat → String → Bool
  enabled : Nat → String → Bool
  restarts : Nat → String → Bool
  ssoEnv : Option Text
  resolves : Nat → Text → Bool
  vacuumed : Bool
  cleaned : Bool
  reboots : Bool

def appUnit : String := "pi-config-ui"

def Device.restart (d : Device) (unit : String) : Device := { d with restarted := d.restarted ++ [unit] }

/-- What an operation answers and does; the restart of a boot check is one of the application. -/
def deviceAnswer (env : DeviceOutcomes) : (o : DeviceOp) → Device → o.Answer × Device
  | .disk o, d =>
    let r := handler env.base o d.disk
    let d' := { d with disk := r.2 }
    (r.1, match o with
      | .restart => d'.restart appUnit
      | _ => d')
  | .isActive unit, d => (env.active d.disk.tick unit, d)
  | .isEnabled unit, d => (env.enabled d.disk.tick unit, d)
  | .restartUnit unit, d => (env.restarts d.disk.tick unit, d.restart unit)
  | .readSsoEnv, d => (env.ssoEnv, d)
  | .getentHosts host, d => (env.resolves d.disk.tick host, d)
  | .sleep _, d => ((), d)
  | .vacuumJournal, d => (env.vacuumed, d)
  | .aptClean, d =>
    (env.cleaned, if env.cleaned then { d with disk := { d.disk with cache := [] } } else d)
  | .systemctlReboot, d =>
    (env.reboots, if env.reboots then { d with scheduledReboots := d.scheduledReboots + 1 } else d)

def Device.after (d : Device) (seconds : Nat) : Device :=
  { d with disk := { d.disk with tick := d.disk.tick + seconds } }

/-- Time goes on with every operation. -/
def deviceHandler (env : DeviceOutcomes) : Prog.Handler DeviceSys Device
  | .disk o, d => deviceAnswer env (.disk o) d
  | o, d => ((deviceAnswer env o d).1, (deviceAnswer env o d).2.after 1)

/-! ## The health check -/

def logLine (text : String) : DeviceCmd Unit := askDevice (.disk (.log text))

def warnAndRestart (warning unit : String) : DeviceCmd Unit := do
  logLine warning
  if ← askDevice (.restartUnit unit) then pure () else logLine ("ERROR: failed to restart " ++ unit)

def checkUnit (unit : String) : DeviceCmd Unit := do
  if ← askDevice (.isActive unit) then pure ()
  else warnAndRestart ("WARNING: " ++ unit ++ " is not active, restarting") unit

def checkUnits : List String → DeviceCmd Unit
  | [] => pure ()
  | unit :: units => do
    checkUnit unit
    checkUnits units

/-- The tunnels that the project's own "Create tunnel" made; never one of a client. -/
def serverTunnels : List String := ["Bpl-Home"]

def tunnelUnit (tunnel : String) : String := "wg-quick@" ++ tunnel

/-- A tunnel that is not enabled is left alone. -/
def checkTunnel (tunnel : String) : DeviceCmd Unit := do
  let unit := tunnelUnit tunnel
  if ← askDevice (.isEnabled unit) then do
    if ← askDevice (.isActive unit) then pure ()
    else warnAndRestart ("WARNING: " ++ unit ++ " is enabled but not active, restarting") unit
  else pure ()

def checkTunnels : List String → DeviceCmd Unit
  | [] => pure ()
  | tunnel :: tunnels => do
    checkTunnel tunnel
    checkTunnels tunnels

def isQuote (c : Char) : Bool := c = '"' || c = '\''

def isHostEnd (c : Char) : Bool := c = '/' || c = ':' || isQuote c

def dropPrefix (p t : Text) : Option Text := if p.isPrefixOf t then some (t.drop p.length) else none

def issuerKey : Text := "SSO_ISSUER=".toList
def httpWord : Text := ['h', 't', 't', 'p']
def schemeEnd : Text := [':', '/', '/']

/-- `sed -n 's#^SSO_ISSUER=["'\'']*https*://\([^/:"'\'']*\).*#\1#p'` on one line. -/
def issuerHostOf (line : Text) : Option Text := do
  let value ← dropPrefix issuerKey line
  let rest ← dropPrefix httpWord (value.dropWhile isQuote)
  let rest ← dropPrefix schemeEnd (rest.dropWhile (· = 's'))
  pure (rest.takeWhile fun c => !isHostEnd c)

def defaultIssuerHost : Text := "sso.keekar.au".toList

/-- The first host that is found, if the file can be read. -/
def issuerHost (ssoEnv : Option Text) : Text :=
  orDefault ((((ssoEnv.getD []).splitOn '\n').filterMap issuerHostOf).headD []) defaultIssuerHost

def resolved : String := "systemd-resolved"

def restartResolver (host : Text) : DeviceCmd Unit := do
  if ← askDevice (.isActive resolved) then do
    logLine ("WARNING: health: " ++ String.ofList host ++ " doesn't resolve, restarting systemd-resolved")
    let _ ← askDevice (.restartUnit resolved)
    askDevice (.sleep 2)
  else pure ()

def checkIssuer (host : Text) : DeviceCmd Unit := do
  if ← askDevice (.getentHosts host) then pure ()
  else do
    restartResolver host
    if ← askDevice (.getentHosts host) then pure ()
    else
      logLine ("ERROR: health: " ++ String.ofList host ++
        " still doesn't resolve; SSO login unavailable (check DNS or SPLIT_DNS)")

def checkApp : DeviceCmd Unit := do
  let port ← askDevice (.disk .port)
  let answer ← askDevice (.disk (.curl (orDefault port ['4', '4', '3'])))
  let code := orDefault answer ['0', '0', '0']
  if healthCode code then pure ()
  else
    warnAndRestart ("WARNING: app health check returned HTTP " ++ String.ofList code ++
      ", restarting pi-config-ui") appUnit

/-- `cmd_health`; its exit status. -/
def cmdHealth : DeviceCmd Nat := do
  checkUnits [appUnit, "pi-wg-helperd"]
  checkTunnels serverTunnels
  let ssoEnv ← askDevice .readSsoEnv
  checkIssuer (issuerHost ssoEnv)
  checkApp
  pure 0

/-! ## Cleaning and rebooting -/

/-- `cmd_cleanup`. -/
def cmdCleanup : DeviceCmd Nat := do
  let _ ← askDevice .vacuumJournal
  let _ ← askDevice .aptClean
  logLine "cleanup: journald vacuumed to 7d, apt cache cleaned"
  pure 0

/-- `cmd_reboot`. -/
def cmdReboot : DeviceCmd Nat := do
  logLine "reboot: scheduled weekly reboot starting now"
  let rebooting ← askDevice .systemctlReboot
  pure (if rebooting then 0 else 1)

example : issuerHost (some "SSO_ISSUER='https://sso.example.test:8443/a'\nSSO_CLIENT_SECRET=b\n".toList) =
    "sso.example.test".toList := by decide

example : issuerHost (some "SSO_CLIENT_SECRET=b\n".toList) = defaultIssuerHost := by decide

/-! ## What the commands leave alone -/

open Prog

def ownUnits : List String := appUnit :: "pi-wg-helperd" :: resolved :: serverTunnels.map tunnelUnit

/-- The operations of the three commands. -/
def DeviceOp.OfUpkeep : DeviceOp → Prop
  | .disk .port | .disk (.curl _) | .disk (.log _) => True
  | .disk _ => False
  | .restartUnit unit => unit ∈ ownUnits
  | _ => True

section
variable {N : DeviceOp → Prop}

theorem only_askDevice {o : DeviceOp} (h : N o) : Only N (askDevice o) := ⟨h, fun _ => trivial⟩

theorem only_warnAndRestart (hlog : ∀ text, N (.disk (.log text))) {unit : String}
    (h : N (.restartUnit unit)) (warning : String) : Only N (warnAndRestart warning unit) := by
  refine Only.bind (only_askDevice (hlog _)) fun _ => Only.bind (only_askDevice h) fun restarted => ?_
  split
  · trivial
  · exact only_askDevice (hlog _)

theorem only_checkUnits {units : List String} (h : ∀ unit ∈ units, unit ∈ ownUnits) :
    Only DeviceOp.OfUpkeep (checkUnits units) := by
  induction units with
  | nil => trivial
  | cons unit units ih =>
    have hunit : unit ∈ ownUnits := h unit List.mem_cons_self
    have hcheck : Only DeviceOp.OfUpkeep (checkUnit unit) := by
      refine Only.bind (only_askDevice trivial) fun active => ?_
      split
      · trivial
      · exact only_warnAndRestart (fun _ => trivial) hunit _
    exact Only.bind hcheck fun _ => ih fun u hu => h u (List.mem_cons_of_mem unit hu)

theorem only_checkTunnels {tunnels : List String} (h : ∀ tunnel ∈ tunnels, tunnelUnit tunnel ∈ ownUnits) :
    Only DeviceOp.OfUpkeep (checkTunnels tunnels) := by
  induction tunnels with
  | nil => trivial
  | cons tunnel tunnels ih =>
    have hunit : tunnelUnit tunnel ∈ ownUnits := h tunnel List.mem_cons_self
    have hcheck : Only DeviceOp.OfUpkeep (checkTunnel tunnel) := by
      refine Only.bind (only_askDevice trivial) fun enabled => ?_
      split
      · refine Only.bind (only_askDevice trivial) fun active => ?_
        split
        · trivial
        · exact only_warnAndRestart (fun _ => trivial) hunit _
      · trivial
    exact Only.bind hcheck fun _ => ih fun u hu => h u (List.mem_cons_of_mem tunnel hu)

theorem only_restartResolver (host : Text) : Only DeviceOp.OfUpkeep (restartResolver host) := by
  have hresolved : resolved ∈ ownUnits := by simp [ownUnits]
  refine Only.bind (only_askDevice trivial) fun active => ?_
  split
  · exact Only.bind (only_askDevice trivial) fun _ => Only.bind (only_askDevice hresolved) fun _ =>
      only_askDevice trivial
  · trivial

theorem only_checkIssuer (host : Text) : Only DeviceOp.OfUpkeep (checkIssuer host) := by
  refine Only.bind (only_askDevice trivial) fun found => ?_
  split
  · trivial
  · refine Only.bind (only_restartResolver host) fun _ => Only.bind (only_askDevice trivial) fun found' => ?_
    split
    · trivial
    · exact only_askDevice trivial

theorem only_checkApp : Only DeviceOp.OfUpkeep checkApp := by
  have happ : appUnit ∈ ownUnits := List.mem_cons_self
  refine Only.bind (only_askDevice trivial) fun port => Only.bind (only_askDevice trivial) fun code => ?_
  dsimp only
  split
  · trivial
  · exact only_warnAndRestart (fun _ => trivial) happ _

theorem only_cmdHealth : Only DeviceOp.OfUpkeep cmdHealth := by
  have hunits : ∀ unit ∈ [appUnit, "pi-wg-helperd"], unit ∈ ownUnits := by simp [ownUnits]
  have htunnels : ∀ tunnel ∈ serverTunnels, tunnelUnit tunnel ∈ ownUnits := by simp [ownUnits, serverTunnels]
  exact Only.bind (only_checkUnits hunits) fun _ => Only.bind (only_checkTunnels htunnels) fun _ =>
    Only.bind (only_askDevice trivial) fun _ => Only.bind (only_checkIssuer _) fun _ =>
    Only.bind only_checkApp fun _ => trivial

theorem only_cmdCleanup : Only DeviceOp.OfUpkeep cmdCleanup :=
  Only.bind (only_askDevice trivial) fun _ => Only.bind (only_askDevice trivial) fun _ =>
    Only.bind (only_askDevice trivial) fun _ => trivial

theorem only_cmdReboot : Only DeviceOp.OfUpkeep cmdReboot :=
  Only.bind (only_askDevice trivial) fun _ => Only.bind (only_askDevice trivial) fun _ => trivial

end

section
variable {env : DeviceOutcomes} {d : Device}

theorem deviceHandler_disk (env : DeviceOutcomes) :
    (deviceHandler env).Extends (handler env.base) (fun _ x => x) Device.disk (f := DeviceOp.disk) := by
  intro o d
  cases o <;> exact ⟨rfl, rfl⟩

/-- Of the disk only the package cache changes, and that only to be emptied. -/
structure Spared (d d' : Disk) : Prop where
  state : d'.state = d.state
  snapshots : d'.snapshots = d.snapshots
  installed : d'.installed = d.installed
  events : d'.events = d.events
  cache : d'.cache = d.cache ∨ d'.cache = []

theorem spared_of_upkeep {o : DeviceOp} (h : o.OfUpkeep) : Spared d.disk (deviceHandler env o d).2.disk := by
  cases o with
  | disk o =>
    cases o with
    | port | curl | log => exact ⟨rfl, rfl, rfl, rfl, .inl rfl⟩
    | _ => exact h.elim
  | aptClean =>
    change Spared d.disk ((if env.cleaned then _ else d : Device).after 1).disk
    split
    · exact ⟨rfl, rfl, rfl, rfl, .inr rfl⟩
    · exact ⟨rfl, rfl, rfl, rfl, .inl rfl⟩
  | systemctlReboot =>
    change Spared d.disk ((if env.reboots then _ else d : Device).after 1).disk
    split <;> exact ⟨rfl, rfl, rfl, rfl, .inl rfl⟩
  | _ => exact ⟨rfl, rfl, rfl, rfl, .inl rfl⟩

end

end Maintenance
