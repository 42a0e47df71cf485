import PiVpn.Maintenance.Machine

/-! The two commands that share the snapshots: `os-update` takes one before it upgrades,
and `boot-check` confirms the update or falls back on it. -/

namespace Maintenance
open Text Effect

def stateGet (key : String) : Cmd Text := ask (.stateGet key)
def stateSet (key : String) (value : Text) : Cmd Unit := ask (.stateSet key value)
def stateUnset (key : String) : Cmd Unit := ask (.stateUnset key)
def log (text : String) : Cmd Unit := ask (.log text)

/-- `${value:-default}`. -/
def orDefault (value default : Text) : Text := if value = [] then default else value

/-! ## Taking a snapshot -/

def isBlank (c : Char) : Bool := c = ' ' || c = '\t'

/-- `awk '/^Inst/ {print $2}'`. -/
def instNames (plan : List Text) : List Text :=
  (plan.filter fun line => ['I', 'n', 's', 't'].isPrefixOf line).map fun line =>
    (((line.splitOnP isBlank).filter (· ≠ [])).drop 1).headD []

def pkgLine (pkg version : Text) : Text := pkg ++ '=' :: version

/-- The loop over the planned packages. -/
def snapshotPackages (dir : Text) : List Text → Cmd Unit
  | [] => pure ()
  | pkg :: pkgs => do
    match ← ask (.dpkgQuery pkg) with
    | none => snapshotPackages dir pkgs
    | some version => do
      ask (.appendPackage dir (pkgLine pkg version))
      ask (.copyDebs (baseOf pkg) dir)
      snapshotPackages dir pkgs

/-- The best-effort snapshot; whether the plan could be made. -/
def takeSnapshot (dir : Text) : Cmd Bool := do
  ask (.mkdir dir)
  match ← ask .simulate with
  | none => do
    log "ERROR: os-update: safe full-upgrade simulation failed or requires package removal"
    ask (.removeAll dir)
    pure false
  | some plan => do
    ask (.writePkgnames dir (instNames plan))
    match instNames plan with
    | [] => ask (.rmdir dir)
    | pkg :: pkgs => do
      ask (.startPackages dir)
      snapshotPackages dir (pkg :: pkgs)
      ask (.removePkgnames dir)
      stateSet pendingKey dir
      stateSet attemptedKey ['0']
      log "os-update: snapshotted packages before upgrading"
    pure true

/-- The pinned packages of the application, synchronised again; the exit status. -/
def pipSync : Cmd Nat := do
  if ← ask .hasPip then do
    let synced ← ask .pipInstall
    log (if synced then "os-update: pip deps re-synced to requirements.txt pins"
      else "ERROR: os-update: pip sync failed")
    let outdated ← ask .pipOutdated
    if outdated ≠ [] then log "WARNING: os-update: newer versions available upstream" else pure ()
    pure (if synced then 0 else 1)
  else do
    log "os-update: no venv, skipping pip sync"
    pure 0

/-- The upgrade itself, once the snapshot is taken. -/
def upgrade : Cmd Nat := do
  if ← ask .fullUpgrade then do
    log "os-update: apt update/upgrade completed"
    if ← ask .rebootRequired then
      log "WARNING: os-update: a reboot is required to complete this update"
    else pure ()
    pipSync
  else do
    log "ERROR: os-update: safe full-upgrade failed"
    pure 1

/-- `cmd_os_update`; its exit status. -/
def cmdOsUpdate : Cmd Nat := do
  if ← ask .aptUpdate then do
    let stamp ← ask .date
    if ← takeSnapshot (backupsDir ++ stamp) then do
      ask .prune
      upgrade
    else pure 1
  else do
    log "ERROR: os-update: apt-get update failed"
    pure 1

/-! ## After a boot -/

def healthCode (code : Text) : Bool := code = ['3', '0', '3'] || code = ['2', '0', '0']

/-- Ask up to `n` times. -/
def pollHealthy (port : Text) : Nat → Cmd Bool
  | 0 => pure false
  | n + 1 => do
    let code ← ask (.curl port)
    if healthCode (orDefault code ['0', '0', '0']) then pure true else pollHealthy port n

def installFailed : Text := " (found .deb but install failed)".toList
def noDeb : Text := " (no cached .deb to revert to)".toList

/-- The loop over the recorded packages: what was reverted, and what was not. -/
def rollbackPackages (pending : Text) : List Text → Cmd (List Text × List Text)
  | [] => pure ([], [])
  | pkgver :: rest =>
    if pkgver = [] then rollbackPackages pending rest
    else do
      let found ← ask (.findIn pending (baseOf (nameOf pkgver)))
      match found with
      | [] => do
        let (reverted, unavailable) ← rollbackPackages pending rest
        pure (reverted, (pkgver ++ noDeb) :: unavailable)
      | deb :: _ => do
        if ← ask (.aptInstall deb) then do
          let (reverted, unavailable) ← rollbackPackages pending rest
          pure (pkgver :: reverted, unavailable)
        else do
          let (reverted, unavailable) ← rollbackPackages pending rest
          pure (reverted, (pkgver ++ installFailed) :: unavailable)

def confirmUpdate (pending : Text) : Cmd Unit :=
  if pending ≠ [] then do
    stateUnset pendingKey
    stateUnset attemptedKey
  else pure ()

def rollbackReason : String :=
  "pi-config-ui failed its post-update health check; attempted package rollback"

def noRollbackReason : String :=
  "pi-config-ui failed its post-boot health check; no safe automatic rollback available (no pending update to blame, or already attempted once)"

def giveUp : Cmd Unit :=
  log "ERROR: boot-check: pi-config-ui still unhealthy and no further automatic action will be taken — manual intervention required"

/-- The rollback, once it is due. -/
def rollback (pending : Text) : Cmd Unit := do
  log "WARNING: boot-check: still unhealthy — attempting package rollback"
  let lines ← ask (.packages pending)
  let (reverted, unavailable) ← rollbackPackages pending lines
  stateSet attemptedKey ['1']
  ask (.alert ⟨rollbackReason, reverted, unavailable⟩)
  if reverted ≠ [] then do
    log "boot-check: reverted packages, rebooting to apply"
    ask .reboot
  else giveUp

/-- `cmd_boot_check`. -/
def cmdBootCheck : Cmd Unit := do
  let port ← ask .port
  let port := orDefault port ['4', '4', '3']
  let healthy ← pollHealthy port 18
  let pending ← stateGet pendingKey
  if healthy then do
    confirmUpdate pending
    if pending ≠ [] then log "boot-check: healthy — confirming last update as good" else pure ()
  else do
    log "WARNING: boot-check: pi-config-ui not healthy after boot, attempting restart"
    ask .restart
    let restartHealthy ← pollHealthy port 9
    if restartHealthy then do
      log "boot-check: recovered after restart"
      confirmUpdate pending
    else do
      let alreadyAttempted ← stateGet attemptedKey
      let due ← if pending ≠ [] ∧ alreadyAttempted ≠ ['1'] then ask (.isFile pending) else pure false
      if due then rollback pending
      else do
        ask (.alert ⟨noRollbackReason, [], []⟩)
        giveUp

/-! ## The jobs of the device -/

inductive Job where
  | bootCheck
  | osUpdate
  deriving DecidableEq

/-- A job with what it meets; it runs to its end, or the power goes after some of its
operations. -/
structure Occasion where
  job : Job
  outcomes : Outcomes
  powerLoss : Option Nat

def runCmd {α : Type} (env : Outcomes) (powerLoss : Option Nat) (c : Cmd α) (d : Disk) : Disk :=
  match powerLoss with
  | none => (execute env c d).2
  | some n => cutOff env n c d

def Occasion.run (o : Occasion) (d : Disk) : Disk :=
  match o.job with
  | .bootCheck => runCmd o.outcomes o.powerLoss cmdBootCheck d
  | .osUpdate => runCmd o.outcomes o.powerLoss cmdOsUpdate d

def runAll (os : List Occasion) (d : Disk) : Disk := os.foldl (fun d o => o.run d) d

end Maintenance
