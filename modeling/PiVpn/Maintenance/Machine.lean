import PiVpn.Lib.Dict
import PiVpn.Lib.Program
import PiVpn.Lib.Text
import PiVpn.Lib.Transition

/-! What the package maintenance of the device works on: the keys of its own in the
state file, the snapshots of packages, the package cache and what is installed. -/

namespace Maintenance
open Text Effect

/-! ## Packages -/

/-- The characters of a package's name. -/
def isNameChar (c : Char) : Bool := c.isLower || c.isDigit || c = '+' || c = '-' || c = '.'

structure PackageName where
  text : Text
  plain : text.all isNameChar = true
  deriving DecidableEq

/-- A package file; its name is made of the three parts. -/
structure Deb where
  package : PackageName
  version : Text
  arch : Text
  deriving DecidableEq

/-- A colon of the version is escaped in the file name. -/
def escapeColon (v : Text) : Text := v.flatMap fun c => if c = ':' then ['%', '3', 'a'] else [c]

def Deb.fileName (d : Deb) : Text :=
  d.package.text ++ '_' :: (escapeColon d.version ++ '_' :: (d.arch ++ ['.', 'd', 'e', 'b']))

/-- `find -name "${pkg%%:*}_*.deb"`. -/
def globMatches (base : Text) (d : Deb) : Bool := (base ++ ['_']).isPrefixOf d.fileName

/-- `${pkg%%:*}`. -/
def baseOf (pkg : Text) : Text := pkg.takeWhile (· ≠ ':')

/-- `${pkgver%%=*}`. -/
def nameOf (pkgver : Text) : Text := pkgver.takeWhile (· ≠ '=')

/-- Co-installed architectures of a package share one version. -/
abbrev Installed := List (PackageName × Text)

def Installed.version (i : Installed) (name : Text) : Option Text :=
  (i.find? (·.1.text = name)).map Prod.snd

/-- `dpkg-query -W -f='${Version}'`: the package is named with or without its
architecture. -/
def Installed.query (i : Installed) (pkg : Text) : Option Text :=
  if pkg.all fun c => isNameChar c || c = ':' then i.version (baseOf pkg) else none

/-! ## The disk -/

/-- One directory under `pkg-backups`. -/
structure Snapshot where
  dir : Text
  pkgnames : Option (List Text)
  packages : Option (List Text)
  debs : List Deb
  deriving DecidableEq

structure Alert where
  reason : String
  reverted : List Text
  unavailable : List Text
  deriving DecidableEq

/-- What the history of the device keeps: an update put on record, with the list of
packages beside it, and a reboot asked for, with the pending update of that moment. -/
inductive Event where
  | recorded (dir : Text) (packages : Option (List Text))
  | rebooted (pending : Text)
  deriving DecidableEq

structure Disk where
  state : List (String × Text)
  /-- The most recent first. -/
  snapshots : List Snapshot
  cache : List Deb
  installed : Installed
  alerts : List Alert
  log : List String
  events : List Event
  tick : Nat
  deriving DecidableEq

def pendingKey : String := "pending_update_backup"
def attemptedKey : String := "rollback_attempted"

/-- `state_get`: a missing key reads as the empty text. -/
def Disk.get (d : Disk) (key : String) : Text := (d.state.lookup key).getD []

def Disk.unset (d : Disk) (key : String) : Disk := { d with state := Dict.pop d.state key }

def Disk.set (d : Disk) (key : String) (value : Text) : Disk :=
  { d with state := Dict.put d.state key value }

@[simp] theorem Disk.get_set_self (d : Disk) (key : String) (v : Text) : (d.set key v).get key = v := by
  simp [Disk.get, Disk.set]

@[simp] theorem Disk.get_unset_self (d : Disk) (key : String) : (d.unset key).get key = [] := by
  simp [Disk.get, Disk.unset]

theorem Disk.get_set_ne (d : Disk) {key k : String} (v : Text) (h : k ≠ key) :
    (d.set key v).get k = d.get k := by
  rw [Disk.get, Disk.set, Dict.lookup_put_ne _ _ h, Disk.get]

theorem Disk.get_unset_ne (d : Disk) {key k : String} (h : k ≠ key) :
    (d.unset key).get k = d.get k := by
  rw [Disk.get, Disk.unset, Dict.lookup_pop_ne _ h, Disk.get]

def Disk.snapshot (d : Disk) (dir : Text) : Option Snapshot := d.snapshots.find? (·.dir = dir)

/-- Change one directory. -/
def Disk.within (d : Disk) (dir : Text) (f : Snapshot → Snapshot) : Disk :=
  { d with snapshots := d.snapshots.map fun s => if s.dir = dir then f s else s }

/-! ## What a command asks -/

inductive Op where
  | port
  | curl (port : Text)
  | restart
  | stateGet (key : String)
  | stateSet (key : String) (value : Text)
  | stateUnset (key : String)
  | isFile (dir : Text)
  | packages (dir : Text)
  | findIn (dir base : Text)
  | aptInstall (deb : Deb)
  | alert (a : Alert)
  | log (text : String)
  | reboot
  | aptUpdate
  | date
  | mkdir (dir : Text)
  | simulate
  | removeAll (dir : Text)
  | writePkgnames (dir : Text) (names : List Text)
  | startPackages (dir : Text)
  | dpkgQuery (pkg : Text)
  | appendPackage (dir line : Text)
  | copyDebs (base dir : Text)
  | removePkgnames (dir : Text)
  | rmdir (dir : Text)
  | prune
  | fullUpgrade
  | rebootRequired
  | hasPip
  | pipInstall
  | pipOutdated

/-- The simulation yields the lines of its plan, or fails. -/
abbrev Op.Answer : Op → Type
  | .port => Text
  | .curl _ => Text
  | .stateGet _ => Text
  | .isFile _ => Bool
  | .packages _ => List Text
  | .findIn _ _ => List Deb
  | .aptInstall _ => Bool
  | .aptUpdate => Bool
  | .date => Text
  | .simulate => Option (List Text)
  | .dpkgQuery _ => Option Text
  | .fullUpgrade => Bool
  | .rebootRequired => Bool
  | .hasPip => Bool
  | .pipInstall => Bool
  | .pipOutdated => Text
  | _ => Unit

abbrev Sys : Signature := ⟨Op, Op.Answer⟩

abbrev Cmd (α : Type) := Prog Sys Empty α

def ask (o : Op) : Cmd o.Answer := Prog.perform (S := Sys) o

/-! ## The machine -/

/-- How everything outside the script turns out in one run; what is asked again and again
may turn out otherwise each time. A directory is listed in an order of its own. What apt does
to the packages and to its cache is up to apt. -/
structure Outcomes where
  port : Text
  curl : Nat → Text → Text
  aptInstall : Nat → Deb → Installed → List Deb → Bool × Installed × List Deb
  aptUpdate : Bool
  stamp : Text
  plan : Option (List Text)
  order : List Deb → List Deb
  fullUpgrade : Installed → List Deb → Bool × Installed × List Deb
  rebootRequired : Bool
  hasPip : Bool
  pipInstall : Bool
  pipOutdated : Text

def backupsDir : Text := "/etc/pi-config-ui/monitor/pkg-backups/".toList

def emptySnapshot (dir : Text) : Snapshot := ⟨dir, none, none, []⟩

def Disk.mkdir (d : Disk) (dir : Text) : Disk :=
  if (d.snapshot dir).isSome then d else { d with snapshots := emptySnapshot dir :: d.snapshots }

def Disk.removeAll (d : Disk) (dir : Text) : Disk :=
  { d with snapshots := d.snapshots.filter (·.dir ≠ dir) }

/-- `rmdir` removes an empty directory only. -/
def Disk.rmdir (d : Disk) (dir : Text) : Disk :=
  { d with snapshots := d.snapshots.filter fun s => !(s = emptySnapshot dir) }

/-- Only the two most recent directories stay. -/
def Disk.prune (d : Disk) : Disk := { d with snapshots := d.snapshots.take 2 }

/-- `find ... -exec cp`: a file that is there already is written again. -/
def copyMatching (base : Text) (cache debs : List Deb) : List Deb :=
  debs ++ (cache.filter (globMatches base)).filter fun d => !debs.contains d

def Disk.record (d : Disk) (dir : Text) : Disk :=
  { d with events := d.events ++ [.recorded dir ((d.snapshot dir).bind Snapshot.packages)] }

/-- What an operation answers and does. -/
def answer (env : Outcomes) : (o : Op) → Disk → o.Answer × Disk
  | .port, d => (env.port, d)
  | .curl port, d => (env.curl d.tick port, d)
  | .restart, d => ((), d)
  | .stateGet key, d => (d.get key, d)
  | .stateSet key value, d =>
    ((), if key = pendingKey then (d.set key value).record value else d.set key value)
  | .stateUnset key, d => ((), d.unset key)
  | .isFile dir, d => (((d.snapshot dir).bind Snapshot.packages).isSome, d)
  | .packages dir, d => (((d.snapshot dir).bind Snapshot.packages).getD [], d)
  | .findIn dir base, d =>
    ((env.order (((d.snapshot dir).map Snapshot.debs).getD [])).filter (globMatches base), d)
  | .aptInstall deb, d =>
    let r := env.aptInstall d.tick deb d.installed d.cache
    (r.1, { d with installed := r.2.1, cache := r.2.2 })
  | .alert a, d => ((), { d with alerts := d.alerts ++ [a] })
  | .log text, d => ((), { d with log := d.log ++ [text] })
  | .reboot, d => ((), { d with events := d.events ++ [.rebooted (d.get pendingKey)] })
  | .aptUpdate, d => (env.aptUpdate, d)
  | .date, d => (env.stamp, d)
  | .mkdir dir, d => ((), d.mkdir dir)
  | .simulate, d => (env.plan, d)
  | .removeAll dir, d => ((), d.removeAll dir)
  | .writePkgnames dir names, d => ((), d.within dir fun s => { s with pkgnames := some names })
  | .startPackages dir, d => ((), d.within dir fun s => { s with packages := some [] })
  | .dpkgQuery pkg, d => (d.installed.query pkg, d)
  | .appendPackage dir line, d =>
    ((), d.within dir fun s => { s with packages := s.packages.map (· ++ [line]) })
  | .copyDebs base dir, d =>
    ((), d.within dir fun s => { s with debs := copyMatching base d.cache s.debs })
  | .removePkgnames dir, d => ((), d.within dir fun s => { s with pkgnames := none })
  | .rmdir dir, d => ((), d.rmdir dir)
  | .prune, d => ((), d.prune)
  | .fullUpgrade, d =>
    let r := env.fullUpgrade d.installed d.cache
    (r.1, { d with installed := r.2.1, cache := r.2.2 })
  | .rebootRequired, d => (env.rebootRequired, d)
  | .hasPip, d => (env.hasPip, d)
  | .pipInstall, d => (env.pipInstall, d)
  | .pipOutdated, d => (env.pipOutdated, d)

/-- Time goes on with every operation. -/
def handler (env : Outcomes) : Prog.Handler Sys Disk := fun o d =>
  ((answer env o d).1, { (answer env o d).2 with tick := d.tick + 1 })

def execute {α : Type} (env : Outcomes) (c : Cmd α) (d : Disk) : Except Empty α × Disk :=
  c.exec (handler env) d

/-- The first `n` operations of a run, cut off there. -/
def cutOff {α : Type} (env : Outcomes) (n : Nat) (c : Cmd α) (d : Disk) : Disk :=
  c.cutOff (handler env) n d

section
variable {α β : Type} {env : Outcomes}

@[simp] theorem execute_pure (a : α) (d : Disk) : execute env (pure a) d = (.ok a, d) := rfl

@[simp] theorem execute_ask (o : Op) (d : Disk) :
    execute env (ask o) d = (.ok (handler env o d).1, (handler env o d).2) := rfl

@[simp] theorem execute_ask_bind (o : Op) (f : o.Answer → Cmd β) (d : Disk) :
    execute env (ask o >>= f) d = execute env (f (handler env o d).1) (handler env o d).2 := rfl

/-- No command raises: the second part starts where the first one ends. -/
theorem execute_bind {c : Cmd α} {f : α → Cmd β} {d d' : Disk} {a : α}
    (h : execute env c d = (.ok a, d')) : execute env (c >>= f) d = execute env (f a) d' :=
  Prog.exec_bind_of_ok h

theorem execute_ok (env : Outcomes) (c : Cmd α) (d : Disk) : ∃ a d', execute env c d = (.ok a, d') := by
  rcases h : execute env c d with ⟨e | a, d'⟩
  · exact e.elim
  · exact ⟨a, d', rfl⟩

end

end Maintenance
