import PiVpn.Lib.Exclusive
import PiVpn.Maintenance.BootHealth
import PiVpn.Maintenance.Health
import PiVpn.Maintenance.Reboots

/-! The lock that the jobs of the device share. Whenever they are started, and wherever they
are killed, they leave the device as if they had run one after the other. -/

namespace Maintenance
open Text Effect Prog

/-! ## The jobs under the lock -/

inductive LockedJob where
  | health
  | cleanup
  | osUpdate
  | reboot
  | bootCheck
  deriving DecidableEq

/-- The seconds that a job waits for the lock. -/
def LockedJob.wait : LockedJob → Nat
  | .reboot => 7200
  | _ => 0

/-- The command of a job, with its exit status. -/
def LockedJob.command : LockedJob → DeviceCmd Nat
  | .health => cmdHealth
  | .cleanup => cmdCleanup
  | .osUpdate => onDisk cmdOsUpdate
  | .reboot => cmdReboot
  | .bootCheck => onDisk (cmdBootCheck >>= fun _ => Prog.pure 0)

abbrev DeviceTask := Exclusive.Task DeviceSys Empty Nat Device
abbrev DeviceEvent := Exclusive.Event DeviceSys Empty Nat Device
abbrev DeviceSystem := Exclusive.System DeviceSys Empty Nat Device
abbrev DeviceTurn := Exclusive.Turn DeviceSys Empty Nat Device

def runSystemLocked (job : LockedJob) (env : DeviceOutcomes) : DeviceTask :=
  ⟨job.command, deviceHandler env, job.wait⟩

/-- Only the jobs of the script are started. -/
def OfScript (es : List DeviceEvent) : Prop :=
  ∀ task, .start task ∈ es → ∃ job env, task = runSystemLocked job env

/-! ## One after the other -/

structure LockedOccasion where
  job : LockedJob
  outcomes : DeviceOutcomes
  powerLoss : Option Nat

def LockedOccasion.run (o : LockedOccasion) (d : Device) : Device :=
  match o.powerLoss with
  | none => (o.job.command.exec (deviceHandler o.outcomes) d).2
  | some n => o.job.command.cutOff (deviceHandler o.outcomes) n d

def runLocked (os : List LockedOccasion) (d : Device) : Device := os.foldl (fun d o => o.run d) d

/-- The exit status of a job that runs to its end. -/
def LockedOccasion.status (o : LockedOccasion) (d : Device) : Except Empty Nat :=
  (o.job.command.exec (deviceHandler o.outcomes) d).1

/-- The turn of a process is such an occasion. -/
def Plays (t : DeviceTurn) (o : LockedOccasion) : Prop :=
  t.task = runSystemLocked o.job o.outcomes ∧ t.cut = o.powerLoss

/-- Every process that had the lock played its occasion, in the order of the list. -/
structure OneByOne (d : Device) (s : DeviceSystem) (os : List LockedOccasion) : Prop where
  turns : List.Forall₂ Plays s.history os
  device : s.shared = runLocked os d
  outcome : ∀ {i : Nat} {task : DeviceTask} {r}, s.processes[i]? = some ⟨task, .ended r⟩ → ∃ before o rest,
    os = before ++ o :: rest ∧ task = runSystemLocked o.job o.outcomes ∧ o.powerLoss = none ∧
      r = o.status (runLocked before d)
  exclusive : ∀ {i j : Nat} {task task' : DeviceTask} {done done' rest rest'},
    s.processes[i]? = some ⟨task, .inside done rest⟩ → s.processes[j]? = some ⟨task', .inside done' rest'⟩ → i = j

section
variable {d : Device} {s : DeviceSystem} {es : List DeviceEvent}

theorem Plays.run {t : DeviceTurn} {o : LockedOccasion} (h : Plays t o) (d : Device) : t.run d = o.run d := by
  obtain ⟨htask, hcut⟩ := h
  rw [Exclusive.Turn.run, LockedOccasion.run, htask, hcut]
  rfl

theorem runTurns_of_plays {ts : List DeviceTurn} {os : List LockedOccasion} (h : List.Forall₂ Plays ts os)
    (d : Device) : Exclusive.runTurns ts d = runLocked os d := by
  induction h generalizing d with
  | nil => rfl
  | cons hto _ ih =>
    have hfirst := hto.run d
    exact (congrArg (Exclusive.runTurns _) hfirst).trans (ih _)

theorem exists_plays {ts : List DeviceTurn} (h : ∀ t ∈ ts, ∃ job env, t.task = runSystemLocked job env) :
    ∃ os, List.Forall₂ Plays ts os := by
  induction ts with
  | nil => exact ⟨[], .nil⟩
  | cons t ts ih =>
    obtain ⟨job, env, htask⟩ := h t List.mem_cons_self
    obtain ⟨os, hos⟩ := ih fun t' ht' => h t' (List.mem_cons_of_mem t ht')
    exact ⟨⟨job, env, t.cut⟩ :: os, .cons ⟨htask, rfl⟩ hos⟩

theorem plays_split {before after : List DeviceTurn} {t : DeviceTurn} {os : List LockedOccasion}
    (h : List.Forall₂ Plays (before ++ t :: after) os) :
    ∃ os₁ o os₂, os = os₁ ++ o :: os₂ ∧ List.Forall₂ Plays before os₁ ∧ Plays t o := by
  induction before generalizing os with
  | nil =>
    cases h with
    | cons hto hafter => exact ⟨[], _, _, rfl, .nil, hto⟩
  | cons t' before ih =>
    cases h with
    | cons hto hrest =>
      obtain ⟨os₁, o, os₂, rfl, hbefore, ho⟩ := ih hrest
      exact ⟨_ :: os₁, o, os₂, rfl, .cons hto hbefore, ho⟩

theorem locked_runs_one_by_one (hes : OfScript es) (hrun : Exclusive.run es d = some s) :
    ∃ os, OneByOne d s os := by
  have hserial := Exclusive.serial_of_run hrun
  have htasks := hserial.history_of_all (Exclusive.all_of_run hes hrun)
  obtain ⟨os, hos⟩ := exists_plays htasks
  have hdevice : s.shared = runLocked os d := by
    rw [hserial.shared_eq]
    exact runTurns_of_plays hos d
  refine ⟨os, hos, hdevice, fun {i task r} hi => ?_, fun hi hj => hserial.exclusive hi hj⟩
  obtain ⟨before, hbefore, hr⟩ := hserial.outcome hi
  obtain ⟨after, hafter⟩ := hbefore.trans (List.prefix_append s.turns s.current.toList)
  have hhistory : s.history = before ++ ⟨i, task, none⟩ :: after := by
    rw [Exclusive.System.history, ← hafter, List.append_assoc, List.singleton_append]
  obtain ⟨os₁, o, os₂, rfl, hos₁, htask, hcut⟩ := plays_split (hhistory ▸ hos)
  refine ⟨os₁, o, os₂, rfl, htask, hcut.symm, ?_⟩
  rw [hr, runTurns_of_plays hos₁, show task = _ from htask]
  rfl

end

/-- Everything the script asks for succeeds, and every unit runs. -/
def smoothOutcomes (base : Outcomes) : DeviceOutcomes where
  base := base
  active _ _ := true
  enabled _ _ := true
  restarts _ _ := true
  ssoEnv := none
  resolves _ _ := true
  vacuumed := true
  cleaned := true
  reboots := true

/-- The weekly reboot waits for a health check, an update is turned away in the meantime, and
the health check is killed. -/
def sampleSchedule : List DeviceEvent :=
  let env := smoothOutcomes quietOutcomes
  [.start (runSystemLocked .health env), .enter 0, .act 0, .start (runSystemLocked .reboot env), .elapse 60,
    .start (runSystemLocked .osUpdate env), .refuse 2, .act 0, .kill 0, .enter 1, .act 1, .act 1, .leave 1]

def quietDevice : Device := ⟨quietDisk, [], 0⟩

theorem ofScript_sampleSchedule : OfScript sampleSchedule := by
  intro task htask
  simp only [sampleSchedule, List.mem_cons, Exclusive.Event.start.injEq, reduceCtorEq, false_or, or_false,
    List.not_mem_nil] at htask
  rcases htask with rfl | rfl | rfl <;> exact ⟨_, _, rfl⟩

theorem sample_schedule_runs_one_by_one :
    ∃ s, Exclusive.run sampleSchedule quietDevice = some s ∧ ∃ os, OneByOne quietDevice s os := by
  have hrun : Exclusive.run sampleSchedule quietDevice = some _ := rfl
  exact ⟨_, hrun, locked_runs_one_by_one ofScript_sampleSchedule hrun⟩

/-! ## What every job keeps -/

section
variable {d : Device} {s : DeviceSystem} {es : List DeviceEvent} {env : DeviceOutcomes}

/-- At every point of a command, and at its end. -/
abbrev KeepsDevice {α : Type} (I : Device → Prop) (env : DeviceOutcomes) (c : DeviceCmd α) (d : Device) : Prop :=
  Upholds (deviceHandler env).world I (fun _ d => I d) c d

theorem keeps_of_only {α : Type} {N : DeviceOp → Prop} {I : Device → Prop} {c : DeviceCmd α} (hc : Only N c)
    (hstep : ∀ o d, N o → I d → I (deviceHandler env o d).2) (hd : I d) : KeepsDevice I env c d := by
  refine hc.upholds (fun o d x d' ho hd hw => ?_) hd
  have hd' := hstep o d ho hd
  rwa [show deviceHandler env o d = (x, d') from hw] at hd'

theorem keeps_onDisk {α : Type} {I : Disk → Prop} {c : Cmd α}
    (h : Upholds (handler env.base).world I (fun _ d => I d) c d.disk) :
    KeepsDevice (fun d => I d.disk) env (onDisk c) d :=
  h.lift (deviceHandler_disk env)

end

end Maintenance
