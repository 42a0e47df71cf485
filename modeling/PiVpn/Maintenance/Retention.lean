import PiVpn.Maintenance.Snapshots

/-! Whether the snapshot of a pending update outlives the pruning. A run without anything
to upgrade leaves a directory behind, so two of them in a row push the snapshot out. -/

namespace Maintenance
open Text Effect Prog Transition

/-- A run goes to its end. -/
abbrev Run := Job × Outcomes

def step (r : Run) (d : Disk) : Option Disk := some (Occasion.run ⟨r.1, r.2, none⟩ d)

/-- The update put on record last, with the list of packages written for it. -/
def lastRecord (events : List Event) : Option (Text × Option (List Text)) :=
  events.reverse.findSome? fun
    | .recorded dir packages => some (dir, packages)
    | .rebooted _ => none

/-- The directory of a pending update is there, with the list of packages written for it. -/
def PendingKept (d : Disk) : Prop :=
  d.get pendingKey ≠ [] → ∃ s ∈ d.snapshot (d.get pendingKey), s.packages.isSome ∧
    lastRecord d.events = some (d.get pendingKey, s.packages)

instance (d : Disk) : Decidable (PendingKept d) := inferInstanceAs (Decidable (_ → _))

/-- Directories are told apart by the run that makes them. -/
def OwnDirectory (r : Run) (d : Disk) : Prop := r.1 = .osUpdate → d.snapshot r.2.dir = none

instance (r : Run) (d : Disk) : Decidable (OwnDirectory r d) := inferInstanceAs (Decidable (_ → _))

/-- A run without anything to upgrade comes only while the snapshot of the pending update
is the most recent directory. -/
def SparesPending (r : Run) (d : Disk) : Prop :=
  r.1 = .osUpdate → r.2.planned = some [] →
    d.get pendingKey = [] ∨ d.snapshots.head?.map Snapshot.dir = some (d.get pendingKey)

instance (r : Run) (d : Disk) : Decidable (SparesPending r d) :=
  inferInstanceAs (Decidable (_ → _ → _))

variable {d d' : Disk} {env : Outcomes}

theorem lastRecord_recorded (events : List Event) (dir : Text) (packages : Option (List Text)) :
    lastRecord (events ++ [.recorded dir packages]) = some (dir, packages) := by
  simp [lastRecord]

theorem lastRecord_rebooted (events : List Event) (pending : Text) :
    lastRecord (events ++ [.rebooted pending]) = lastRecord events := by
  simp [lastRecord]

theorem PendingKept.of_sameStore (hd : PendingKept d) (h : SameStore d d') : PendingKept d' := by
  intro hp
  rw [h.get] at hp ⊢
  rw [h.snapshot, h.events]
  exact hd hp

/-! ## A boot check -/

/-- All that a boot check does to the store: a pending update may be confirmed. -/
structure Confirmed (d d' : Disk) : Prop where
  snapshots : d'.snapshots = d.snapshots
  record : lastRecord d'.events = lastRecord d.events
  pending : d'.get pendingKey = d.get pendingKey ∨ d'.get pendingKey = []

theorem PendingKept.of_confirmed (hd : PendingKept d) (h : Confirmed d d') : PendingKept d' := by
  intro hp
  have hsame : d'.get pendingKey = d.get pendingKey := h.pending.resolve_right hp
  rw [hsame] at hp ⊢
  rw [Disk.snapshot, h.snapshots, h.record]
  exact hd hp

/-- The operations of a boot check. -/
def Op.OfBootCheck : Op → Prop
  | .stateSet key _ => key = attemptedKey
  | .stateUnset _ | .reboot => True
  | o => o.Outside

theorem Op.Outside.ofBootCheck {o : Op} (h : o.Outside) : o.OfBootCheck := by
  cases o with
  | stateSet => exact h.elim
  | stateUnset | reboot => trivial
  | _ => exact h

theorem Confirmed.after {o : Op} {s : Disk} (hd : Confirmed d s) (ho : o.OfBootCheck) :
    Confirmed d (handler env o s).2 := by
  cases o with
  | stateSet key value =>
    obtain rfl : key = attemptedKey := ho
    have hother : attemptedKey ≠ pendingKey := by decide
    have hget := Disk.get_set_ne s value hother.symm
    simp only [handler, answer, if_neg hother]
    exact ⟨hd.snapshots, hd.record, hget ▸ hd.pending⟩
  | stateUnset key =>
    refine ⟨hd.snapshots, hd.record, ?_⟩
    by_cases hkey : pendingKey = key
    · subst hkey
      exact .inr (Disk.get_unset_self s _)
    · have hget := Disk.get_unset_ne s hkey
      exact hget ▸ hd.pending
  | reboot => exact ⟨hd.snapshots, (lastRecord_rebooted _ _).trans hd.record, hd.pending⟩
  | mkdir | removeAll | writePkgnames | startPackages | appendPackage | copyDebs | removePkgnames
  | rmdir | prune => exact ho.elim
  | _ => exact ⟨hd.snapshots, hd.record, hd.pending⟩

theorem only_cmdBootCheck : Only Op.OfBootCheck cmdBootCheck := by
  have hask : ∀ {o : Op}, o.OfBootCheck → Only Op.OfBootCheck (ask o) := fun h => only_ask h
  have hpoll : ∀ port n, Only Op.OfBootCheck (pollHealthy port n) := fun port n =>
    only_pollHealthy (fun _ => trivial) port n
  have hconfirm : ∀ pending, Only Op.OfBootCheck (confirmUpdate pending) := by
    intro pending
    rw [confirmUpdate]
    split
    · exact Only.bind (hask trivial) fun _ => hask trivial
    · trivial
  have hgiveUp : Only Op.OfBootCheck giveUp := only_log _ trivial
  refine Only.bind (hask trivial) fun port => Only.bind (hpoll _ _) fun healthy =>
    Only.bind (hask trivial) fun pending => ?_
  split
  · refine Only.bind (hconfirm _) fun _ => ?_
    split
    · exact only_log _ trivial
    · trivial
  · refine Only.bind (only_log _ trivial) fun _ => Only.bind (hask trivial) fun _ =>
      Only.bind (hpoll _ _) fun restartHealthy => ?_
    split
    · exact Only.bind (only_log _ trivial) fun _ => hconfirm _
    -- the rollback where it is due, and the alert alone where it is not
    · have hdue : ∀ due : Bool, Only Op.OfBootCheck (if due then rollback pending
          else ask (.alert ⟨noRollbackReason, [], []⟩) >>= fun _ => giveUp) := by
        intro due
        split
        · refine Only.bind (only_log _ trivial) fun _ => Only.bind (hask trivial) fun lines =>
            Only.bind ((only_rollbackPackages _ _).mono fun _ => Op.Outside.ofBootCheck) fun r =>
            Only.bind (hask rfl) fun _ => Only.bind (hask trivial) fun _ => ?_
          split
          · exact Only.bind (only_log _ trivial) fun _ => hask trivial
          · exact hgiveUp
        · exact Only.bind (hask trivial) fun _ => hgiveUp
      refine Only.bind (hask trivial) fun attempted => ?_
      dsimp only
      split
      · exact Only.bind (hask trivial) hdue
      · exact hdue false

theorem cmdBootCheck_confirmed (d : Disk) : Confirmed d (execute env cmdBootCheck d).2 :=
  (leaves_of_only only_cmdBootCheck (fun _ _ ho hs => hs.after ho) ⟨rfl, rfl, .inl rfl⟩).exec

/-! ## Whole histories -/

/-- The most recent directory outlives one more. -/
theorem snapshot_push_head {s : Snapshot} {dir : Text} (hs : s.dir ≠ dir)
    (hhead : d.snapshots.head?.map Snapshot.dir = some dir) :
    (d.push s).prune.snapshot dir = d.snapshot dir := by
  cases hsn : d.snapshots with
  | nil => simp [hsn] at hhead
  | cons s₀ rest =>
    have hdir : s₀.dir = dir := by simpa [hsn] using hhead
    simp [Disk.snapshot, Disk.push, Disk.prune, hsn, hs, hdir]

theorem updated_pendingKept (hown : d.snapshot env.dir = none)
    (hspare : env.planned = some [] →
      d.get pendingKey = [] ∨ d.snapshots.head?.map Snapshot.dir = some (d.get pendingKey))
    (hd : PendingKept d) : PendingKept (updated env d) := by
  cases hplan : env.planned with
  | none =>
    rw [updated, hplan]
    exact hd
  | some pkgs =>
    cases pkgs with
    | nil =>
      -- the directory left behind takes the first place, the pending one the second
      rw [updated, hplan]
      intro hp
      have hhead := (hspare hplan).resolve_left hp
      have hkept := hd hp
      have hother : (newSnapshot env d []).dir ≠ d.get pendingKey := by
        obtain ⟨s, hs, -⟩ := hkept
        rintro hdir
        rw [← hdir] at hs
        exact absurd (hs.symm.trans hown) (by simp)
      rw [← snapshot_push_head hother hhead] at hkept
      exact hkept
    | cons pkg pkgs =>
      intro _
      have hrec := updated_onRecord (t := d) hplan
      rw [hrec.pending, hrec.events, lastRecord_recorded]
      exact ⟨_, hrec.snapshot, rfl, rfl⟩

theorem step_pendingKept {r : Run} (hown : OwnDirectory r d) (hspare : SparesPending r d)
    (hstep : step r d = some d') (hd : PendingKept d) : PendingKept d' := by
  obtain ⟨job, env⟩ := r
  obtain rfl := Option.some.inj hstep
  cases job with
  | bootCheck => exact hd.of_confirmed (cmdBootCheck_confirmed d)
  | osUpdate =>
    exact (updated_pendingKept (hown rfl) (hspare rfl) hd).of_sameStore (cmdOsUpdate_store (hown rfl))

/-- Runs that spare the snapshot of the pending update leave it where a rollback finds it. -/
theorem runs_keep_pending {runs : List Run} (hown : Along step OwnDirectory runs d)
    (hspare : Along step SparesPending runs d) (hrun : steps step runs d = some d')
    (hd : PendingKept d) : PendingKept d' :=
  (hown.and hspare).invariant (fun _ _ _ hr hstep => step_pendingKept hr.1 hr.2 hstep) hrun hd

def tzdata : PackageName := ⟨"tzdata".toList, by decide⟩

def sampleDisk : Disk where
  state := []
  snapshots := []
  cache := []
  installed := [(tzdata, "2024a".toList)]
  alerts := []
  log := []
  events := []
  tick := 0

/-- An installation that succeeds, and changes that package alone. -/
def plainInstall (deb : Deb) (installed : Installed) (cache : List Deb) : Bool × Installed × List Deb :=
  (true, (deb.package, deb.version) :: installed.filter (·.1 ≠ deb.package), cache)

/-- Everything succeeds, and the application answers. -/
def sampleOutcomes (stamp : String) (plan : List String) : Outcomes where
  port := []
  curl _ _ := "303".toList
  aptInstall _ := plainInstall
  aptUpdate := true
  stamp := stamp.toList
  plan := some (plan.map String.toList)
  order debs := debs
  fullUpgrade installed cache := (true, installed, cache)
  rebootRequired := false
  hasPip := false
  pipInstall := true
  pipOutdated := []

/-- One update on record and one run without anything to upgrade. -/
def sampleRuns : List Run :=
  [(.osUpdate, sampleOutcomes "20240101T030000Z" ["Inst tzdata [2024a] (2024b)"]),
    (.osUpdate, sampleOutcomes "20240108T030000Z" [])]

theorem sample_runs_keep_pending :
    ∃ d, steps step sampleRuns sampleDisk = some d ∧ d.get pendingKey ≠ [] ∧ PendingKept d := by
  have hrun : steps step sampleRuns sampleDisk = some _ := rfl
  exact ⟨_, hrun, by decide +kernel,
    runs_keep_pending (by decide +kernel) (by decide +kernel) hrun (by decide)⟩

/-- After one more the snapshot is gone, and the update still pending. -/
theorem second_empty_run_drops_pending :
    ¬ ∀ (runs : List Run) (d d' : Disk), Along step OwnDirectory runs d →
      steps step runs d = some d' → PendingKept d → PendingKept d' := by
  intro h
  let runs : List Run := sampleRuns ++ [(.osUpdate, sampleOutcomes "20240115T030000Z" [])]
  have hrun : steps step runs sampleDisk = some _ := rfl
  have hkept := h runs sampleDisk _ (by decide +kernel) hrun (by decide)
  exact absurd hkept (by decide +kernel)

end Maintenance
