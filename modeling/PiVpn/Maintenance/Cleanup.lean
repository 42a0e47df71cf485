import PiVpn.Maintenance.Retention
import PiVpn.Maintenance.SystemLock

/-! The weekly cleaning empties the package cache that the next update copies its old
packages from. A boot check after that update has nothing to fall back on. -/

namespace Maintenance
open Text Effect Prog

/-! ## A snapshot taken from an empty cache -/

/-- The directory holds no package file. -/
def Bare (dir : Text) (d : Disk) : Prop := ∀ s ∈ d.snapshots, s.dir = dir → s.debs = []

def Op.NoUpgrade : Op → Prop
  | .fullUpgrade => False
  | _ => True

/-- apt is not asked to install anything. -/
def Op.NoApt : Op → Prop
  | .fullUpgrade | .aptInstall _ => False
  | _ => True

/-- What a rollback installs comes out of its own file. -/
def Outcomes.DownloadsNothing (env : Outcomes) : Prop :=
  ∀ n deb installed, (env.aptInstall n deb installed []).2.2 = []

def Op.NoCopy : Op → Prop
  | .copyDebs _ _ => False
  | _ => True

section
variable {env : Outcomes} {dir : Text} {d d' : Disk} {o : Op}

theorem cache_of_noApt (h : o.NoApt) : (handler env o d).2.cache = d.cache := by
  cases o with
  | fullUpgrade | aptInstall => exact h.elim
  | stateSet | mkdir =>
    simp only [handler, answer, Disk.mkdir]
    split <;> rfl
  | _ => rfl

theorem empty_of_noUpgrade (henv : env.DownloadsNothing) (h : o.NoUpgrade) (hd : d.cache = []) :
    (handler env o d).2.cache = [] := by
  cases o with
  | fullUpgrade => exact h.elim
  | aptInstall deb =>
    change (env.aptInstall d.tick deb d.installed d.cache).2.2 = []
    rw [hd]
    exact henv _ _ _
  | _ =>
    refine (cache_of_noApt ?_).trans hd
    trivial

theorem Bare.of_subset (h : Bare dir d) (hsub : d'.snapshots ⊆ d.snapshots) : Bare dir d' :=
  fun s hs => h s (hsub hs)

theorem Bare.within (h : Bare dir d) {dir' : Text} {f : Snapshot → Snapshot}
    (hsnapshots : d'.snapshots = (d.within dir' f).snapshots) (hdir : ∀ s, (f s).dir = s.dir)
    (hdebs : ∀ s, s.debs = [] → (f s).debs = []) : Bare dir d' := by
  intro s hs hsdir
  rw [hsnapshots] at hs
  obtain ⟨s', hs', rfl⟩ := List.mem_map.mp hs
  split at hsdir
  · next hs'dir =>
    rw [if_pos hs'dir]
    exact hdebs s' (h s' hs' ((hdir s').symm.trans hsdir))
  · next hs'dir =>
    rw [if_neg hs'dir]
    exact h s' hs' hsdir

theorem Bare.noCopy (h : Bare dir d) (ho : o.NoCopy) : Bare dir (handler env o d).2 := by
  cases o with
  | copyDebs => exact ho.elim
  | mkdir dir' =>
    simp only [handler, answer, Disk.mkdir]
    split
    · exact h
    · intro s hs hsdir
      rcases List.mem_cons.mp hs with rfl | hs
      · rfl
      · exact h s hs hsdir
  | stateSet =>
    simp only [handler, answer]
    split <;> exact h
  | removeAll | rmdir => exact h.of_subset (List.filter_subset_self _)
  | prune => exact h.of_subset (List.take_subset _ _)
  | writePkgnames dir' | startPackages dir' | appendPackage dir' | removePkgnames dir' =>
    exact h.within rfl (fun _ => rfl) fun _ => id
  | _ => exact h

theorem Bare.noApt (h : Bare dir d ∧ d.cache = []) (ho : o.NoApt) :
    Bare dir (handler env o d).2 ∧ (handler env o d).2.cache = [] := by
  refine ⟨?_, (cache_of_noApt ho).trans h.2⟩
  cases o with
  | copyDebs base dir' =>
    have hcopied : ∀ debs, copyMatching base d.cache debs = debs := by
      intro debs
      rw [copyMatching, h.2, List.filter_nil, List.filter_nil, List.append_nil]
    exact h.1.within rfl (fun _ => rfl) fun s hs => (hcopied s.debs).trans hs
  | _ => exact h.1.noCopy trivial

theorem only_takeSnapshot_noApt (dir : Text) : Only Op.NoApt (takeSnapshot dir) := by
  refine Only.bind (only_ask trivial) fun _ => Only.bind (only_ask trivial) fun plan => ?_
  cases plan with
  | none => exact Only.bind (only_log _ trivial) fun _ => Only.bind (only_ask trivial) fun _ => trivial
  | some plan =>
    refine Only.bind (only_ask trivial) fun _ => ?_
    cases instNames plan with
    | nil => exact Only.bind (only_ask trivial) fun _ => trivial
    | cons pkg pkgs =>
      have hloop : Only Op.NoApt (snapshotPackages dir (pkg :: pkgs)) :=
        only_snapshotPackages (fun _ => trivial) (fun _ => trivial) (fun _ => trivial) _
      exact Only.bind (only_ask trivial) fun _ => Only.bind hloop fun _ => Only.bind (only_ask trivial) fun _ =>
        Only.bind (only_ask trivial) fun _ => Only.bind (only_ask trivial) fun _ =>
        Only.bind (only_log _ trivial) fun _ => trivial

/-- Wherever an update from an empty cache is cut off, its directory holds no package file. -/
theorem bare_cmdOsUpdate (h : Bare dir d ∧ d.cache = []) :
    Upholds (handler env).world (Bare dir) (fun _ d => Bare dir d) cmdOsUpdate d := by
  have hempty : ∀ {α : Type} {c : Cmd α} {d : Disk}, Only Op.NoApt c → Bare dir d ∧ d.cache = [] →
      Upholds (handler env).world (Bare dir) (fun _ d => Bare dir d ∧ d.cache = []) c d := by
    intro α c d hc hd
    have hkeep := hc.upholds (W := (handler env).world) (I := fun d => Bare dir d ∧ d.cache = [])
      (fun o d x d' ho hd hw => by
        have hd' : Bare dir (handler env o d).2 ∧ (handler env o d).2.cache = [] := Bare.noApt hd ho
        rwa [show handler env o d = (x, d') from hw] at hd') hd
    exact hkeep.weaken fun _ hd => hd.1
  have hbare : ∀ {α : Type} {c : Cmd α} {d : Disk}, Only Op.NoCopy c → Bare dir d →
      Upholds (handler env).world (Bare dir) (fun _ d => Bare dir d) c d := by
    intro α c d hc hd
    refine hc.upholds (fun o d x d' ho hd hw => ?_) hd
    have hd' : Bare dir (handler env o d).2 := hd.noCopy ho
    rwa [show handler env o d = (x, d') from hw] at hd'
  have hout : ∀ o, Op.Outside o → Op.NoCopy o := by
    intro o ho
    cases o with
    | copyDebs => exact ho
    | _ => trivial
  have haptUpdate : Only Op.NoApt (ask .aptUpdate) := only_ask trivial
  have hdate : Only Op.NoApt (ask .date) := only_ask trivial
  refine Upholds.bind ((hempty haptUpdate h).mono fun r d₁ h₁ => ?_)
  cases r with
  | error e => exact e.elim
  | ok updated =>
    dsimp only
    split
    · refine Upholds.bind ((hempty hdate h₁).mono fun r d₂ h₂ => ?_)
      cases r with
      | error e => exact e.elim
      | ok stamp =>
        refine Upholds.bind ((hempty (only_takeSnapshot_noApt _) h₂).mono fun r d₃ h₃ => ?_)
        cases r with
        | error e => exact e.elim
        | ok planned =>
          dsimp only
          split
          · exact hbare (Only.bind (only_ask trivial) fun _ => only_upgrade.mono hout) h₃.1
          · exact ⟨h₃.1, h₃.1⟩
    · exact hbare (Only.bind (only_log _ trivial) fun _ => trivial) h₁.1

end

/-! ## A boot check with nothing to fall back on -/

/-- The boot checks since `t` have changed no package, have asked for no reboot, and have
reported no package as reverted. -/
structure Stuck (dir : Text) (t d : Disk) : Prop where
  pending : d.get pendingKey = dir ∨ d.get pendingKey = []
  bare : Bare dir d
  installed : d.installed = t.installed
  events : d.events = t.events
  alerts : ∀ a ∈ d.alerts, a ∈ t.alerts ∨ a.reverted = []

def Op.Still : Op → Prop
  | .port | .curl _ | .restart | .stateGet _ | .stateUnset _ | .isFile _ | .packages _ | .findIn _ _
  | .log _ => True
  | .stateSet key _ => key = attemptedKey
  | .alert a => a.reverted = []
  | _ => False

abbrev KeepsStuck {α : Type} (env : Outcomes) (dir : Text) (t : Disk) (c : Cmd α) (d : Disk) : Prop :=
  Upholds (handler env).world (Stuck dir t) (fun _ d => Stuck dir t d) c d

section
variable {env : Outcomes} {dir : Text} {t d : Disk} {α β : Type}

theorem Stuck.still {o : Op} (h : Stuck dir t d) (ho : o.Still) : Stuck dir t (handler env o d).2 := by
  cases o with
  | stateSet key value =>
    have hkey : key = attemptedKey := ho
    have hother : key ≠ pendingKey := by rw [hkey]; decide
    simp only [handler, answer, if_neg hother]
    have hget : (d.set key value).get pendingKey = d.get pendingKey := Disk.get_set_ne d value hother.symm
    exact ⟨hget ▸ h.pending, h.bare, h.installed, h.events, h.alerts⟩
  | stateUnset key =>
    refine ⟨?_, h.bare, h.installed, h.events, h.alerts⟩
    by_cases hkey : pendingKey = key
    · subst hkey
      exact .inr (Disk.get_unset_self d _)
    · have hget : (d.unset key).get pendingKey = d.get pendingKey := Disk.get_unset_ne d hkey
      exact hget ▸ h.pending
  | alert a =>
    refine ⟨h.pending, h.bare, h.installed, h.events, fun a' ha' => ?_⟩
    rcases List.mem_append.mp ha' with ha' | ha'
    · exact h.alerts a' ha'
    · rw [List.mem_singleton.mp ha']
      exact .inr ho
  | port | curl | restart | stateGet | isFile | packages | findIn | log =>
    exact ⟨h.pending, h.bare, h.installed, h.events, h.alerts⟩
  | _ => exact ho.elim

theorem keepsStuck_of_only {c : Cmd α} (hc : Only Op.Still c) (h : Stuck dir t d) : KeepsStuck env dir t c d := by
  refine hc.upholds (fun o s x s' ho hs hw => ?_) h
  have hs' : Stuck dir t (handler env o s).2 := hs.still ho
  rwa [show handler env o s = (x, s') from hw] at hs'

theorem KeepsStuck.bind {c : Cmd α} {f : α → Cmd β} (h : KeepsStuck env dir t c d)
    (hf : ∀ a d', Stuck dir t d' → KeepsStuck env dir t (f a) d') : KeepsStuck env dir t (c >>= f) d := by
  refine Upholds.bind (h.mono fun r d' hd' => ?_)
  cases r with
  | error e => exact e.elim
  | ok a => exact hf a d' hd'

/-- The listing of a bare directory is empty, so nothing is found to put back. -/
theorem stuck_rollbackPackages (horder : ∀ debs, env.order debs ⊆ debs) (lines : List Text)
    (h : Stuck dir t d) :
    Upholds (handler env).world (Stuck dir t) (fun r d => Stuck dir t d ∧ ∀ p, r = .ok p → p.1 = [])
      (rollbackPackages dir lines) d := by
  induction lines generalizing d with
  | nil => exact ⟨h, h, fun p hp => by rw [← Except.ok.inj hp]⟩
  | cons line lines ih =>
    rw [rollbackPackages]
    split
    · exact ih h
    · refine ⟨h, fun found d' hw => ?_⟩
      have hd' : Stuck dir t d' := by
        have hs : Stuck dir t (handler env (.findIn dir (baseOf (nameOf line))) d).2 := h.still trivial
        rwa [show handler env _ d = (found, d') from hw] at hs
      have hdebs : ((d.snapshot dir).map Snapshot.debs).getD [] = [] := by
        cases hs : d.snapshot dir with
        | none => rfl
        | some s =>
          have hdir : s.dir = dir := by simpa using List.find?_some hs
          exact h.bare s (List.mem_of_find?_eq_some hs) hdir
      have hnone : env.order [] = [] := List.eq_nil_of_subset_nil (horder [])
      have hfound : found = [] := by
        rw [← show _ = found from congrArg Prod.fst hw]
        simp only [handler, answer, hdebs, hnone, List.filter_nil]
      subst hfound
      change Upholds _ _ _ (rollbackPackages dir lines >>= _) d'
      refine Upholds.bind ((ih hd').mono fun r d'' hr => ?_)
      cases r with
      | error e => exact e.elim
      | ok p =>
        refine ⟨hr.1, hr.1, fun q hq => ?_⟩
        rw [← Except.ok.inj hq]
        exact hr.2 p rfl

theorem stuck_rollback (horder : ∀ debs, env.order debs ⊆ debs) (h : Stuck dir t d) :
    KeepsStuck env dir t (rollback dir) d := by
  refine (keepsStuck_of_only (only_log _ trivial) h).bind fun _ d₁ h₁ =>
    (keepsStuck_of_only (c := ask (.packages dir)) (only_ask trivial) h₁).bind fun lines d₂ h₂ => ?_
  refine Upholds.bind ((stuck_rollbackPackages horder lines h₂).mono fun r d₃ h₃ => ?_)
  cases r with
  | error e => exact e.elim
  | ok p =>
    obtain ⟨reverted, unavailable⟩ := p
    have hnone : reverted = [] := h₃.2 _ rfl
    subst hnone
    exact keepsStuck_of_only (Only.bind (only_ask rfl) fun _ => Only.bind (only_ask rfl) fun _ =>
      only_log _ trivial) h₃.1

theorem only_confirm (pending : Text) : Only Op.Still (confirmUpdate pending) := by
  rw [confirmUpdate]
  split
  · exact Only.bind (only_ask trivial) fun _ => only_ask trivial
  · trivial

theorem stuck_cmdBootCheck (horder : ∀ debs, env.order debs ⊆ debs) (h : Stuck dir t d) :
    KeepsStuck env dir t cmdBootCheck d := by
  have hpoll : ∀ port n, Only Op.Still (pollHealthy port n) := fun port n =>
    only_pollHealthy (fun _ => trivial) port n
  refine (keepsStuck_of_only (c := ask .port) (only_ask trivial) h).bind fun port d₁ h₁ =>
    (keepsStuck_of_only (hpoll _ _) h₁).bind fun healthy d₂ h₂ => ⟨h₂, fun pending d₃ hw => ?_⟩
  have h₃ : Stuck dir t d₃ := by
    have hs : Stuck dir t (handler env (.stateGet pendingKey) d₂).2 := h₂.still trivial
    rwa [show handler env _ d₂ = (pending, d₃) from hw] at hs
  have hpending : pending = dir ∨ pending = [] := by
    rw [← show d₂.get pendingKey = pending from congrArg Prod.fst hw]
    exact h₂.pending
  split
  · refine (keepsStuck_of_only (only_confirm pending) h₃).bind fun _ d₄ h₄ => keepsStuck_of_only ?_ h₄
    split
    · exact only_log _ trivial
    · trivial
  · refine (keepsStuck_of_only (only_log _ trivial) h₃).bind fun _ d₄ h₄ =>
      (keepsStuck_of_only (c := ask .restart) (only_ask trivial) h₄).bind fun _ d₅ h₅ =>
      (keepsStuck_of_only (hpoll _ _) h₅).bind fun restartHealthy d₆ h₆ => ?_
    split
    · exact keepsStuck_of_only (Only.bind (only_log _ trivial) fun _ => only_confirm pending) h₆
    · refine (keepsStuck_of_only (c := stateGet attemptedKey) (only_ask trivial) h₆).bind fun attempted d₇ h₇ => ?_
      have hgiveUp : ∀ d, Stuck dir t d →
          KeepsStuck env dir t (ask (.alert ⟨noRollbackReason, [], []⟩) >>= fun _ => giveUp) d := fun d hd =>
        keepsStuck_of_only (Only.bind (only_ask rfl) fun _ => only_log _ trivial) hd
      dsimp only
      split
      · next hdue =>
        refine (keepsStuck_of_only (c := ask (.isFile pending)) (only_ask trivial) h₇).bind fun isFile d₈ h₈ => ?_
        split
        · rw [hpending.resolve_right hdue.1]
          exact stuck_rollback horder h₈
        · exact hgiveUp d₈ h₈
      · exact hgiveUp d₇ h₇

end

/-! ## Between the cleaning and the update -/

theorem only_rollbackPackages_noUpgrade (pending : Text) (lines : List Text) :
    Only Op.NoUpgrade (rollbackPackages pending lines) := by
  induction lines with
  | nil => trivial
  | cons line lines ih =>
    rw [rollbackPackages]
    split
    · exact ih
    · refine Only.bind (only_ask trivial) fun found => ?_
      cases found with
      | nil => exact ih.bind fun _ => trivial
      | cons deb debs =>
        refine Only.bind (only_ask trivial) fun ok => ?_
        split <;> exact ih.bind fun _ => trivial

theorem Op.Still.noUpgrade {o : Op} (h : o.Still) : o.NoUpgrade := by
  cases o with
  | fullUpgrade => exact h
  | _ => trivial

theorem only_cmdBootCheck_noUpgrade : Only Op.NoUpgrade cmdBootCheck := by
  have hpoll : ∀ port n, Only Op.NoUpgrade (pollHealthy port n) := fun port n =>
    only_pollHealthy (fun _ => trivial) port n
  have hconfirm : ∀ pending, Only Op.NoUpgrade (confirmUpdate pending) := fun pending =>
    (only_confirm pending).mono fun _ => Op.Still.noUpgrade
  have hgiveUp : Only Op.NoUpgrade (ask (.alert ⟨noRollbackReason, [], []⟩) >>= fun _ => giveUp) :=
    Only.bind (only_ask trivial) fun _ => only_log _ trivial
  have hrollback : ∀ pending, Only Op.NoUpgrade (rollback pending) := by
    intro pending
    refine Only.bind (only_log _ trivial) fun _ => Only.bind (only_ask trivial) fun lines =>
      Only.bind (only_rollbackPackages_noUpgrade _ _) fun r => Only.bind (only_ask trivial) fun _ =>
      Only.bind (only_ask trivial) fun _ => ?_
    split
    · exact Only.bind (only_log _ trivial) fun _ => only_ask trivial
    · exact only_log _ trivial
  refine Only.bind (only_ask trivial) fun port => Only.bind (hpoll _ _) fun healthy =>
    Only.bind (only_ask trivial) fun pending => ?_
  split
  · refine Only.bind (hconfirm _) fun _ => ?_
    split
    · exact only_log _ trivial
    · trivial
  · refine Only.bind (only_log _ trivial) fun _ => Only.bind (only_ask trivial) fun _ =>
      Only.bind (hpoll _ _) fun restartHealthy => ?_
    split
    · exact Only.bind (only_log _ trivial) fun _ => hconfirm _
    · refine Only.bind (only_ask trivial) fun attempted => ?_
      dsimp only
      split
      · refine Only.bind (only_ask trivial) fun isFile => ?_
        split
        · exact hrollback pending
        · exact hgiveUp
      · exact hgiveUp

section
variable {dir : Text} {t : Disk} {d : Device} {env : DeviceOutcomes} {job : LockedJob}
  {I : Device → Prop} {os : List LockedOccasion}

theorem run_of_keeps {o : LockedOccasion} (h : KeepsDevice I o.outcomes o.job.command d) : I (o.run d) := by
  rw [LockedOccasion.run]
  split
  · exact h.exec
  · exact h.cutOff _

theorem runLocked_of_keeps (hos : ∀ o ∈ os, ∀ d, I d → KeepsDevice I o.outcomes o.job.command d) (hd : I d) :
    I (runLocked os d) := by
  induction os generalizing d with
  | nil => exact hd
  | cons o os ih =>
    have hfirst := run_of_keeps (hos o List.mem_cons_self d hd)
    exact ih (fun o' ho' => hos o' (List.mem_cons_of_mem o ho')) hfirst

/-- The cache stays empty until the next update. -/
theorem keepsEmpty_locked (hjob : job ≠ .osUpdate) (henv : env.base.DownloadsNothing)
    (hd : d.disk.cache = []) :
    KeepsDevice (fun d => d.disk.cache = []) env job.command d := by
  have hupkeep : ∀ o (d : Device), DeviceOp.OfUpkeep o → d.disk.cache = [] →
      (deviceHandler env o d).2.disk.cache = [] := by
    intro o d ho hd
    rcases (spared_of_upkeep ho).cache with h | h
    · exact h.trans hd
    · exact h
  cases job with
  | osUpdate => exact absurd rfl hjob
  | health => exact keeps_of_only only_cmdHealth hupkeep hd
  | cleanup => exact keeps_of_only only_cmdCleanup hupkeep hd
  | reboot => exact keeps_of_only only_cmdReboot hupkeep hd
  | bootCheck =>
    have hcheck : Only Op.NoUpgrade (cmdBootCheck >>= fun _ => Prog.pure 0) :=
      only_cmdBootCheck_noUpgrade.bind fun _ => trivial
    refine keeps_onDisk (I := fun d => d.cache = []) (hcheck.upholds (fun o s x s' ho hs hw => ?_) hd)
    have hs' : (handler env.base o s).2.cache = [] := empty_of_noUpgrade henv ho hs
    rwa [show handler env.base o s = (x, s') from hw] at hs'

theorem Stuck.spared {d d' : Disk} (h : Stuck dir t d) (hd : Spared d d') (halerts : d'.alerts = d.alerts) :
    Stuck dir t d' := by
  have hget : d'.get pendingKey = d.get pendingKey := by rw [Disk.get, Disk.get, hd.state]
  refine ⟨hget ▸ h.pending, ?_, hd.installed.trans h.installed, hd.events.trans h.events, halerts ▸ h.alerts⟩
  rw [Bare, hd.snapshots]
  exact h.bare

theorem alerts_of_upkeep {o : DeviceOp} (h : o.OfUpkeep) :
    (deviceHandler env o d).2.disk.alerts = d.disk.alerts := by
  cases o with
  | disk o =>
    cases o with
    | port | curl | log => rfl
    | _ => exact h.elim
  | aptClean =>
    change ((if env.cleaned then _ else d : Device).after 1).disk.alerts = _
    split <;> rfl
  | systemctlReboot =>
    change ((if env.reboots then _ else d : Device).after 1).disk.alerts = _
    split <;> rfl
  | _ => rfl

theorem keepsStuck_locked (hjob : job ≠ .osUpdate) (horder : ∀ debs, env.base.order debs ⊆ debs)
    (hd : Stuck dir t d.disk) : KeepsDevice (fun d => Stuck dir t d.disk) env job.command d := by
  have hupkeep : ∀ o (d : Device), DeviceOp.OfUpkeep o → Stuck dir t d.disk →
      Stuck dir t (deviceHandler env o d).2.disk :=
    fun o d ho hd => hd.spared (spared_of_upkeep ho) (alerts_of_upkeep ho)
  cases job with
  | osUpdate => exact absurd rfl hjob
  | health => exact keeps_of_only only_cmdHealth hupkeep hd
  | cleanup => exact keeps_of_only only_cmdCleanup hupkeep hd
  | reboot => exact keeps_of_only only_cmdReboot hupkeep hd
  | bootCheck =>
    have hcheck : KeepsStuck env.base dir t (cmdBootCheck >>= fun _ => Prog.pure 0) d.disk :=
      (stuck_cmdBootCheck horder hd).bind fun _ d' hd' => ⟨hd', hd'⟩
    exact keeps_onDisk hcheck

theorem cleaned_run (henv : env.cleaned = true) :
    ((⟨.cleanup, env, none⟩ : LockedOccasion).run d).disk.cache = [] := by
  have haptClean : ∀ d : Device, (deviceHandler env .aptClean d).2.disk.cache = [] := by
    intro d
    change ((if env.cleaned then _ else d : Device).after 1).disk.cache = []
    rw [if_pos henv]
    rfl
  exact haptClean _

end

/-- The jobs from a cleaning on: others, an update that goes on record, and what follows it
before the next one. -/
structure AfterCleanup where
  clean : DeviceOutcomes
  between : List LockedOccasion
  update : DeviceOutcomes
  cut : Option Nat
  later : List LockedOccasion
  cleaned : clean.cleaned = true
  noUpdateBetween : ∀ o ∈ between, o.job ≠ .osUpdate
  noUpdateLater : ∀ o ∈ later, o.job ≠ .osUpdate
  downloadsNothing : ∀ o ∈ between, o.outcomes.base.DownloadsNothing
  listings : ∀ o ∈ later, ∀ debs, o.outcomes.base.order debs ⊆ debs

def AfterCleanup.before (w : AfterCleanup) (d : Device) : Device :=
  runLocked (⟨.cleanup, w.clean, none⟩ :: w.between) d

def AfterCleanup.updated (w : AfterCleanup) (d : Device) : Device :=
  (⟨.osUpdate, w.update, w.cut⟩ : LockedOccasion).run (w.before d)

def AfterCleanup.run (w : AfterCleanup) (d : Device) : Device := runLocked w.later (w.updated d)

/-- The update has a directory of its own, and is put on record before it ends or is cut off. -/
structure AfterCleanup.OnRecord (w : AfterCleanup) (d : Device) : Prop where
  fresh : (w.before d).disk.snapshot w.update.base.dir = none
  recorded : (w.updated d).disk.get pendingKey = w.update.base.dir

theorem AfterCleanup.stuck (w : AfterCleanup) {d : Device} (h : w.OnRecord d) :
    Stuck w.update.base.dir (w.updated d).disk (w.run d).disk := by
  have hclean : ((⟨.cleanup, w.clean, none⟩ : LockedOccasion).run d).disk.cache = [] := cleaned_run w.cleaned
  have hempty : (runLocked w.between ((⟨.cleanup, w.clean, none⟩ : LockedOccasion).run d)).disk.cache = [] :=
    runLocked_of_keeps (I := fun d => d.disk.cache = [])
      (fun o ho d hd => keepsEmpty_locked (w.noUpdateBetween o ho) (w.downloadsNothing o ho) hd) hclean
  have hnone : Bare w.update.base.dir (w.before d).disk := by
    intro s hs hdir
    exact absurd hdir (snapshot_eq_none.mp h.fresh s hs)
  have hbare : Bare w.update.base.dir (w.updated d).disk :=
    run_of_keeps (o := ⟨.osUpdate, w.update, w.cut⟩) (I := fun d => Bare _ d.disk)
      (keeps_onDisk (bare_cmdOsUpdate ⟨hnone, hempty⟩))
  have hstart : Stuck w.update.base.dir (w.updated d).disk (w.updated d).disk :=
    ⟨.inl h.recorded, hbare, rfl, rfl, fun a ha => .inl ha⟩
  exact runLocked_of_keeps (I := fun d => Stuck _ _ d.disk)
    (fun o ho d hd => keepsStuck_locked (w.noUpdateLater o ho) (w.listings o ho) hd) hstart

/-- After a cleaning the snapshot of the next update holds no package file, and no boot check
puts a package of that update back, or reboots. -/
theorem cleanup_voids_rollback (w : AfterCleanup) {d : Device} (h : w.OnRecord d) :
    (∀ s ∈ (w.run d).disk.snapshots, s.dir = w.update.base.dir → s.debs = []) ∧
      (w.run d).disk.installed = (w.updated d).disk.installed ∧
      (w.run d).disk.events = (w.updated d).disk.events ∧
      ∀ a ∈ (w.run d).disk.alerts, a ∈ (w.updated d).disk.alerts ∨ a.reverted = [] :=
  ⟨(w.stuck h).bare, (w.stuck h).installed, (w.stuck h).events, (w.stuck h).alerts⟩

def lostUpgradeBetween : List LockedOccasion :=
  [⟨.health, smoothOutcomes (sampleOutcomes "20240102T000000Z" []), none⟩]

theorem lostUpgrade_downloads : ∀ o ∈ lostUpgradeBetween, o.outcomes.base.DownloadsNothing := by
  intro o ho n deb installed
  obtain rfl := List.mem_singleton.mp ho
  rfl

/-- A package is upgraded after a cleaning, and the application does not come back. -/
def lostUpgrade : AfterCleanup where
  clean := smoothOutcomes (sampleOutcomes "20240101T040000Z" [])
  between := lostUpgradeBetween
  update := smoothOutcomes (sampleOutcomes "20240103T050000Z" ["Inst tzdata [2024a] (2024b)"])
  cut := none
  later := [⟨.bootCheck, smoothOutcomes { sampleOutcomes "" [] with curl := fun _ _ => "000".toList }, none⟩]
  cleaned := rfl
  noUpdateBetween := by simp [lostUpgradeBetween]
  noUpdateLater := by simp
  downloadsNothing := lostUpgrade_downloads
  listings := by simp [smoothOutcomes, sampleOutcomes]

def cachedDevice : Device :=
  ⟨{ sampleDisk with cache := [⟨tzdata, "2024a".toList, "all".toList⟩] }, [], 0⟩

theorem lost_upgrade_is_not_rolled_back :
    (∀ s ∈ (lostUpgrade.run cachedDevice).disk.snapshots, s.dir = lostUpgrade.update.base.dir → s.debs = []) ∧
      (lostUpgrade.run cachedDevice).disk.installed = (lostUpgrade.updated cachedDevice).disk.installed ∧
      (lostUpgrade.run cachedDevice).disk.events = (lostUpgrade.updated cachedDevice).disk.events ∧
      ∀ a ∈ (lostUpgrade.run cachedDevice).disk.alerts,
        a ∈ (lostUpgrade.updated cachedDevice).disk.alerts ∨ a.reverted = [] :=
  cleanup_voids_rollback lostUpgrade ⟨by decide +kernel, by decide +kernel⟩

end Maintenance
