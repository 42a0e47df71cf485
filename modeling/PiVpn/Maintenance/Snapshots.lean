import PiVpn.Maintenance.Updates

/-! What a complete run of each command leaves of the state file, of the snapshots and of
the history. -/

namespace Maintenance
open Text Effect Prog

/-- The part of the disk a rollback depends on. -/
structure SameStore (d d' : Disk) : Prop where
  state : d'.state = d.state
  snapshots : d'.snapshots = d.snapshots
  events : d'.events = d.events

variable {d d' d'' t : Disk} {env : Outcomes} {α β : Type}

theorem SameStore.refl : SameStore d d := ⟨rfl, rfl, rfl⟩

theorem SameStore.trans (h : SameStore d d') (h' : SameStore d' d'') : SameStore d d'' :=
  ⟨h'.state.trans h.state, h'.snapshots.trans h.snapshots, h'.events.trans h.events⟩

theorem SameStore.snapshot (h : SameStore d d') (dir : Text) : d'.snapshot dir = d.snapshot dir := by
  rw [Disk.snapshot, Disk.snapshot, h.snapshots]

theorem SameStore.get (h : SameStore d d') (key : String) : d'.get key = d.get key := by
  rw [Disk.get, Disk.get, h.state]

/-- The operations that leave it alone. -/
def Op.Outside : Op → Prop
  | .port | .curl _ | .restart | .stateGet _ | .isFile _ | .packages _ | .findIn _ _
  | .aptInstall _ | .alert _ | .log _ | .aptUpdate | .date | .simulate | .dpkgQuery _
  | .fullUpgrade | .rebootRequired | .hasPip | .pipInstall | .pipOutdated => True
  | _ => False

theorem handler_outside {o : Op} (d : Disk) (h : o.Outside) : SameStore d (handler env o d).2 := by
  cases o with
  | _ => first | exact ⟨rfl, rfl, rfl⟩ | exact h.elim

/-- What is true of the answer and the disk when the command is through. -/
def Leaves (env : Outcomes) (c : Cmd α) (d : Disk) (Q : α → Disk → Prop) : Prop :=
  ∃ a d', execute env c d = (.ok a, d') ∧ Q a d'

theorem leaves_of_only {N : Op → Prop} {I : Disk → Prop} {c : Cmd α} (hc : Only N c)
    (hstep : ∀ o s, N o → I s → I (handler env o s).2) (hd : I d) : Leaves env c d fun _ d' => I d' := by
  have hkeep : Upholds (handler env).world I (fun _ d' => I d') c d := by
    refine hc.upholds (fun o s x s' ho hs hw => ?_) hd
    have hn := hstep o s ho hs
    rwa [hw] at hn
  obtain ⟨a, d', hrun⟩ := execute_ok env c d
  have hend : I (execute env c d).2 := hkeep.exec
  rw [hrun] at hend
  exact ⟨a, d', hrun, hend⟩

theorem Leaves.exec {c : Cmd α} {I : Disk → Prop} (h : Leaves env c d fun _ d' => I d') :
    I (execute env c d).2 := by
  obtain ⟨a, d', hrun, hd'⟩ := h
  rw [hrun]
  exact hd'

theorem only_ask {N : Op → Prop} {o : Op} (h : N o) : Only N (ask o) := ⟨h, fun _ => trivial⟩

theorem only_log {N : Op → Prop} (text : String) (h : N (.log text)) : Only N (log text) := only_ask h

theorem only_pollHealthy {N : Op → Prop} (h : ∀ port, N (.curl port)) (port : Text) (n : ℕ) :
    Only N (pollHealthy port n) := by
  induction n with
  | zero => trivial
  | succ n ih =>
    refine Only.bind (only_ask (h port)) fun code => ?_
    split
    · trivial
    · exact ih

theorem only_snapshotPackages {N : Op → Prop} {dir : Text} (hquery : ∀ pkg, N (.dpkgQuery pkg))
    (happend : ∀ line, N (.appendPackage dir line)) (hcopy : ∀ base, N (.copyDebs base dir))
    (pkgs : List Text) : Only N (snapshotPackages dir pkgs) := by
  induction pkgs with
  | nil => trivial
  | cons pkg pkgs ih =>
    refine Only.bind (only_ask (hquery pkg)) fun version => ?_
    cases version with
    | none => exact ih
    | some version =>
      exact Only.bind (only_ask (happend _)) fun _ => Only.bind (only_ask (hcopy _)) fun _ => ih

theorem only_rollbackPackages (pending : Text) (lines : List Text) :
    Only Op.Outside (rollbackPackages pending lines) := by
  induction lines with
  | nil => trivial
  | cons line lines ih =>
    rw [rollbackPackages]
    split
    · exact ih
    · refine Only.bind (only_ask trivial) fun found => ?_
      cases found with
      | nil => exact ih.bind fun _ => trivial
      | cons deb debs =>
        refine Only.bind (only_ask trivial) fun ok => ?_
        split <;> exact ih.bind fun _ => trivial

theorem only_pipSync : Only Op.Outside pipSync := by
  refine Only.bind (only_ask trivial) fun pip => ?_
  split
  · refine Only.bind (only_ask trivial) fun synced => Only.bind (only_log _ trivial) fun _ =>
      Only.bind (only_ask trivial) fun outdated => ?_
    dsimp only
    split
    · exact Only.bind (only_log _ trivial) fun _ => trivial
    · trivial
  · exact Only.bind (only_log _ trivial) fun _ => trivial

/-! ## Taking a snapshot -/

/-- The lines of `packages.txt`. -/
def snapshotLines (installed : Installed) (pkgs : List Text) : List Text :=
  pkgs.filterMap fun pkg => (installed.query pkg).map (pkgLine pkg)

/-- The package files beside it. -/
def snapshotDebs (cache : List Deb) (installed : Installed) : List Text → List Deb → List Deb
  | [], debs => debs
  | pkg :: pkgs, debs =>
    if (installed.query pkg).isSome then
      snapshotDebs cache installed pkgs (copyMatching (baseOf pkg) cache debs)
    else snapshotDebs cache installed pkgs debs

def Snapshot.add (s : Snapshot) (lines : List Text) (debs : List Deb → List Deb) : Snapshot :=
  { s with packages := s.packages.map (· ++ lines), debs := debs s.debs }

theorem Snapshot.add_add (s : Snapshot) (lines lines' : List Text) (f g : List Deb → List Deb) :
    (s.add lines f).add lines' g = s.add (lines ++ lines') fun debs => g (f debs) := by
  cases hp : s.packages with
  | none => simp [Snapshot.add, hp]
  | some ps => simp [Snapshot.add, hp]

/-- One directory has grown; the rest is as before. -/
structure Grown (dir : Text) (f : Snapshot → Snapshot) (d d' : Disk) : Prop where
  state : d'.state = d.state
  snapshots : d'.snapshots = (d.within dir f).snapshots
  events : d'.events = d.events
  cache : d'.cache = d.cache
  installed : d'.installed = d.installed

theorem Grown.trans {dir : Text} {f g : Snapshot → Snapshot} (h : Grown dir f d d')
    (h' : Grown dir g d' d'') (hf : ∀ s, (f s).dir = s.dir) : Grown dir (fun s => g (f s)) d d'' where
  state := h'.state.trans h.state
  events := h'.events.trans h.events
  cache := h'.cache.trans h.cache
  installed := h'.installed.trans h.installed
  snapshots := by
    rw [h'.snapshots, Disk.within, h.snapshots, Disk.within, Disk.within]
    simp only [List.map_map]
    refine List.map_congr_left fun s _ => ?_
    by_cases hs : s.dir = dir
    · simp [hs, hf]
    · simp [hs]

theorem grown_of_map_id {dir : Text} {f : Snapshot → Snapshot} (hf : ∀ s, f s = s)
    (hstate : d'.state = d.state) (hsnap : d'.snapshots = d.snapshots) (hev : d'.events = d.events)
    (hcache : d'.cache = d.cache) (hinst : d'.installed = d.installed) : Grown dir f d d' := by
  refine ⟨hstate, ?_, hev, hcache, hinst⟩
  rw [hsnap, Disk.within]
  simp [hf]

theorem grown_append_copy (env : Outcomes) (dir line base : Text) (d : Disk) :
    Grown dir (Snapshot.add · [line] (copyMatching base d.cache)) d
      (execute env (ask (.appendPackage dir line) >>= fun _ => ask (.copyDebs base dir)) d).2 := by
  refine ⟨rfl, ?_, rfl, rfl, rfl⟩
  rw [execute_ask_bind, execute_ask]
  simp only [handler, answer, Disk.within, List.map_map]
  refine List.map_congr_left fun s _ => ?_
  by_cases hs : s.dir = dir
  · simp [hs, Snapshot.add]
  · simp [hs]

theorem grown_snapshotPackages (env : Outcomes) (dir : Text) (pkgs : List Text) (d : Disk) :
    Grown dir (Snapshot.add · (snapshotLines d.installed pkgs) (snapshotDebs d.cache d.installed pkgs))
      d (execute env (snapshotPackages dir pkgs) d).2 := by
  induction pkgs generalizing d with
  | nil =>
    refine grown_of_map_id (fun s => ?_) rfl rfl rfl rfl rfl
    cases s with
    | mk _ _ packages _ => cases packages <;> simp [Snapshot.add, snapshotLines, snapshotDebs]
  | cons pkg pkgs ih =>
    rw [snapshotPackages, execute_ask_bind]
    -- the query only lets time pass
    have hquery : handler env (.dpkgQuery pkg) d =
        (d.installed.query pkg, { d with tick := d.tick + 1 }) := rfl
    rw [hquery]
    cases hq : d.installed.query pkg with
    | none =>
      have hlines : snapshotLines d.installed (pkg :: pkgs) = snapshotLines d.installed pkgs := by
        simp [snapshotLines, hq]
      have hdebs : snapshotDebs d.cache d.installed (pkg :: pkgs) =
          snapshotDebs d.cache d.installed pkgs := by
        funext debs
        simp [snapshotDebs, hq]
      rw [hlines, hdebs]
      have hrest := ih { d with tick := d.tick + 1 }
      exact ⟨hrest.state, hrest.snapshots, hrest.events, hrest.cache, hrest.installed⟩
    | some version =>
      have hlines : snapshotLines d.installed (pkg :: pkgs) =
          [pkgLine pkg version] ++ snapshotLines d.installed pkgs := by
        simp [snapshotLines, hq]
      have hdebs : snapshotDebs d.cache d.installed (pkg :: pkgs) =
          fun debs => snapshotDebs d.cache d.installed pkgs (copyMatching (baseOf pkg) d.cache debs) := by
        funext debs
        simp [snapshotDebs, hq]
      have hstep := grown_append_copy env dir (pkgLine pkg version) (baseOf pkg)
        { d with tick := d.tick + 1 }
      have hrest := hstep.trans (ih _) fun s => rfl
      rw [hstep.cache, hstep.installed] at hrest
      simp only [Snapshot.add_add, ← hlines] at hrest
      rw [hdebs]
      exact ⟨hrest.state, hrest.snapshots, hrest.events, hrest.cache, hrest.installed⟩

/-! ## An update -/

/-- The directory of a run's snapshot. -/
def Outcomes.dir (env : Outcomes) : Text := backupsDir ++ env.stamp

/-- The packages a run is about to upgrade; none where it stops before that. -/
def Outcomes.planned (env : Outcomes) : Option (List Text) :=
  if env.aptUpdate then env.plan.map instNames else none

/-- With nothing to upgrade the directory still holds the empty list of names. -/
def newSnapshot (env : Outcomes) (d : Disk) : List Text → Snapshot
  | [] => ⟨env.dir, some [], none, []⟩
  | pkgs => ⟨env.dir, none, some (snapshotLines d.installed pkgs),
      snapshotDebs d.cache d.installed pkgs []⟩

def Disk.push (d : Disk) (s : Snapshot) : Disk := { d with snapshots := s :: d.snapshots }

/-- What a run leaves of the store, given a directory of its own. -/
def updated (env : Outcomes) (d : Disk) : Disk :=
  match env.planned with
  | none => d
  | some [] => (d.push (newSnapshot env d [])).prune
  | some pkgs => ((((d.push (newSnapshot env d pkgs)).set pendingKey env.dir).record env.dir).set
      attemptedKey ['0']).prune

theorem Outcomes.dir_ne_nil (env : Outcomes) : env.dir ≠ [] := by
  intro h
  exact absurd (List.append_eq_nil_iff.mp h).1 (by decide)

/-- What an update on record leaves. -/
structure OnRecord (env : Outcomes) (t d : Disk) (pkgs : List Text) : Prop where
  pending : d.get pendingKey = env.dir
  attempted : d.get attemptedKey = ['0']
  snapshot : d.snapshot env.dir = some (newSnapshot env t pkgs)
  events : d.events = t.events ++ [.recorded env.dir (newSnapshot env t pkgs).packages]

theorem updated_onRecord {pkg : Text} {pkgs : List Text} (hplan : env.planned = some (pkg :: pkgs)) :
    OnRecord env t (updated env t) (pkg :: pkgs) := by
  let s := newSnapshot env t (pkg :: pkgs)
  have hup : updated env t = ((((t.push s).set pendingKey env.dir).record env.dir).set
      attemptedKey ['0']).prune := by rw [updated, hplan]
  have hdir : s.dir = env.dir := rfl
  rw [hup]
  refine ⟨?_, Disk.get_set_self (Disk.record _ _) _ _, ?_, ?_⟩
  · change (Disk.set _ attemptedKey _).get pendingKey = _
    rw [Disk.get_set_ne _ _ (by decide)]
    exact Disk.get_set_self (t.push s) _ _
  · simp [Disk.snapshot, Disk.prune, Disk.set, Disk.record, Disk.push, hdir, s]
  · simp [Disk.snapshot, Disk.prune, Disk.set, Disk.record, Disk.push, hdir, s]

theorem snapshot_eq_none {dir : Text} : d.snapshot dir = none ↔ ∀ s ∈ d.snapshots, s.dir ≠ dir := by
  simp [Disk.snapshot, List.find?_eq_none]

/-- Work in a directory of one's own leaves the others alone. -/
theorem within_push {dir : Text} (hd : d.snapshot dir = none) (s : Snapshot) (hs : s.dir = dir)
    (f : Snapshot → Snapshot) : (d.push s).within dir f = d.push (f s) := by
  have hmap : d.snapshots.map (fun s => if s.dir = dir then f s else s) = d.snapshots := by
    refine (List.map_congr_left fun s hmem => ?_).trans (List.map_id _)
    exact if_neg (snapshot_eq_none.mp hd s hmem)
  simp only [Disk.push, Disk.within, List.map_cons, if_pos hs, hmap]

theorem removeAll_push {dir : Text} (hd : d.snapshot dir = none) (s : Snapshot) (hs : s.dir = dir) :
    (d.push s).removeAll dir = d := by
  have hfilter : d.snapshots.filter (·.dir ≠ dir) = d.snapshots :=
    List.filter_eq_self.mpr fun s hmem => decide_eq_true (snapshot_eq_none.mp hd s hmem)
  simp only [Disk.push, Disk.removeAll, List.filter_cons, hs, ne_eq, not_true, decide_false]
  rw [if_neg Bool.false_ne_true]
  simp only [ne_eq] at hfilter
  rw [hfilter]

theorem rmdir_push {dir : Text} (hd : d.snapshot dir = none) (s : Snapshot)
    (hs : s ≠ emptySnapshot dir) : (d.push s).rmdir dir = d.push s := by
  have hfilter : (s :: d.snapshots).filter (fun s => !(s = emptySnapshot dir)) = s :: d.snapshots := by
    refine List.filter_eq_self.mpr fun s' hmem => ?_
    rcases List.mem_cons.mp hmem with rfl | hmem
    · simpa using hs
    · have hne : s' ≠ emptySnapshot dir := fun h => snapshot_eq_none.mp hd s' hmem (by rw [h]; rfl)
      simpa using hne
  simp only [Disk.push, Disk.rmdir, hfilter]

theorem mkdir_fresh {dir : Text} (hd : d.snapshot dir = none) :
    d.mkdir dir = d.push (emptySnapshot dir) := by
  rw [Disk.mkdir, hd]
  rfl

/-! ## A complete update -/

/-- What an operation does to the store. -/
def Op.effect : Op → Disk → Disk
  | .stateSet key value, d => if key = pendingKey then (d.set key value).record value else d.set key value
  | .stateUnset key, d => d.unset key
  | .reboot, d => { d with events := d.events ++ [.rebooted (d.get pendingKey)] }
  | .mkdir dir, d => d.mkdir dir
  | .removeAll dir, d => d.removeAll dir
  | .writePkgnames dir names, d => d.within dir fun s => { s with pkgnames := some names }
  | .startPackages dir, d => d.within dir fun s => { s with packages := some [] }
  | .removePkgnames dir, d => d.within dir fun s => { s with pkgnames := none }
  | .rmdir dir, d => d.rmdir dir
  | .prune, d => d.prune
  | _, d => d

/-- The operations whose effect depends on that part alone. -/
def Op.OnDisk : Op → Prop
  | .appendPackage _ _ | .copyDebs _ _ | .aptInstall _ | .fullUpgrade => False
  | _ => True

/-- The packages are the same as well. -/
structure SameDisk (d d' : Disk) : Prop extends SameStore d d' where
  cache : d'.cache = d.cache
  installed : d'.installed = d.installed

theorem SameDisk.refl : SameDisk d d := ⟨.refl, rfl, rfl⟩

theorem SameDisk.after {o : Op} (h : SameDisk t d) (ho : o.OnDisk) :
    SameDisk (o.effect t) (handler env o d).2 := by
  obtain ⟨state, snapshots, cache, installed, _, _, events, _⟩ := d
  obtain ⟨_, _, _, _, _, _, _, _⟩ := t
  obtain ⟨⟨rfl, rfl, rfl⟩, rfl, rfl⟩ := h
  cases o with
  | appendPackage | copyDebs | aptInstall | fullUpgrade => exact ho.elim
  | stateSet =>
    simp only [handler, answer, Op.effect]
    split <;> exact ⟨⟨rfl, rfl, rfl⟩, rfl, rfl⟩
  | mkdir dir =>
    by_cases hdir : (snapshots.find? (·.dir = dir)).isSome = true
    all_goals
      simp only [handler, answer, Op.effect, Disk.mkdir, Disk.snapshot, hdir]
      exact ⟨⟨rfl, rfl, rfl⟩, rfl, rfl⟩
  | _ => exact ⟨⟨rfl, rfl, rfl⟩, rfl, rfl⟩

variable {Q : β → Disk → Prop}

theorem leaves_pure {a : β} (h : Q a d) : Leaves env (Pure.pure a) d Q := ⟨a, d, rfl, h⟩

theorem Leaves.step {o : Op} {x : o.Answer} {f : o.Answer → Cmd β} (ho : handler env o d = (x, d'))
    (h : Leaves env (f x) d' Q) : Leaves env (ask o >>= f) d Q := by
  have hstep : execute env (Maintenance.ask o >>= f) d = execute env (f x) d' := by
    rw [execute_ask_bind, ho]
  rwa [Leaves, hstep]

theorem Leaves.ask {o : Op} {f : o.Answer → Cmd β} (h : SameDisk t d) (ho : o.OnDisk)
    (hf : ∀ d', SameDisk (o.effect t) d' → Leaves env (f (handler env o d).1) d' Q) :
    Leaves env (ask o >>= f) d Q := hf _ (h.after ho)

theorem Leaves.bind {c : Cmd α} {f : α → Cmd β} {R : α → Disk → Prop} (hc : Leaves env c d R)
    (hf : ∀ a d', R a d' → Leaves env (f a) d' Q) : Leaves env (c >>= f) d Q := by
  obtain ⟨a, d', hrun, ha⟩ := hc
  obtain ⟨b, d'', hrun', hb⟩ := hf a d' ha
  exact ⟨b, d'', (execute_bind hrun).trans hrun', hb⟩

theorem leaves_outside {c : Cmd α} (hc : Only Op.Outside c) (h : SameStore t d) :
    Leaves env c d fun _ d' => SameStore t d' :=
  leaves_of_only hc (fun _ s ho hs => hs.trans (handler_outside s ho)) h

theorem leaves_snapshotPackages (dir : Text) (pkgs : List Text) (h : SameDisk t d) :
    Leaves env (snapshotPackages dir pkgs) d fun _ d' => SameDisk (t.within dir
      (Snapshot.add · (snapshotLines t.installed pkgs) (snapshotDebs t.cache t.installed pkgs))) d' := by
  obtain ⟨a, d', hrun⟩ := execute_ok env (snapshotPackages dir pkgs) d
  have hg := grown_snapshotPackages env dir pkgs d
  rw [hrun, h.installed, h.cache] at hg
  refine ⟨a, d', hrun, ⟨hg.state.trans h.state, ?_, hg.events.trans h.events⟩,
    hg.cache.trans h.cache, hg.installed.trans h.installed⟩
  rw [hg.snapshots, Disk.within, Disk.within, h.snapshots]

/-- The plan that was made decides how the snapshot goes on. -/
theorem leaves_takeSnapshot (hd : t.snapshot env.dir = none) (h : SameDisk t d) :
    Leaves env (takeSnapshot env.dir) d fun planned d' =>
      match env.plan.map instNames with
      | none => planned = false ∧ SameDisk t d'
      | some [] => planned = true ∧ SameDisk (t.push (newSnapshot env t [])) d'
      | some pkgs => planned = true ∧ SameDisk ((((t.push (newSnapshot env t pkgs)).set pendingKey
          env.dir).record env.dir).set attemptedKey ['0']) d' := by
  refine Leaves.ask h trivial fun d₁ h₁ => Leaves.ask h₁ trivial fun d₂ h₂ => ?_
  change Leaves env (match env.plan with | none => _ | some plan => _) d₂ _
  cases env.plan with
  | none =>
    refine Leaves.ask h₂ trivial fun d₃ h₃ => Leaves.ask h₃ trivial fun d₄ h₄ => ?_
    have hremoved := removeAll_push hd (emptySnapshot env.dir) rfl
    rw [← mkdir_fresh hd] at hremoved
    exact leaves_pure ⟨rfl, hremoved ▸ h₄⟩
  | some plan =>
    refine Leaves.ask h₂ trivial fun d₃ h₃ => ?_
    simp only [Option.map_some]
    change SameDisk ((t.mkdir env.dir).within env.dir fun s => { s with pkgnames := some (instNames plan) }) d₃ at h₃
    rw [mkdir_fresh hd, within_push hd _ rfl] at h₃
    cases hn : instNames plan with
    | nil =>
      rw [hn] at h₃
      refine Leaves.ask h₃ trivial fun d₄ h₄ => ?_
      have hkept : (t.push (newSnapshot env t [])).rmdir env.dir = t.push (newSnapshot env t []) :=
        rmdir_push hd _ (by simp [newSnapshot, emptySnapshot])
      exact leaves_pure ⟨rfl, hkept ▸ h₄⟩
    | cons pkg pkgs =>
      refine Leaves.ask h₃ trivial fun d₄ h₄ =>
        (leaves_snapshotPackages env.dir (pkg :: pkgs) h₄).bind fun _ d₅ h₅ => ?_
      refine Leaves.ask h₅ trivial fun d₆ h₆ => Leaves.ask h₆ trivial fun d₇ h₇ =>
        Leaves.ask h₇ trivial fun d₈ h₈ => Leaves.ask h₈ trivial fun d₉ h₉ => ?_
      have hother : attemptedKey ≠ pendingKey := by decide
      simp only [Op.effect, if_pos, if_neg hother] at h₉
      rw [within_push hd _ rfl, within_push hd _ rfl, within_push hd _ rfl] at h₉
      exact leaves_pure ⟨rfl, h₉⟩

theorem only_upgrade : Only Op.Outside upgrade := by
  refine Only.bind (only_ask trivial) fun upgraded => ?_
  split
  · refine Only.bind (only_log _ trivial) fun _ => Only.bind (only_ask trivial) fun required => ?_
    dsimp only
    split
    · exact Only.bind (only_log _ trivial) fun _ => only_pipSync
    · exact only_pipSync
  · exact Only.bind (only_log _ trivial) fun _ => trivial

theorem cmdOsUpdate_store (hd : d.snapshot env.dir = none) :
    SameStore (updated env d) (execute env cmdOsUpdate d).2 := by
  refine Leaves.exec (c := cmdOsUpdate) ?_
  refine Leaves.ask .refl trivial fun d₁ h₁ => ?_
  change Leaves env (if env.aptUpdate = true then _ else _) d₁ _
  rw [updated, Outcomes.planned]
  cases env.aptUpdate with
  | false => exact leaves_outside (Only.bind (only_log _ trivial) fun _ => trivial) h₁.toSameStore
  | true =>
    refine Leaves.ask h₁ trivial fun d₂ h₂ => (leaves_takeSnapshot hd h₂).bind fun planned d₃ h₃ => ?_
    simp only [if_true]
    revert h₃
    cases env.plan.map instNames with
    | none =>
      rintro ⟨rfl, h₃⟩
      exact leaves_pure h₃.toSameStore
    | some pkgs =>
      cases pkgs with
      | nil =>
        rintro ⟨rfl, h₃⟩
        exact Leaves.ask h₃ trivial fun d₄ h₄ => leaves_outside only_upgrade h₄.toSameStore
      | cons pkg pkgs =>
        rintro ⟨rfl, h₃⟩
        exact Leaves.ask h₃ trivial fun d₄ h₄ => leaves_outside only_upgrade h₄.toSameStore

end Maintenance
