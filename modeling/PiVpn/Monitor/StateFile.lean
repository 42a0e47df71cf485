import PiVpn.Lib.Transition
import PiVpn.Monitor.Heartbeat
import PiVpn.Python.JsonText

/-! The state file under its two writers. Each reads the file, changes keys of its own and
puts a new file in its place through one and the same temporary name, so their changes are
safe from each other exactly as long as they do not overlap. -/

namespace Monitor
open Text Json Transition

/-! ## Files -/

/-- The files by number, with the two names. -/
structure Files where
  inodes : List Text
  path : Option Nat
  tmp : Option Nat
  deriving DecidableEq

/-- `open(tmp, 'w')`: the file that has the name is emptied, else there is a new one. -/
def Files.openTmp (f : Files) : Nat × Files :=
  match f.tmp with
  | some n => (n, { f with inodes := f.inodes.set n [] })
  | none => (f.inodes.length, { f with inodes := f.inodes ++ [[]], tmp := some f.inodes.length })

/-- Write from the start of an open file: what is longer keeps its tail. -/
def Files.write (f : Files) (fd : Nat) (text : Text) : Files :=
  { f with inodes := f.inodes.set fd (text ++ (f.inodes.getD fd []).drop text.length) }

/-- `os.replace(tmp, path)`; nothing where there is no file of that name. -/
def Files.rename (f : Files) : Option Files :=
  f.tmp.map fun n => { f with path := some n, tmp := none }

/-- The text of the state file, where there is one. -/
def Files.text (f : Files) : Option Text := f.path.bind fun n => f.inodes[n]?

/-- `load_state`, and the load of the script: what is not there or not JSON is empty.
Nothing where the text holds another kind of value. -/
def loadState (float : Text → String) (f : Files) : Option State :=
  match f.text with
  | none => some []
  | some t =>
    match loads float t with
    | none => some []
    | some (.obj s) => some s
    | some _ => none

/-! ## Writers -/

/-- The keys of the script. -/
inductive MaintenanceKey where
  | pendingUpdateBackup
  | rollbackAttempted
  deriving DecidableEq

def MaintenanceKey.name : MaintenanceKey → String
  | .pendingUpdateBackup => "pending_update_backup"
  | .rollbackAttempted => "rollback_attempted"

inductive Job where
  | tick (now boot : Int) (g : Globals)
  | stateSet (key : MaintenanceKey) (value : String)
  | stateUnset (key : MaintenanceKey)

/-- What a writer makes of the state it has read; nothing where it raises. -/
def Job.change (iso : Iso) (s : State) : Job → Option State
  | .tick now boot g => (heartbeatTick iso now boot g s).map Prod.snd
  | .stateSet key value => some (Dict.put s key.name (.str value))
  | .stateUnset key => some (Dict.pop s key.name)

/-- Where a writer is: with its new state, and with the open file. -/
inductive Proc where
  | idle
  | loaded (job : Job) (s : State)
  | opened (job : Job) (s : State) (fd : Nat)
  | written (job : Job) (s : State)

def Proc.isIdle : Proc → Bool
  | .idle => true
  | _ => false

/-- A key as another dictionary has it. -/
def copyKey (source : State) (d : State) (key : String) : State :=
  match source.lookup key with
  | some v => Dict.put d key v
  | none => Dict.pop d key

/-- The last word on each key: that of its owner. -/
def Job.say (s : State) (last : State) : Job → State
  | .tick _ _ _ => appKeys.foldl (copyKey s) last
  | .stateSet key value => Dict.put last key.name (.str value)
  | .stateUnset key => Dict.pop last key.name

structure System where
  files : Files
  procs : List Proc
  /-- What the last writer of each key wrote. -/
  last : State
  failed : Bool

inductive Move where
  | start (job : Job)
  | open_
  | write
  | rename

def System.setProc (sys : System) (i : Nat) (p : Proc) : System := { sys with procs := sys.procs.set i p }

/-- One step of the writer number `i`. -/
def System.step (float : Text → String) (iso : Iso) (l : Nat × Move) (sys : System) : Option System :=
  match l.2, sys.procs[l.1]? with
  | .start job, some .idle =>
    match (loadState float sys.files).bind (job.change iso) with
    | none => some { sys with failed := true }
    | some s => some (sys.setProc l.1 (.loaded job s))
  | .open_, some (.loaded job s) =>
    some { sys.setProc l.1 (.opened job s sys.files.openTmp.1) with files := sys.files.openTmp.2 }
  | .write, some (.opened job s fd) =>
    some { sys.setProc l.1 (.written job s) with files := sys.files.write fd (dumps (.obj s)) }
  | .rename, some (.written job s) =>
    match sys.files.rename with
    | none => some { sys.setProc l.1 .idle with failed := true }
    | some files => some { sys.setProc l.1 .idle with files := files, last := job.say s sys.last }
  | _, _ => none

/-- No writer has failed, and while none is at work each key is as its owner left it. -/
def InStep (float : Text → String) (sys : System) : Prop :=
  sys.failed = false ∧ ((∀ p ∈ sys.procs, p.isIdle = true) →
    ∃ s, loadState float sys.files = some s ∧ ∀ key, s.lookup key = sys.last.lookup key)

/-- A writer starts only while no other is between its load and its rename. -/
def Exclusive (l : Nat × Move) (sys : System) : Prop :=
  ∀ job, l.2 = .start job → ∀ p ∈ sys.procs, p.isIdle = true

variable {float : Text → String} {iso : Iso} {s s' last : State} {f : Files} {job : Job}

/-! ## States that can be saved and read -/

theorem plainFields_iff {fs : State} : PlainFields fs ↔ ∀ e ∈ fs, Plain e.2 := by
  induction fs with
  | nil => exact ⟨fun _ _ h => absurd h List.not_mem_nil, fun _ => trivial⟩
  | cons e fs ih =>
    obtain ⟨k, x⟩ := e
    rw [List.forall_mem_cons, ← ih]
    rfl

theorem plain_put (h : Plain (.obj s)) (key : String) {v : Json} (hv : Plain v) :
    Plain (.obj (Dict.put s key v)) := by
  refine ⟨plainFields_iff.mpr fun e he => ?_, Dict.nodup_put h.2 key v⟩
  rcases Dict.mem_put he with rfl | he
  · exact hv
  · exact plainFields_iff.mp h.1 e he

theorem plain_pop (h : Plain (.obj s)) (key : String) : Plain (.obj (Dict.pop s key)) :=
  ⟨plainFields_iff.mpr fun e he => plainFields_iff.mp h.1 e (List.mem_of_mem_filter he),
    Dict.nodup_pop h.2 key⟩

/-- A state that reads back as it was saved, its last instant among what can be read. -/
structure Sound (iso : Iso) (s : State) : Prop where
  plain : Plain (.obj s)
  seen : Json.get s lastSeen = .null ∨ ∃ t, Json.get s lastSeen = .str (iso.isoformat t)

theorem Sound.compareBoot (h : Sound iso s) (now boot : Int) :
    ∃ x s', compareBoot iso now boot s = some (x, s') ∧ Plain (.obj s') := by
  rw [Monitor.compareBoot]
  split
  · exact ⟨_, _, rfl, plain_put h.plain _ trivial⟩
  · split
    · next hr =>
      rcases h.seen with hnull | ⟨t, ht⟩
      · rw [isReboot, hnull] at hr
        simp [Json.truthy] at hr
      · have hread : iso.read (Json.get s lastSeen) = some t := by
          rw [ht]
          exact iso.read_back t
        rw [hread]
        exact ⟨_, _, rfl, plain_put h.plain _ trivial⟩
    · exact ⟨_, s, rfl, h.plain⟩

theorem Sound.change (h : Sound iso s) (job : Job) : ∃ s', job.change iso s = some s' ∧ Sound iso s' := by
  cases job with
  | tick now boot g =>
    rw [Job.change, heartbeatTick]
    split
    · exact ⟨_, rfl, plain_put h.plain _ trivial, .inr ⟨now, get_put_self _ _ _⟩⟩
    · obtain ⟨x, s', hcompare, hplain⟩ := h.compareBoot now boot
      rw [hcompare]
      exact ⟨_, rfl, plain_put (plain_put (v := .int boot) hplain _ trivial) _ trivial, .inr ⟨now, get_put_self _ _ _⟩⟩
  | stateSet key value =>
    refine ⟨_, rfl, plain_put h.plain _ trivial, ?_⟩
    rw [get_put_ne _ _ (by cases key <;> decide)]
    exact h.seen
  | stateUnset key =>
    refine ⟨_, rfl, plain_pop h.plain _, ?_⟩
    rw [Json.get, Dict.lookup_pop_ne _ (by cases key <;> decide)]
    exact h.seen

theorem lookup_copyKey (source d : State) (key k : String) :
    (copyKey source d key).lookup k = if k = key then source.lookup key else d.lookup k := by
  rw [copyKey]
  cases h : source.lookup key with
  | some v => exact Dict.lookup_put d key k v
  | none => exact Dict.lookup_pop d key k

/-- A writer leaves each key as its owner left it. -/
theorem Job.lookup_say (h : job.change iso s = some s') (hlast : ∀ key, s.lookup key = last.lookup key)
    (key : String) : s'.lookup key = (job.say s' last).lookup key := by
  cases job with
  | tick now boot g =>
    obtain ⟨⟨g', s₁⟩, htick, rfl⟩ := Option.map_eq_some_iff.mp h
    simp only [Job.say, appKeys, List.foldl_cons, List.foldl_nil, lookup_copyKey]
    split
    · next hk => rw [hk]
    split
    · next hk => rw [hk]
    split
    · next hk => rw [hk]
    next h₁ h₂ h₃ =>
      rw [← hlast, heartbeatTick_others htick (by simp [appKeys, h₁, h₂, h₃])]
  | stateSet k value =>
    obtain rfl := Option.some.inj h
    rw [Job.say, Dict.lookup_put, Dict.lookup_put, hlast]
  | stateUnset k =>
    obtain rfl := Option.some.inj h
    rw [Job.say, Dict.lookup_pop, Dict.lookup_pop, hlast]

/-! ## Files between two writers -/

/-- The state file holds the state, and the temporary name, if it is there, is another
file's. -/
structure Holds (f : Files) (s : State) : Prop where
  text : f.path = none ∧ s = [] ∨ ∃ n, f.path = some n ∧ f.inodes[n]? = some (dumps (.obj s))
  apart : ∀ n, f.tmp = some n → f.path ≠ some n ∧ n < f.inodes.length

theorem Holds.loadState (h : Holds f s) (hs : Plain (.obj s)) : loadState float f = some s := by
  rw [Monitor.loadState, Files.text]
  rcases h.text with ⟨hpath, rfl⟩ | ⟨n, hpath, hn⟩
  · rw [hpath]
    rfl
  · rw [hpath, Option.bind_some, hn]
    simp only [loads_dumps_alone float hs]

theorem Holds.openTmp (h : Holds f s) :
    Holds f.openTmp.2 s ∧ f.openTmp.2.tmp = some f.openTmp.1 ∧
      f.openTmp.2.inodes[f.openTmp.1]? = some [] := by
  rw [Files.openTmp]
  cases htmp : f.tmp with
  | some t =>
    obtain ⟨hne, hlt⟩ := h.apart t htmp
    refine ⟨⟨h.text.imp_right ?_, fun n hn => ?_⟩, rfl, by simp [hlt]⟩
    · rintro ⟨n, hpath, hn⟩
      have hother : t ≠ n := fun heq => hne (heq ▸ hpath)
      exact ⟨n, hpath, by rw [List.getElem?_set_ne hother, hn]⟩
    · rw [List.length_set]
      exact h.apart n (htmp.trans hn)
  | none =>
    refine ⟨⟨h.text.imp_right ?_, fun n hn => ?_⟩, rfl, by simp⟩
    · rintro ⟨n, hpath, hn⟩
      have hlt : n < f.inodes.length := (List.getElem?_eq_some_iff.mp hn).1
      exact ⟨n, hpath, by rw [List.getElem?_append_left hlt, hn]⟩
    · obtain rfl : f.inodes.length = n := Option.some.inj hn
      refine ⟨fun hpath => ?_, by simp⟩
      rcases h.text with ⟨hnone, -⟩ | ⟨n, hsome, hn⟩
      · rw [hnone] at hpath
        cases hpath
      · obtain rfl : n = f.inodes.length := Option.some.inj (hsome.symm.trans hpath)
        exact absurd (List.getElem?_eq_some_iff.mp hn).1 (lt_irrefl _)

theorem Holds.write (h : Holds f s) {fd : Nat} (htmp : f.tmp = some fd)
    (hempty : f.inodes[fd]? = some []) (text : Text) :
    Holds (f.write fd text) s ∧ (f.write fd text).tmp = some fd ∧
      (f.write fd text).inodes[fd]? = some text := by
  obtain ⟨hne, hlt⟩ := h.apart fd htmp
  refine ⟨⟨h.text.imp_right ?_, fun n hn => ?_⟩, htmp, ?_⟩
  · rintro ⟨n, hpath, hn⟩
    have hother : fd ≠ n := fun heq => hne (heq ▸ hpath)
    exact ⟨n, hpath, by rw [Files.write, List.getElem?_set_ne hother, hn]⟩
  · rw [Files.write, List.length_set]
    exact h.apart n hn
  · rw [Files.write, List.getElem?_set_self hlt, List.getD_eq_getElem?_getD, hempty]
    simp

theorem Holds.rename {fd : Nat} (htmp : f.tmp = some fd) (hfd : f.inodes[fd]? = some (dumps (.obj s'))) :
    ∃ f', f.rename = some f' ∧ Holds f' s' := by
  refine ⟨{ f with path := some fd, tmp := none }, by rw [Files.rename, htmp]; rfl,
    .inr ⟨fd, rfl, hfd⟩, fun n hn => ?_⟩
  cases hn

/-! ## The invariant -/

/-- How far the one writer at work has come. -/
def Busy (iso : Iso) (s : State) (f : Files) : Proc → Prop
  | .idle => False
  | .loaded job s' => job.change iso s = some s'
  | .opened job s' fd => job.change iso s = some s' ∧ f.tmp = some fd ∧ f.inodes[fd]? = some []
  | .written job s' => job.change iso s = some s' ∧
      ∃ fd, f.tmp = some fd ∧ f.inodes[fd]? = some (dumps (.obj s'))

/-- None at work, or one. -/
def AtWork (iso : Iso) (s : State) (sys : System) : Prop :=
  (∀ p ∈ sys.procs, p.isIdle = true) ∨
    ∃ (i : Nat) (p : Proc), sys.procs[i]? = some p ∧ Busy iso s sys.files p ∧
      ∀ j (q : Proc), j ≠ i → sys.procs[j]? = some q → q.isIdle = true

structure Orderly (iso : Iso) (sys : System) : Prop where
  held : ∃ s, Sound iso s ∧ Holds sys.files s ∧ (∀ key, s.lookup key = sys.last.lookup key) ∧
    AtWork iso s sys
  failed : sys.failed = false

theorem Orderly.inStep {sys : System} (h : Orderly iso sys) : InStep float sys := by
  obtain ⟨s, hs, hf, hlast, -⟩ := h.held
  exact ⟨h.failed, fun _ => ⟨s, hf.loadState hs.plain, hlast⟩⟩

theorem get_setProc {sys : System} {i j : Nat} {p q : Proc} (h : (sys.setProc i p).procs[j]? = some q) :
    j = i ∧ q = p ∨ j ≠ i ∧ sys.procs[j]? = some q := by
  rw [System.setProc, List.getElem?_set] at h
  split at h
  · next hij =>
    split at h
    · exact .inl ⟨hij.symm, (Option.some.inj h).symm⟩
    · cases h
  · next hij => exact .inr ⟨fun hji => hij hji.symm, h⟩

theorem AtWork.of_start {sys : System} {i : Nat} {p : Proc} {f : Files} (hi : i < sys.procs.length)
    (hidle : ∀ p ∈ sys.procs, p.isIdle = true) (hbusy : Busy iso s f p) :
    AtWork iso s { sys.setProc i p with files := f } := by
  refine .inr ⟨i, p, by simp [System.setProc, hi], hbusy, fun j q hj hq => ?_⟩
  rcases get_setProc hq with ⟨heq, -⟩ | ⟨-, hq⟩
  · exact absurd heq hj
  · exact hidle q (List.mem_of_getElem? hq)

theorem AtWork.of_step {sys : System} {i : Nat} {p : Proc} (h : AtWork iso s sys)
    (hp : sys.procs[i]? = some p) (hnot : p.isIdle = false) :
    Busy iso s sys.files p ∧ ∀ j (q : Proc), j ≠ i → sys.procs[j]? = some q → q.isIdle = true := by
  rcases h with h | ⟨i', p', hp', hbusy, hothers⟩
  · rw [h p (List.mem_of_getElem? hp)] at hnot
    cases hnot
  · by_cases hi : i = i'
    · subst hi
      obtain rfl : p = p' := Option.some.inj (hp.symm.trans hp')
      exact ⟨hbusy, hothers⟩
    · rw [hothers i p hi hp] at hnot
      cases hnot

theorem AtWork.set {sys : System} {i : Nat} {p p' : Proc} {f : Files} (hp : sys.procs[i]? = some p)
    (hothers : ∀ j (q : Proc), j ≠ i → sys.procs[j]? = some q → q.isIdle = true)
    (hbusy : Busy iso s f p') : AtWork iso s { sys.setProc i p' with files := f } := by
  have hi : i < sys.procs.length := (List.getElem?_eq_some_iff.mp hp).1
  refine .inr ⟨i, p', by simp [System.setProc, hi], hbusy, fun j q hj hq => ?_⟩
  rcases get_setProc hq with ⟨heq, -⟩ | ⟨-, hq⟩
  · exact absurd heq hj
  · exact hothers j q hj hq

theorem atWork_none {sys : System} {i : Nat} {f : Files} {last : State}
    (hothers : ∀ j (q : Proc), j ≠ i → sys.procs[j]? = some q → q.isIdle = true) :
    AtWork iso s { sys.setProc i .idle with files := f, last := last } := by
  refine .inl fun p hp => ?_
  obtain ⟨j, hj⟩ := List.mem_iff_getElem?.mp hp
  rcases get_setProc hj with ⟨-, rfl⟩ | ⟨hne, hq⟩
  · rfl
  · exact hothers j p hne hq

theorem Orderly.step {sys sys' : System} {l : Nat × Move} (h : Orderly iso sys) (he : Exclusive l sys)
    (hstep : sys.step float iso l = some sys') : Orderly iso sys' := by
  obtain ⟨i, move⟩ := l
  obtain ⟨s, hs, hf, hlast, hwork⟩ := h.held
  cases hp : sys.procs[i]? with
  | none => cases move <;> · rw [System.step, hp] at hstep; cases hstep
  | some p =>
    rw [System.step, hp] at hstep
    -- one process is at work at most, and each move takes it one phase further
    cases move with
    | start job =>
      cases p with
      | idle =>
        obtain ⟨s', hchange, -⟩ := hs.change job
        simp only [hf.loadState hs.plain, Option.bind_some, hchange] at hstep
        obtain rfl := Option.some.inj hstep
        have hi : i < sys.procs.length := (List.getElem?_eq_some_iff.mp hp).1
        exact ⟨⟨s, hs, hf, hlast, AtWork.of_start hi (he job rfl) hchange⟩, h.failed⟩
      | _ => cases hstep
    | open_ =>
      cases p with
      | loaded job s' =>
        obtain ⟨hbusy, hothers⟩ := hwork.of_step hp rfl
        obtain rfl := Option.some.inj hstep
        obtain ⟨hf', htmp, hfd⟩ := hf.openTmp
        exact ⟨⟨s, hs, hf', hlast, AtWork.set hp hothers ⟨hbusy, htmp, hfd⟩⟩, h.failed⟩
      | _ => cases hstep
    | write =>
      cases p with
      | opened job s' fd =>
        obtain ⟨⟨hchange, htmp, hfd⟩, hothers⟩ := hwork.of_step hp rfl
        obtain rfl := Option.some.inj hstep
        obtain ⟨hf', htmp', hfd'⟩ := hf.write htmp hfd (dumps (.obj s'))
        exact ⟨⟨s, hs, hf', hlast, AtWork.set hp hothers ⟨hchange, fd, htmp', hfd'⟩⟩, h.failed⟩
      | _ => cases hstep
    -- the rename is the moment at which the change of its writer is in the file
    | rename =>
      cases p with
      | written job s' =>
        obtain ⟨⟨hchange, fd, htmp, hfd⟩, hothers⟩ := hwork.of_step hp rfl
        obtain ⟨f', hrename, hf'⟩ := Holds.rename htmp hfd
        simp only [hrename] at hstep
        obtain rfl := Option.some.inj hstep
        obtain ⟨s₁, hs₁, hsound⟩ := hs.change job
        obtain rfl : s₁ = s' := Option.some.inj (hs₁.symm.trans hchange)
        exact ⟨⟨s₁, hsound, hf', fun key => Job.lookup_say hchange hlast key, atWork_none hothers⟩,
          h.failed⟩
      | _ => cases hstep

/-- No writer at work, on a state that each owner knows. -/
structure Resting (iso : Iso) (sys : System) : Prop where
  held : ∃ s, Sound iso s ∧ Holds sys.files s ∧ ∀ key, s.lookup key = sys.last.lookup key
  idle : ∀ p ∈ sys.procs, p.isIdle = true
  failed : sys.failed = false

theorem Resting.orderly {sys : System} (h : Resting iso sys) : Orderly iso sys := by
  obtain ⟨s, hs, hf, hlast⟩ := h.held
  exact ⟨⟨s, hs, hf, hlast, .inl h.idle⟩, h.failed⟩

/-- Writers that do not overlap never fail, and lose none of each other's keys. -/
theorem exclusive_writers_keep_keys {ls : List (Nat × Move)} {sys sys' : System} (h : Resting iso sys)
    (he : Along (System.step float iso) Exclusive ls sys)
    (hrun : steps (System.step float iso) ls sys = some sys') : InStep float sys' :=
  (he.invariant (fun _ _ _ hl hstep ho => Orderly.step ho hl hstep) hrun h.orderly).inStep

instance (l : Nat × Move) (sys : System) : Decidable (Exclusive l sys) :=
  match h : l.2 with
  | .start _ => decidable_of_iff (∀ p ∈ sys.procs, p.isIdle = true)
      ⟨fun hidle _ _ => hidle, fun he => he _ h⟩
  | .open_ => .isTrue fun _ hs => by rw [h] at hs; cases hs
  | .write => .isTrue fun _ hs => by rw [h] at hs; cases hs
  | .rename => .isTrue fun _ hs => by rw [h] at hs; cases hs

/-- A new device with two writers. -/
def sampleSystem : System := ⟨⟨[], none, none⟩, [.idle, .idle], [], false⟩

theorem sampleSystem_resting : Resting sampleIso sampleSystem where
  held := ⟨[], ⟨⟨trivial, List.nodup_nil⟩, .inl rfl⟩, ⟨.inl ⟨rfl, rfl⟩, fun n hn => by cases hn⟩, fun _ => rfl⟩
  idle := by decide
  failed := rfl

def sampleTick : Move := .start (.tick 1704067200000000 1704067100 .initial)
def sampleSet : Move := .start (.stateSet .pendingUpdateBackup "20240101T000000Z")

/-- What a system shows of a key. -/
def System.keeps (sys : System) (key : String) : Bool :=
  ((loadState String.ofList sys.files).map fun s => (s.lookup key).isSome) = some true

/-- The tick of one, then the setting of the other. -/
def oneByOne : List (Nat × Move) :=
  [(0, sampleTick), (0, .open_), (0, .write), (0, .rename),
    (1, sampleSet), (1, .open_), (1, .write), (1, .rename)]

/-- The tick loads before the script sets its key, and renames after it. -/
def overlapping : List (Nat × Move) :=
  [(0, sampleTick), (1, sampleSet), (1, .open_), (1, .write), (1, .rename),
    (0, .open_), (0, .write), (0, .rename)]

theorem sample_writers_keep_keys :
    ∃ sys, steps (System.step String.ofList sampleIso) oneByOne sampleSystem = some sys ∧
      sys.keeps lastSeen = true ∧ InStep String.ofList sys := by
  have hrun : (steps (System.step String.ofList sampleIso) oneByOne sampleSystem).map
      (fun sys => sys.keeps lastSeen) = some true := by decide +kernel
  obtain ⟨sys, hsys, hkeeps⟩ := Option.map_eq_some_iff.mp hrun
  exact ⟨sys, hsys, hkeeps, exclusive_writers_keep_keys sampleSystem_resting (by decide +kernel) hsys⟩

/-- The key that was set is gone. -/
theorem overlapping_tick_loses_key :
    ¬ ∀ (float : Text → String) (iso : Iso) (ls : List (Nat × Move)) (sys sys' : System),
      Resting iso sys → steps (System.step float iso) ls sys = some sys' → InStep float sys' := by
  intro h
  have hrun : (steps (System.step String.ofList sampleIso) overlapping sampleSystem).map (fun sys =>
      (decide (∀ p ∈ sys.procs, p.isIdle = true), sys.keeps "pending_update_backup",
        (sys.last.lookup "pending_update_backup").isSome)) = some (true, false, true) := by decide +kernel
  obtain ⟨sys, hsys, hout⟩ := Option.map_eq_some_iff.mp hrun
  simp only [Prod.mk.injEq, decide_eq_true_eq] at hout
  obtain ⟨hidle, hlost, hlast⟩ := hout
  obtain ⟨s, hs, hkeys⟩ := (h _ _ _ _ _ sampleSystem_resting hsys).2 hidle
  rw [System.keeps, hs, Option.map_some, hkeys, hlast] at hlost
  exact absurd hlost (by decide)

end Monitor
