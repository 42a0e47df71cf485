import PiVpn.Lib.Program
import PiVpn.Lib.Transition

/-! Programs that take turns under a lock. Each may be started at any moment, waits for the
lock as long as it was told, and may be killed anywhere, which frees the lock. What they leave
in the state they share is what they leave when they run one after the other. -/

namespace Exclusive
open Effect Prog Transition

/-- A program, the world it meets, and how long it waits for the lock. -/
structure Task (S : Signature) (ε α σ : Type) where
  prog : Prog S ε α
  handler : Handler S σ
  wait : Nat

inductive Phase (S : Signature) (ε α : Type) where
  | waiting (since : Nat)
  | inside (done : Nat) (rest : Prog S ε α)
  | ended (outcome : Except ε α)
  | refused
  | killed

structure Process (S : Signature) (ε α σ : Type) where
  task : Task S ε α σ
  phase : Phase S ε α

/-- A process had the lock; it went to its end, or was cut off after some operations. -/
structure Turn (S : Signature) (ε α σ : Type) where
  process : Nat
  task : Task S ε α σ
  cut : Option Nat

structure System (S : Signature) (ε α σ : Type) where
  shared : σ
  now : Nat
  holder : Option Nat
  processes : List (Process S ε α σ)
  /-- The turns that are over. -/
  turns : List (Turn S ε α σ)

variable {S : Signature} {ε α σ : Type}

inductive Event (S : Signature) (ε α σ : Type) where
  | start (task : Task S ε α σ)
  | elapse (seconds : Nat)
  | enter (i : Nat)
  | refuse (i : Nat)
  | act (i : Nat)
  | leave (i : Nat)
  | kill (i : Nat)

def System.move (s : System S ε α σ) (i : Nat) (task : Task S ε α σ) (phase : Phase S ε α) :
    System S ε α σ :=
  { s with processes := s.processes.set i ⟨task, phase⟩ }

/-- A process that ends closes the lock; the lock is free again if it was the holder. -/
def System.close (s : System S ε α σ) (i : Nat) : System S ε α σ :=
  { s with holder := if s.holder = some i then none else s.holder }

def System.record (s : System S ε α σ) (turn : Turn S ε α σ) : System S ε α σ :=
  { s with turns := s.turns ++ [turn] }

/-- Nothing but the lock keeps one process from acting while another one is inside. -/
def step : Event S ε α σ → System S ε α σ → Option (System S ε α σ)
  | .start task, s => some { s with processes := s.processes ++ [⟨task, .waiting s.now⟩] }
  | .elapse seconds, s => some { s with now := s.now + seconds }
  | .enter i, s =>
    match s.processes[i]?, s.holder with
    | some ⟨task, .waiting _⟩, none =>
      some { s.move i task (.inside 0 task.prog) with holder := some i }
    | _, _ => none
  | .refuse i, s =>
    match s.processes[i]?, s.holder with
    | some ⟨task, .waiting since⟩, some _ =>
      if since + task.wait ≤ s.now then some (s.move i task .refused) else none
    | _, _ => none
  | .act i, s =>
    match s.processes[i]? with
    | some ⟨task, .inside done (.op o k)⟩ =>
      let r := task.handler o s.shared
      some { s.move i task (.inside (done + 1) (k r.1)) with shared := r.2 }
    | _ => none
  | .leave i, s =>
    match s.processes[i]? with
    | some ⟨task, .inside _ (.pure a)⟩ =>
      some (((s.move i task (.ended (.ok a))).close i).record ⟨i, task, none⟩)
    | some ⟨task, .inside _ (.raise e)⟩ =>
      some (((s.move i task (.ended (.error e))).close i).record ⟨i, task, none⟩)
    | _ => none
  | .kill i, s =>
    match s.processes[i]? with
    | some ⟨task, .waiting _⟩ => some (s.move i task .killed)
    | some ⟨task, .inside done _⟩ =>
      some (((s.move i task .killed).close i).record ⟨i, task, some done⟩)
    | _ => none

def start (s₀ : σ) : System S ε α σ := ⟨s₀, 0, none, [], []⟩

/-- The system after the steps, where each of them can be taken. -/
def run (es : List (Event S ε α σ)) (s₀ : σ) : Option (System S ε α σ) := steps step es (start s₀)

/-! ## One after the other -/

def Turn.run (t : Turn S ε α σ) (s : σ) : σ :=
  match t.cut with
  | none => (t.task.prog.exec t.task.handler s).2
  | some n => t.task.prog.cutOff t.task.handler n s

def runTurns (ts : List (Turn S ε α σ)) (s : σ) : σ := ts.foldl (fun s t => t.run s) s

theorem runTurns_append (ts ts' : List (Turn S ε α σ)) (s : σ) :
    runTurns (ts ++ ts') s = runTurns ts' (runTurns ts s) :=
  List.foldl_append

/-- The turn that is not over yet. -/
def System.current (s : System S ε α σ) : Option (Turn S ε α σ) :=
  s.holder.bind fun i => s.processes[i]?.bind fun p =>
    match p.phase with
    | .inside done _ => some ⟨i, p.task, some done⟩
    | _ => none

/-- All turns, in the order in which the lock was taken. -/
def System.history (s : System S ε α σ) : List (Turn S ε α σ) := s.turns ++ s.current.toList

def Phase.Over : Phase S ε α → Prop
  | .ended _ | .killed => True
  | _ => False

/-- The process inside has the lock, and is where it would be had it run alone from what the
turns before it left. -/
structure Serial (s₀ : σ) (s : System S ε α σ) : Prop where
  owns : ∀ {i task done rest}, s.processes[i]? = some ⟨task, .inside done rest⟩ → s.holder = some i
  held : ∀ {i}, s.holder = some i → ∃ task done rest, s.processes[i]? = some ⟨task, .inside done rest⟩ ∧
    task.prog.after task.handler done (runTurns s.turns s₀) = (rest, s.shared)
  free : s.holder = none → s.shared = runTurns s.turns s₀
  outcome : ∀ {i task r}, s.processes[i]? = some ⟨task, .ended r⟩ → ∃ before,
    before ++ [⟨i, task, none⟩] <+: s.turns ∧ r = (task.prog.exec task.handler (runTurns before s₀)).1
  past : ∀ t ∈ s.turns, ∃ phase : Phase S ε α, phase.Over ∧ s.processes[t.process]? = some ⟨t.task, phase⟩
  once : (s.turns.map Turn.process).Nodup

section
variable {s₀ : σ} {s s' : System S ε α σ} {i : Nat} {task : Task S ε α σ} {phase : Phase S ε α}

theorem System.processes_move {p : Process S ε α σ} (hi : s.processes[i]? = some p) (j : Nat) :
    (s.move i task phase).processes[j]? = if j = i then some ⟨task, phase⟩ else s.processes[j]? := by
  have hlt : i < s.processes.length := (List.getElem?_eq_some_iff.mp hi).1
  rw [System.move, List.getElem?_set]
  by_cases hj : i = j
  · rw [if_pos hj, if_pos (hj ▸ hlt), if_pos hj.symm]
  · rw [if_neg hj, if_neg (Ne.symm hj)]

theorem Serial.start (s₀ : σ) : Serial s₀ (start s₀ : System S ε α σ) where
  owns h := by simp [Exclusive.start] at h
  held h := by cases h
  free _ := rfl
  outcome h := by simp [Exclusive.start] at h
  past t ht := absurd ht List.not_mem_nil
  once := List.nodup_nil

def Phase.Outside : Phase S ε α → Prop
  | .waiting _ | .refused | .killed => True
  | _ => False

theorem Serial.idle (h : Serial s₀ s) (hshared : s'.shared = s.shared) (hholder : s'.holder = s.holder)
    (hturns : s'.turns = s.turns)
    (hkeep : ∀ (j : Nat) (p : Process S ε α σ), (∀ since, p.phase ≠ .waiting since) →
      s.processes[j]? = some p → s'.processes[j]? = some p)
    (hnew : ∀ (j : Nat) (p : Process S ε α σ), s'.processes[j]? = some p →
      s.processes[j]? = some p ∨ p.phase.Outside) : Serial s₀ s' where
  owns hj := hholder ▸ h.owns ((hnew _ _ hj).resolve_right not_false)
  held hj := by
    obtain ⟨task, done, rest, hin, hafter⟩ := h.held (hholder ▸ hj)
    exact ⟨task, done, rest, hkeep _ _ (fun _ => nofun) hin, by rw [hturns, hshared, hafter]⟩
  free hnone := by rw [hshared, hturns, h.free (hholder ▸ hnone)]
  outcome hj := hturns ▸ h.outcome ((hnew _ _ hj).resolve_right not_false)
  past t ht := by
    obtain ⟨phase, hover, hp⟩ := h.past t (hturns ▸ ht)
    refine ⟨phase, hover, hkeep _ _ (fun since hw => ?_) hp⟩
    rw [show phase = .waiting since from hw] at hover
    exact hover
  once := hturns ▸ h.once

theorem Serial.move_idle (h : Serial s₀ s) {since : Nat} (hi : s.processes[i]? = some ⟨task, .waiting since⟩)
    (hphase : phase.Outside) : Serial s₀ (s.move i task phase) := by
  refine h.idle rfl rfl rfl (fun j p hne hj => ?_) (fun j p hj => ?_)
  · rw [System.processes_move hi]
    split
    · next hji =>
      rw [hji, hi] at hj
      cases hj
      exact absurd rfl (hne since)
    · exact hj
  · rw [System.processes_move hi] at hj
    split at hj
    · cases hj
      exact .inr hphase
    · exact .inl hj

theorem Serial.enter (h : Serial s₀ s) {since : Nat} (hi : s.processes[i]? = some ⟨task, .waiting since⟩)
    (hfree : s.holder = none) :
    Serial s₀ { s.move i task (.inside 0 task.prog) with holder := some i } where
  owns {j task' done rest} hj := by
    change (s.move i task _).processes[j]? = _ at hj
    rw [System.processes_move hi] at hj
    split at hj
    · next hji => exact congrArg some hji.symm
    · exact absurd (hfree.symm.trans (h.owns hj)) nofun
  held {j} hj := by
    obtain rfl : i = j := Option.some.inj hj
    refine ⟨task, 0, task.prog, ?_, ?_⟩
    · exact (System.processes_move hi i).trans (if_pos rfl)
    · rw [after_zero]
      exact congrArg (Prod.mk _) (h.free hfree).symm
  free hnone := absurd hnone nofun
  outcome {j task' r} hj := by
    change (s.move i task _).processes[j]? = _ at hj
    rw [System.processes_move hi] at hj
    split at hj
    · cases hj
    · exact h.outcome hj
  past t ht := by
    obtain ⟨phase, hover, hp⟩ := h.past t ht
    refine ⟨phase, hover, (System.processes_move hi _).trans ?_⟩
    split
    · next hti =>
      rw [hti, hi] at hp
      cases hp
      exact hover.elim
    · exact hp
  once := h.once

theorem Serial.inside (h : Serial s₀ s) {done : Nat} {rest : Prog S ε α}
    (hi : s.processes[i]? = some ⟨task, .inside done rest⟩) :
    s.holder = some i ∧ task.prog.after task.handler done (runTurns s.turns s₀) = (rest, s.shared) := by
  refine ⟨h.owns hi, ?_⟩
  obtain ⟨task', done', rest', hi', hafter⟩ := h.held (h.owns hi)
  rw [hi] at hi'
  cases hi'
  exact hafter

theorem Serial.act (h : Serial s₀ s) {done : Nat} {o : S.Op} {k : S.Answer o → Prog S ε α}
    (hi : s.processes[i]? = some ⟨task, .inside done (.op o k)⟩) :
    Serial s₀ { s.move i task (.inside (done + 1) (k (task.handler o s.shared).1)) with
      shared := (task.handler o s.shared).2 } where
  owns {j task' done' rest} hj := by
    change (s.move i task _).processes[j]? = _ at hj
    rw [System.processes_move hi] at hj
    split at hj
    · next hji => exact hji ▸ (h.inside hi).1
    · exact h.owns hj
  held {j} hj := by
    obtain ⟨hholder, hafter⟩ := h.inside hi
    obtain rfl : i = j := Option.some.inj (hholder.symm.trans hj)
    refine ⟨task, done + 1, _, (System.processes_move hi i).trans (if_pos rfl), ?_⟩
    exact after_succ hafter
  free hnone := absurd ((h.inside hi).1.symm.trans hnone) nofun
  outcome {j task' r} hj := by
    change (s.move i task _).processes[j]? = _ at hj
    rw [System.processes_move hi] at hj
    split at hj
    · cases hj
    · exact h.outcome hj
  past t ht := by
    obtain ⟨phase, hover, hp⟩ := h.past t ht
    refine ⟨phase, hover, (System.processes_move hi _).trans ?_⟩
    split
    · next hti =>
      rw [hti, hi] at hp
      cases hp
      exact hover.elim
    · exact hp
  once := h.once

theorem Serial.over (h : Serial s₀ s) {done : Nat} {rest : Prog S ε α} {cut : Option Nat}
    (hi : s.processes[i]? = some ⟨task, .inside done rest⟩) (hphase : phase.Over)
    (hrun : (⟨i, task, cut⟩ : Turn S ε α σ).run (runTurns s.turns s₀) = s.shared)
    (hout : ∀ r, phase = .ended r → cut = none ∧ r = (task.prog.exec task.handler (runTurns s.turns s₀)).1) :
    Serial s₀ (((s.move i task phase).close i).record ⟨i, task, cut⟩) := by
  have hholder := (h.inside hi).1
  have hclosed : (((s.move i task phase).close i).record ⟨i, task, cut⟩).holder = none := if_pos hholder
  refine ⟨fun {j task' done' rest'} hj => ?_, fun hj => absurd (hclosed.symm.trans hj) nofun, fun _ => ?_,
    fun {j task' r} hj => ?_, fun t ht => ?_, ?_⟩
  · change (s.move i task phase).processes[j]? = _ at hj
    rw [System.processes_move hi] at hj
    split at hj
    · cases hj
      exact hphase.elim
    · next hji => exact absurd (Option.some.inj (hholder.symm.trans (h.owns hj))).symm hji
  · change s.shared = runTurns (s.turns ++ [_]) s₀
    rw [runTurns_append]
    exact hrun.symm
  · change (s.move i task phase).processes[j]? = _ at hj
    rw [System.processes_move hi] at hj
    split at hj
    · next hji =>
      cases hj
      obtain ⟨rfl, hr⟩ := hout r rfl
      exact ⟨s.turns, hji ▸ List.prefix_rfl, hr⟩
    · obtain ⟨before, hbefore, hr⟩ := h.outcome hj
      exact ⟨before, hbefore.trans (List.prefix_append _ _), hr⟩
  · rcases List.mem_append.mp ht with ht | ht
    · obtain ⟨phase', hover, hp⟩ := h.past t ht
      refine ⟨phase', hover, (System.processes_move hi _).trans ?_⟩
      split
      · next hti =>
        rw [hti, hi] at hp
        cases hp
        exact hover.elim
      · exact hp
    · obtain rfl := List.mem_singleton.mp ht
      exact ⟨phase, hphase, (System.processes_move hi i).trans (if_pos rfl)⟩
  · have hnew : i ∉ s.turns.map Turn.process := by
      intro hmem
      obtain ⟨t, ht, rfl⟩ := List.mem_map.mp hmem
      obtain ⟨phase', hover, hp⟩ := h.past t ht
      rw [hi] at hp
      cases hp
      exact hover
    change (List.map Turn.process (s.turns ++ [_])).Nodup
    rw [List.map_append, List.map_singleton, ← List.concat_eq_append]
    exact h.once.concat hnew

theorem Serial.step {e : Event S ε α σ} (h : Serial s₀ s) (hs : step e s = some s') : Serial s₀ s' := by
  cases e with
  | start task =>
    rw [← Option.some.inj hs]
    refine h.idle rfl rfl rfl (fun j p _ hj => ?_) (fun j p hj => ?_)
    · exact (List.getElem?_append_left (List.getElem?_eq_some_iff.mp hj).1).trans hj
    · change (s.processes ++ [_])[j]? = _ at hj
      rw [List.getElem?_append] at hj
      split at hj
      · exact .inl hj
      · rw [List.getElem?_singleton] at hj
        split at hj
        · cases hj
          exact .inr trivial
        · cases hj
  | elapse seconds =>
    rw [← Option.some.inj hs]
    exact h.idle rfl rfl rfl (fun _ _ _ hj => hj) fun _ _ hj => .inl hj
  | enter i =>
    simp only [Exclusive.step] at hs
    split at hs
    · next task since hi hfree =>
      rw [← Option.some.inj hs]
      exact h.enter hi hfree
    · cases hs
  | refuse i =>
    simp only [Exclusive.step] at hs
    split at hs
    · next task since j hi hholder =>
      split at hs
      · rw [← Option.some.inj hs]
        exact h.move_idle hi trivial
      · cases hs
    · cases hs
  | act i =>
    simp only [Exclusive.step] at hs
    split at hs
    · next task done o k hi =>
      rw [← Option.some.inj hs]
      exact h.act hi
    · cases hs
  | leave i =>
    simp only [Exclusive.step] at hs
    split at hs
    · next task done a hi =>
      have hend := exec_after (h := task.handler) task.prog done (runTurns s.turns s₀)
      rw [(h.inside hi).2] at hend
      rw [← Option.some.inj hs]
      refine h.over hi trivial (congrArg Prod.snd hend).symm fun r hr => ⟨rfl, ?_⟩
      rw [← Phase.ended.inj hr, ← hend]
      rfl
    · next task done e hi =>
      have hend := exec_after (h := task.handler) task.prog done (runTurns s.turns s₀)
      rw [(h.inside hi).2] at hend
      rw [← Option.some.inj hs]
      refine h.over hi trivial (congrArg Prod.snd hend).symm fun r hr => ⟨rfl, ?_⟩
      rw [← Phase.ended.inj hr, ← hend]
      rfl
    · cases hs
  | kill i =>
    simp only [Exclusive.step] at hs
    split at hs
    · next task since hi =>
      rw [← Option.some.inj hs]
      exact h.move_idle hi trivial
    · next task done rest hi =>
      rw [← Option.some.inj hs]
      refine h.over hi trivial ?_ nofun
      have hcut := after_snd (h := task.handler) task.prog done (runTurns s.turns s₀)
      rw [(h.inside hi).2] at hcut
      exact hcut.symm
    · cases hs

/-- Whatever the order of the steps, each process that had the lock is as it would be, had the
processes run one after the other. -/
theorem serial_of_run {es : List (Event S ε α σ)} (hrun : run es s₀ = some s) :
    Serial s₀ s :=
  Along.invariant (P := fun _ _ => True) (fun _ _ _ _ ht h => h.step ht) (.of_forall fun _ _ _ => trivial) hrun
    (.start s₀)

theorem Serial.shared_eq (h : Serial s₀ s) : s.shared = runTurns s.history s₀ := by
  cases hholder : s.holder with
  | none => rw [h.free hholder, System.history, System.current, hholder, Option.bind_none, Option.toList_none,
      List.append_nil]
  | some i =>
    obtain ⟨task, done, rest, hi, hafter⟩ := h.held hholder
    have hcurrent : s.current = some ⟨i, task, some done⟩ := by
      rw [System.current, hholder, Option.bind_some, hi, Option.bind_some]
    rw [System.history, hcurrent, Option.toList_some, runTurns_append]
    exact (congrArg Prod.snd hafter).symm.trans (after_snd _ _ _)

theorem Serial.exclusive (h : Serial s₀ s) {j done done' : Nat} {task' : Task S ε α σ}
    {rest rest' : Prog S ε α} (hi : s.processes[i]? = some ⟨task, .inside done rest⟩)
    (hj : s.processes[j]? = some ⟨task', .inside done' rest'⟩) : i = j :=
  Option.some.inj ((h.owns hi).symm.trans (h.owns hj))

end

/-! ## What every task keeps -/

section
variable {s₀ : σ} {s s' : System S ε α σ} {P : Task S ε α σ → Prop} {I : σ → Prop}

/-- The tasks that were started. -/
def System.All (P : Task S ε α σ → Prop) (s : System S ε α σ) : Prop := ∀ p ∈ s.processes, P p.task

theorem System.All.move (h : s.All P) {i : Nat} {task : Task S ε α σ} {phase phase' : Phase S ε α}
    (hi : s.processes[i]? = some ⟨task, phase⟩) : (s.move i task phase').All P := by
  intro p hp
  rcases List.mem_or_eq_of_mem_set hp with hp | rfl
  · exact h p hp
  · exact h ⟨task, phase⟩ (List.mem_of_getElem? hi)

theorem System.All.step {e : Event S ε α σ} (h : s.All P) (he : ∀ task, e = .start task → P task)
    (hs : step e s = some s') : s'.All P := by
  cases e with
  | start task =>
    rw [← Option.some.inj hs]
    intro p hp
    rcases List.mem_append.mp hp with hp | hp
    · exact h p hp
    · obtain rfl := List.mem_singleton.mp hp
      exact he task rfl
  | elapse seconds =>
    rw [← Option.some.inj hs]
    exact h
  | enter i =>
    simp only [Exclusive.step] at hs
    split at hs
    · next hi _ =>
      cases hs
      exact h.move hi
    · cases hs
  | refuse i =>
    simp only [Exclusive.step] at hs
    split at hs
    · next hi _ =>
      split at hs
      · cases hs
        exact h.move hi
      · cases hs
    · cases hs
  | act i =>
    simp only [Exclusive.step] at hs
    split at hs
    · next hi =>
      cases hs
      exact h.move hi
    · cases hs
  | leave i | kill i =>
    simp only [Exclusive.step] at hs
    split at hs
    · next hi =>
      cases hs
      exact h.move hi
    · next hi =>
      cases hs
      exact h.move hi
    · cases hs

theorem all_of_run {es : List (Event S ε α σ)} (hes : ∀ task, .start task ∈ es → P task)
    (hrun : run es s₀ = some s) : s.All P := by
  have halong : Along step (fun e _ => ∀ task, e = .start task → P task) es (start s₀) :=
    .of_forall fun e he _ task h => hes task (by rwa [← h])
  exact halong.invariant (fun _ _ _ he ht h => h.step he ht) hrun fun _ hp => absurd hp List.not_mem_nil

theorem Serial.history_of_all (h : Serial s₀ s) (hall : s.All P) : ∀ t ∈ s.history, P t.task := by
  intro t ht
  rcases List.mem_append.mp ht with ht | ht
  · obtain ⟨phase, -, hp⟩ := h.past t ht
    exact hall _ (List.mem_of_getElem? hp)
  · obtain ⟨i, -, hi⟩ := Option.bind_eq_some_iff.mp (Option.mem_toList.mp ht)
    obtain ⟨p, hp, hphase⟩ := Option.bind_eq_some_iff.mp hi
    have htask : P p.task := hall p (List.mem_of_getElem? hp)
    split at hphase
    · rwa [← Option.some.inj hphase]
    · cases hphase

end

end Exclusive
