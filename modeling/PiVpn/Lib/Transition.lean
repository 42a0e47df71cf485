import Mathlib

/-! Runs of a labelled step function, conditions on their steps, and the rule by which
an invariant of one step is one of the whole run. -/

namespace Transition

variable {L σ : Type} {step : L → σ → Option σ} {P P' : L → σ → Prop} {I : σ → Prop}

/-- Take the steps in order; none where one of them cannot be taken. -/
def steps (step : L → σ → Option σ) : List L → σ → Option σ
  | [], s => some s
  | l :: ls, s => (step l s).bind (steps step ls)

/-- Every step of the run meets the condition in the state where it is taken. -/
def Along (step : L → σ → Option σ) (P : L → σ → Prop) : List L → σ → Prop
  | [], _ => True
  | l :: ls, s => P l s ∧ ∀ t, step l s = some t → Along step P ls t

theorem steps_cons {l : L} {ls : List L} {s s' : σ} :
    steps step (l :: ls) s = some s' ↔ ∃ t, step l s = some t ∧ steps step ls t = some s' :=
  Option.bind_eq_some_iff

/-- What holds at first and is kept by every step that meets the condition holds after
every run of such steps. -/
theorem Along.invariant (hstep : ∀ l s t, P l s → step l s = some t → I s → I t) {ls : List L}
    {s s' : σ} (hP : Along step P ls s) (hrun : steps step ls s = some s') (hs : I s) : I s' := by
  induction ls generalizing s with
  | nil =>
    obtain rfl : s = s' := Option.some.inj hrun
    exact hs
  | cons l ls ih =>
    obtain ⟨t, ht, hrest⟩ := steps_cons.mp hrun
    exact ih (hP.2 t ht) hrest (hstep l s t hP.1 ht hs)

/-- A condition that each step meets wherever it is taken. -/
theorem Along.of_forall {ls : List L} {s : σ} (h : ∀ l ∈ ls, ∀ s, P l s) : Along step P ls s := by
  induction ls generalizing s with
  | nil => trivial
  | cons l ls ih =>
    exact ⟨h l List.mem_cons_self s, fun t _ => ih fun l' hl' => h l' (List.mem_cons_of_mem l hl')⟩

/-- What the steps of a run cost. -/
def cost (step : L → σ → Option σ) (price : L → σ → Nat) : List L → σ → Nat
  | [], _ => 0
  | l :: ls, s => price l s + (step l s).elim 0 (cost step price ls)

/-- Steps that lower a rank, up to what they cost, come to an end. -/
theorem Along.length_le {rank : σ → Nat} {price : L → σ → Nat}
    (hstep : ∀ l s t, P l s → step l s = some t → rank t < rank s + price l s)
    {ls : List L} {s s' : σ} (hP : Along step P ls s) (hrun : steps step ls s = some s') :
    ls.length + rank s' ≤ rank s + cost step price ls s := by
  induction ls generalizing s with
  | nil =>
    obtain rfl : s = s' := Option.some.inj hrun
    simp
  | cons l ls ih =>
    obtain ⟨t, ht, hrest⟩ := steps_cons.mp hrun
    have hlower := hstep l s t hP.1 ht
    have hlater := ih (hP.2 t ht) hrest
    rw [List.length_cons, cost, ht, Option.elim_some]
    omega

/-- A condition along one run and another after it. -/
theorem Along.append {ls ls' : List L} {s : σ} (h : Along step P (ls ++ ls') s) :
    Along step P ls s ∧ ∀ t, steps step ls s = some t → Along step P ls' t := by
  induction ls generalizing s with
  | nil =>
    refine ⟨trivial, fun t ht => ?_⟩
    rwa [← Option.some.inj ht]
  | cons l ls ih =>
    refine ⟨⟨h.1, fun t ht => (ih (h.2 t ht)).1⟩, fun t ht => ?_⟩
    obtain ⟨u, hu, hrest⟩ := steps_cons.mp ht
    exact (ih (h.2 u hu)).2 t hrest

theorem Along.and {ls : List L} {s : σ} (h : Along step P ls s) (h' : Along step P' ls s) :
    Along step (fun l s => P l s ∧ P' l s) ls s := by
  induction ls generalizing s with
  | nil => trivial
  | cons l ls ih => exact ⟨⟨h.1, h'.1⟩, fun t ht => ih (h.2 t ht) (h'.2 t ht)⟩

instance decidableAlong [∀ l s, Decidable (P l s)] : ∀ ls s, Decidable (Along step P ls s)
  | [], _ => .isTrue trivial
  | l :: ls, s =>
    have := decidableAlong ls
    match h : step l s with
    | none => decidable_of_iff (P l s) (by simp [Along, h])
    | some t => decidable_of_iff (P l s ∧ Along step P ls t) (by simp [Along, h])

end Transition
