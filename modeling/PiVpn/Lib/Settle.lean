import Mathlib

/-! A step that is repeated: when the states settle into finished ones for good. A measure
that every unfinished step lowers brings them there; an invariant that no finished state has
keeps them away. Where a step is a pass over actions, each goal settles by its own action, as
long as the others leave what it looks at alone. -/

namespace Settle

variable {σ : Type} {step : σ → σ} {I Done : σ → Prop} {s : σ}

/-- From some repetition on every state is finished. -/
def Settles (step : σ → σ) (Done : σ → Prop) (s : σ) : Prop := ∃ n, ∀ m, n ≤ m → Done (step^[m] s)

theorem iterate_invariant (hkeep : ∀ t, I t → I (step t)) (hs : I s) (n : Nat) : I (step^[n] s) := by
  induction n with
  | zero => exact hs
  | succ n ih =>
    rw [Function.iterate_succ_apply']
    exact hkeep _ ih

/-- A state that settles after one step settles. -/
theorem Settles.of_step (h : Settles step Done (step s)) : Settles step Done s := by
  obtain ⟨n, hn⟩ := h
  refine ⟨n + 1, fun m hm => ?_⟩
  obtain ⟨k, rfl⟩ := Nat.exists_eq_add_of_le hm
  have hrest := hn (n + k) (Nat.le_add_right n k)
  rwa [← Function.iterate_succ_apply, show (n + k).succ = n + 1 + k by omega] at hrest

theorem settles_of_measure (μ : σ → Nat) (hkeep : ∀ t, I t → I (step t))
    (hstay : ∀ t, I t → Done t → Done (step t)) (hlower : ∀ t, I t → ¬ Done t → μ (step t) < μ t)
    (hs : I s) : Settles step Done s := by
  induction hμ : μ s using Nat.strong_induction_on generalizing s with
  | _ n ih =>
    by_cases hdone : Done s
    · refine ⟨0, fun m _ => ?_⟩
      have hboth : ∀ t, I t ∧ Done t → I (step t) ∧ Done (step t) :=
        fun t ht => ⟨hkeep t ht.1, hstay t ht.1 ht.2⟩
      exact (iterate_invariant hboth ⟨hs, hdone⟩ m).2
    · apply Settles.of_step
      apply ih (μ (step s)) _ (hkeep s hs) rfl
      rw [← hμ]
      exact hlower s hs hdone

theorem not_settles_of_invariant (hkeep : ∀ t, I t → I (step t)) (hout : ∀ t, I t → ¬ Done t) (hs : I s) :
    ¬ Settles step Done s := by
  rintro ⟨n, hn⟩
  exact hout _ (iterate_invariant hkeep hs n) (hn n le_rfl)

/-- Finitely many goals that settle one by one settle together. -/
theorem Settles.forall_mem {τ : Type} {goals : List τ} {Done : τ → σ → Prop}
    (h : ∀ t ∈ goals, Settles step (Done t) s) :
    Settles step (fun s' => ∀ t ∈ goals, Done t s') s := by
  induction goals with
  | nil => exact ⟨0, fun m _ t ht => absurd ht List.not_mem_nil⟩
  | cons t goals ih =>
    rw [List.forall_mem_cons] at h
    obtain ⟨n₁, h₁⟩ := h.1
    obtain ⟨n₂, h₂⟩ := ih h.2
    refine ⟨max n₁ n₂, fun m hm => List.forall_mem_cons.mpr ⟨?_, ?_⟩⟩
    · exact h₁ m (le_of_max_le_left hm)
    · exact h₂ m (le_of_max_le_right hm)

theorem Settles.mono {Done' : σ → Prop} (h : Settles step Done s) (himp : ∀ t, Done t → Done' t) :
    Settles step Done' s := by
  obtain ⟨n, hn⟩ := h
  exact ⟨n, fun m hm => himp _ (hn m hm)⟩

/-! ## A pass over actions -/

section pass

variable {τ ν : Type} {act : τ → σ → σ} {view : σ → ν} {goal : τ} {before after : List τ}

/-- One action after the other. -/
def pass (act : τ → σ → σ) (ts : List τ) (s : σ) : σ := ts.foldl (fun s' t => act t s') s

theorem view_pass (view : σ → ν) {ts : List τ} (h : ∀ t ∈ ts, ∀ s', view (act t s') = view s') (s : σ) :
    view (pass act ts s) = view s := by
  induction ts generalizing s with
  | nil => rfl
  | cons t ts ih =>
    rw [List.forall_mem_cons] at h
    exact (ih h.2 (act t s)).trans (h.1 s)

/-- What every action keeps, a pass keeps. -/
theorem pass_invariant {ts : List τ} (h : ∀ t ∈ ts, ∀ s', I s' → I (act t s')) (hs : I s) :
    I (pass act ts s) := by
  induction ts generalizing s with
  | nil => exact hs
  | cons t ts ih =>
    rw [List.forall_mem_cons] at h
    exact ih h.2 (h.1 s hs)

/-- Of a pass a goal sees what its own action does to what it has seen before. -/
theorem view_pass_goal (goal : τ) (h : ∀ t ∈ before ++ after, ∀ s', view (act t s') = view s') (s : σ) :
    ∃ s', view s' = view s ∧ view (pass act (before ++ goal :: after) s) = view (act goal s') := by
  refine ⟨pass act before s, view_pass view (fun t ht => h t (List.mem_append_left _ ht)) s, ?_⟩
  rw [pass, List.foldl_append, List.foldl_cons]
  exact view_pass view (fun t ht => h t (List.mem_append_right _ ht)) _

section goal

variable (h : ∀ t ∈ before ++ after, ∀ s', view (act t s') = view s')

include h

theorem pass_goal_keeps (hI : I.FactorsThrough view) (hkeep : ∀ s', I s' → I (act goal s')) (hs : I s) :
    I (pass act (before ++ goal :: after) s) := by
  obtain ⟨s', hs', hpass⟩ := view_pass_goal goal h s
  rw [hI hpass]
  exact hkeep s' (hI hs' ▸ hs)

/-- A goal that sees only what its own action changes settles by that action. -/
theorem settles_pass (μ : σ → Nat) (hI : I.FactorsThrough view) (hDone : Done.FactorsThrough view)
    (hμ : μ.FactorsThrough view) (hkeep : ∀ s', I s' → I (act goal s'))
    (hstay : ∀ s', I s' → Done s' → Done (act goal s'))
    (hlower : ∀ s', I s' → ¬ Done s' → μ (act goal s') < μ s') (hs : I s) :
    Settles (pass act (before ++ goal :: after)) Done s := by
  apply settles_of_measure μ (I := I)
  · exact fun v hv => pass_goal_keeps h hI hkeep hv
  · intro v hv hdone
    obtain ⟨s', hs', hpass⟩ := view_pass_goal goal h v
    rw [hDone hpass]
    exact hstay s' (hI hs' ▸ hv) (hDone hs' ▸ hdone)
  · intro v hv hnot
    obtain ⟨s', hs', hpass⟩ := view_pass_goal goal h v
    rw [hμ hpass, ← hμ hs']
    exact hlower s' (hI hs' ▸ hv) (hDone hs' ▸ hnot)
  · exact hs

theorem not_settles_pass (hI : I.FactorsThrough view) (hkeep : ∀ s', I s' → I (act goal s'))
    (hout : ∀ s', I s' → ¬ Done s') (hs : I s) : ¬ Settles (pass act (before ++ goal :: after)) Done s :=
  not_settles_of_invariant (fun _ hv => pass_goal_keeps h hI hkeep hv) hout hs

end goal

end pass

end Settle
