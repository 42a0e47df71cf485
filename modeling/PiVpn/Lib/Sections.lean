import Mathlib

/-! Files of sections: a header opens a section, and the settings up to the next header
are the section's own. -/

namespace Sections

inductive Entry (η σ : Type) where
  | header (h : η)
  | setting (s : σ)

structure Part (η σ : Type) where
  header : η
  settings : List σ
  deriving DecidableEq

variable {η σ : Type}

/-- The settings before the first header, and the sections. -/
def fragment : List (Entry η σ) → List σ × List (Part η σ)
  | [] => ([], [])
  | .header h :: es => ([], ⟨h, (fragment es).1⟩ :: (fragment es).2)
  | .setting s :: es => (s :: (fragment es).1, (fragment es).2)

def parts (es : List (Entry η σ)) : List (Part η σ) := (fragment es).2

theorem fragment_settings (ss : List σ) (es : List (Entry η σ)) :
    fragment (ss.map .setting ++ es) = (ss ++ (fragment es).1, (fragment es).2) := by
  induction ss with
  | nil => rfl
  | cons s ss ih => simp only [List.map_cons, List.cons_append, fragment, ih]

/-- What opens a section of its own leaves the settings before it where they were. -/
def Opens (es : List (Entry η σ)) : Prop := ∃ h rest, es = .header h :: rest

theorem fragment_append {es fs : List (Entry η σ)} (hf : fs = [] ∨ Opens fs) :
    fragment (es ++ fs) = ((fragment es).1, (fragment es).2 ++ parts fs) := by
  induction es with
  | nil =>
    rcases hf with rfl | ⟨h, rest, rfl⟩
    · rfl
    · rfl
  | cons e es ih =>
    cases e with
    | header h => simp only [List.cons_append, fragment, ih]
    | setting s => simp only [List.cons_append, fragment, ih]

theorem parts_append {es fs : List (Entry η σ)} (hf : fs = [] ∨ Opens fs) :
    parts (es ++ fs) = parts es ++ parts fs := by
  unfold parts
  rw [fragment_append hf]
  rfl

theorem parts_append_flatMap {β : Type} {f : β → List (Entry η σ)} {bs : List β}
    (hf : ∀ b ∈ bs, Opens (f b)) (es : List (Entry η σ)) :
    parts (es ++ bs.flatMap f) = parts es ++ bs.flatMap fun b => parts (f b) := by
  induction bs generalizing es with
  | nil => simp
  | cons b bs ih =>
    have htail := fun c hc => hf c (List.mem_cons_of_mem b hc)
    have hb : Opens (f b ++ bs.flatMap f) := by
      obtain ⟨h, rest, hr⟩ := hf b List.mem_cons_self
      exact ⟨h, rest ++ bs.flatMap f, by rw [hr, List.cons_append]⟩
    rw [List.flatMap_cons, parts_append (.inr hb), ih htail (f b), List.flatMap_cons]

end Sections

namespace List

variable {α β : Type} {p : α → Bool} {q : β → Bool} {f : β → List α}

/-- Of blocks kept whole as far as they go, nothing else is kept only if the others hold
nothing to keep. -/
theorem filter_eq_nil_of_flatMap_filter {bs : List β} (hq : ∀ b ∈ bs, q b = true → ∀ x ∈ f b, p x = true)
    (h : (bs.filter q).flatMap f = (bs.flatMap f).filter p) :
    ∀ b ∈ bs, q b = false → (f b).filter p = [] := by
  induction bs with
  | nil => simp
  | cons b bs ih =>
    have hq' := fun c hc => hq c (mem_cons_of_mem b hc)
    rw [flatMap_cons, filter_append] at h
    cases hb : q b with
    | true =>
      have hall : (f b).filter p = f b := filter_eq_self.mpr (hq b mem_cons_self hb)
      rw [filter_cons_of_pos hb, flatMap_cons, hall, append_cancel_left_eq] at h
      intro c hc hcq
      rcases mem_cons.mp hc with rfl | hc
      · rw [hb] at hcq
        cases hcq
      · exact ih hq' h c hc hcq
    | false =>
      rw [filter_cons_of_neg (by simp [hb])] at h
      -- the kept blocks already fill what the later blocks can keep
      have hkept : ((bs.filter q).flatMap f).filter p = (bs.filter q).flatMap f := by
        apply filter_eq_self.mpr
        intro x hx
        obtain ⟨c, hc, hx⟩ := mem_flatMap.mp hx
        exact hq' c (mem_filter.mp hc).1 (mem_filter.mp hc).2 x hx
      have hle : ((bs.filter q).flatMap f).length ≤ ((bs.flatMap f).filter p).length := by
        rw [← hkept]
        exact ((filter_sublist.flatMap f).filter p).length_le
      have hlen := congrArg length h
      rw [length_append] at hlen
      have hnil : (f b).filter p = [] := length_eq_zero_iff.mp (by omega)
      rw [hnil, nil_append] at h
      intro c hc hcq
      rcases mem_cons.mp hc with rfl | hc
      · exact hnil
      · exact ih hq' h c hc hcq

/-- Keeping some blocks keeps just the elements asked for when each block is asked for
as a whole. -/
theorem append_flatMap_filter_iff {as : List α} {bs : List β} :
    as ++ (bs.filter q).flatMap f = (as ++ bs.flatMap f).filter p ↔
      (∀ x ∈ as, p x = true) ∧ ∀ b ∈ bs, ∀ x ∈ f b, p x = q b := by
  rw [filter_append]
  constructor
  · intro h
    -- what is kept passes the test, so a block that is dropped has nothing that passes
    have hmem : ∀ x ∈ as ++ (bs.filter q).flatMap f, p x = true := by
      intro x hx
      rw [h, ← filter_append] at hx
      exact (mem_filter.mp hx).2
    have has : ∀ x ∈ as, p x = true := fun x hx => hmem x (mem_append_left _ hx)
    have hq : ∀ b ∈ bs, q b = true → ∀ x ∈ f b, p x = true := fun b hb hqb x hx =>
      hmem x (mem_append_right _ (mem_flatMap.mpr ⟨b, mem_filter.mpr ⟨hb, hqb⟩, hx⟩))
    rw [filter_eq_self.mpr has, append_cancel_left_eq] at h
    refine ⟨has, fun b hb x hx => ?_⟩
    cases hqb : q b with
    | true => exact hq b hb hqb x hx
    | false =>
      have hnil := filter_eq_nil_of_flatMap_filter hq h b hb hqb
      exact Bool.eq_false_iff.mpr (filter_eq_nil_iff.mp hnil x hx)
  · rintro ⟨has, hbs⟩
    rw [filter_eq_self.mpr has]
    congr 1
    induction bs with
    | nil => rfl
    | cons b bs ih =>
      have ih := ih fun c hc => hbs c (mem_cons_of_mem b hc)
      have hb := hbs b mem_cons_self
      rw [flatMap_cons, filter_append]
      cases hqb : q b with
      | true =>
        rw [hqb] at hb
        rw [filter_cons_of_pos hqb, flatMap_cons, filter_eq_self.mpr hb, ih]
      | false =>
        rw [hqb] at hb
        have hnil : (f b).filter p = [] := by
          apply filter_eq_nil_iff.mpr
          intro x hx
          simp [hb x hx]
        rw [filter_cons_of_neg (by simp [hqb]), ih, hnil, nil_append]

end List
