import PiVpn.Lib.Text

/-! Tables printed one row a line with tabs between the cells, and a pass over rows that
gathers those of one key into one entry. -/

namespace Rows
open Text

/-! ## Printed rows -/

/-- A text that breaks neither the row nor the line. -/
def Clean (t : Text) : Prop := '\t' ∉ t ∧ ∀ c ∈ t, isLineBreak c = false

structure Cell where
  text : Text
  clean : Clean text

theorem clean_of_all {t : Text} (h : t.all (fun c => c != '\t' && !isLineBreak c) = true) : Clean t := by
  simp only [List.all_eq_true, Bool.and_eq_true, bne_iff_ne, ne_eq, Bool.not_eq_eq_eq_not, Bool.not_true] at h
  exact ⟨fun htab => (h _ htab).1 rfl, fun c hc => (h c hc).2⟩

def line (cells : List Text) : Text := ['\t'].intercalate cells

def print (rows : List (List Text)) : Text := unlines (rows.map line)

theorem lineBreak_line {cells : List Text} (h : ∀ t ∈ cells, Clean t) :
    ∀ c ∈ line cells, isLineBreak c = false := by
  induction cells with
  | nil => exact fun c hc => absurd hc List.not_mem_nil
  | cons t cells ih =>
    have hrest := ih fun u hu => h u (List.mem_cons_of_mem t hu)
    cases cells with
    | nil =>
      intro c hc
      rw [line, List.intercalate_singleton] at hc
      exact (h t List.mem_cons_self).2 c hc
    | cons u cells =>
      intro c hc
      rw [line, List.intercalate_cons_cons, List.mem_append, List.mem_append, List.mem_singleton] at hc
      rcases hc with (hc | rfl) | hc
      · exact (h t List.mem_cons_self).2 c hc
      · rfl
      · exact hrest c hc

theorem splitOn_line {cells : List Text} (h : ∀ t ∈ cells, Clean t) (hne : cells ≠ []) :
    (line cells).splitOn '\t' = cells :=
  List.splitOn_intercalate '\t' (fun t ht => (h t ht).1) hne

theorem splitlines_print {rows : List (List Text)} (h : ∀ r ∈ rows, ∀ t ∈ r, Clean t) :
    splitlines (print rows) = rows.map line := by
  apply splitlines_unlines
  intro l hl
  obtain ⟨r, hr, rfl⟩ := List.mem_map.mp hl
  exact lineBreak_line (h r hr)

theorem clean_decimal (n : Nat) : Clean (decimal n) := by
  have hdigit : ∀ c ∈ decimal n, c.isDigit = true := fun c hc =>
    Nat.isDigit_of_mem_toDigits (by decide) (by decide) hc
  constructor
  · intro h
    exact absurd (hdigit _ h) (by decide)
  · intro c hc
    have h := hdigit c hc
    simp only [Char.isDigit, Bool.and_eq_true, decide_eq_true_eq, ge_iff_le, UInt32.le_iff_toNat_le] at h
    have hnat : 48 ≤ c.toNat ∧ c.toNat ≤ 57 := h
    simp only [isLineBreak, Bool.or_eq_false_iff, Bool.and_eq_false_imp, decide_eq_true_eq,
      decide_eq_false_iff_not, beq_eq_false_iff_ne]
    omega

/-! ## Rows gathered by their key -/

section gather

variable {κ ρ α : Type} [DecidableEq κ] [BEq κ] [LawfulBEq κ] (key : ρ → κ) (add : α → ρ → α) (init : α)

/-- A row goes into the entry of its key, which is a new one for a key that is new. -/
def gather (d : List (κ × α)) (r : ρ) : List (κ × α) :=
  (key r, add ((d.lookup (key r)).getD init) r) :: d.filter (·.1 ≠ key r)

variable {key add init}

theorem lookup_gather (d : List (κ × α)) (r : ρ) (k : κ) :
    ((gather key add init d r).lookup k).getD init =
      if key r = k then add ((d.lookup k).getD init) r else (d.lookup k).getD init := by
  rw [gather, List.lookup_cons]
  by_cases hk : key r = k
  · subst hk
    simp
  · have hfilter : (d.filter fun e => e.1 ≠ key r).lookup k = d.lookup k := by
      induction d with
      | nil => rfl
      | cons e d ih =>
        by_cases he : e.1 = key r
        · rw [List.filter_cons_of_neg (by simp [he]), ih, List.lookup_cons,
            show (k == e.1) = false from beq_eq_false_iff_ne.mpr fun h => hk (he.symm.trans h.symm)]
        · rw [List.filter_cons_of_pos (by simp [he]), List.lookup_cons, List.lookup_cons, ih]
    rw [if_neg hk, show (k == key r) = false from beq_eq_false_iff_ne.mpr fun h => hk h.symm, hfilter]

/-- The entry of a key comes from the rows of that key alone, in their order. -/
theorem lookup_foldl_gather (rows : List ρ) (d : List (κ × α)) (k : κ) :
    ((rows.foldl (gather key add init) d).lookup k).getD init =
      (rows.filter fun r => key r = k).foldl add ((d.lookup k).getD init) := by
  induction rows generalizing d with
  | nil => rfl
  | cons r rows ih =>
    rw [List.foldl_cons, ih, lookup_gather]
    by_cases hk : key r = k
    · rw [if_pos hk, List.filter_cons_of_pos (by simpa using hk), List.foldl_cons]
    · rw [if_neg hk, List.filter_cons_of_neg (by simpa using hk)]

omit [BEq κ] [LawfulBEq κ] in
/-- Of groups with different keys, the rows of one key are those of its group. -/
theorem filter_flatMap {γ : Type} {groups : List γ} {rows : γ → List ρ} {name : γ → κ}
    (hkey : ∀ g ∈ groups, ∀ r ∈ rows g, key r = name g) (hnodup : (groups.map name).Nodup) (k : κ) :
    (groups.flatMap rows).filter (fun r => key r = k) =
      ((groups.find? fun g => name g = k).map rows).getD [] := by
  induction groups with
  | nil => rfl
  | cons g groups ih =>
    rw [List.map_cons, List.nodup_cons] at hnodup
    have hrest := ih (fun g' hg' => hkey g' (List.mem_cons_of_mem g hg')) hnodup.2
    rw [List.flatMap_cons, List.filter_append, hrest]
    by_cases hk : name g = k
    · have hall : (rows g).filter (fun r => key r = k) = rows g :=
        List.filter_eq_self.mpr fun r hr => decide_eq_true ((hkey g List.mem_cons_self r hr).trans hk)
      have hnone : groups.find? (fun g' => name g' = k) = none := by
        rw [List.find?_eq_none]
        intro g' hg' hname
        refine hnodup.1 (List.mem_map.mpr ⟨g', hg', ?_⟩)
        rw [of_decide_eq_true hname, hk]
      rw [List.find?_cons_of_pos (by simpa using hk), hall, hnone]
      exact List.append_nil _
    · have hnil : (rows g).filter (fun r => key r = k) = [] := by
        rw [List.filter_eq_nil_iff]
        intro r hr hr'
        exact hk ((hkey g List.mem_cons_self r hr).symm.trans (of_decide_eq_true hr'))
      rw [List.find?_cons_of_neg (by simpa using hk), hnil, List.nil_append]

end gather

end Rows
