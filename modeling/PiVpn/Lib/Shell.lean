import PiVpn.Lib.Text

/-! What a shell script does with text: `$(...)`, the lines of a text, and `read` with a
separator that is no blank. -/

namespace Shell
open Text

/-- `$(...)` drops the newlines at the end. -/
def captured (t : Text) : Text := t.rdropWhile (· = '\n')

theorem unlines_cons (l : Text) (ls : List Text) : unlines (l :: ls) = l ++ '\n' :: unlines ls := by
  rw [unlines, List.map_cons, List.flatten_cons, List.append_assoc, List.singleton_append, unlines]

theorem splitOn_unlines_append {ls : List Text} {l : Text} (h : ∀ x ∈ ls, '\n' ∉ x) (hl : '\n' ∉ l) :
    (unlines ls ++ l).splitOn '\n' = ls ++ [l] := by
  induction ls with
  | nil => exact List.splitOn_eq_singleton hl
  | cons x ls ih =>
    have hrest := ih fun y hy => h y (List.mem_cons_of_mem x hy)
    rw [unlines_cons, List.append_assoc, List.cons_append,
      List.splitOn_append_cons_self_of_not_mem (h x List.mem_cons_self), hrest, List.cons_append]

theorem captured_append_newline {v : Text} (h : '\n' ∉ v) : captured (v ++ ['\n']) = v := by
  rw [captured, List.rdropWhile_concat_pos _ _ _ (by decide), List.rdropWhile_eq_self_iff]
  intro hne
  have hlast : v.getLast hne ≠ '\n' := fun heq => h (heq ▸ List.getLast_mem hne)
  simpa using hlast

theorem captured_unlines (ls : List Text) {l : Text} (hl : '\n' ∉ l) (hne : l ≠ []) :
    captured (unlines (ls ++ [l])) = unlines ls ++ l := by
  have hfile : unlines (ls ++ [l]) = (unlines ls ++ l) ++ ['\n'] := by simp [unlines]
  rw [hfile, captured, List.rdropWhile_concat_pos _ _ _ (by decide), List.rdropWhile_eq_self_iff]
  intro hne'
  have hmem : (unlines ls ++ l).getLast hne' ∈ l := by
    rw [List.getLast_append_of_right_ne_nil _ _ hne]
    exact List.getLast_mem hne
  have hlast : (unlines ls ++ l).getLast hne' ≠ '\n' := fun heq => hl (heq ▸ hmem)
  simpa using hlast

theorem splitOn_captured_unlines {ls : List Text} (hne : ls ≠ []) (h : ∀ l ∈ ls, '\n' ∉ l ∧ l ≠ []) :
    (captured (unlines ls)).splitOn '\n' = ls := by
  obtain ⟨ls, l, rfl⟩ := (List.eq_nil_or_concat' ls).resolve_left hne
  obtain ⟨hfirst, hlast⟩ := List.forall_mem_append.mp h
  obtain ⟨hl, hlne⟩ := List.forall_mem_singleton.mp hlast
  rw [captured_unlines ls hl hlne, splitOn_unlines_append (fun x hx => (hfirst x hx).1) hl]

/-! ## `read` -/

/-- One word of `IFS=c read`, and the text behind its separator. -/
def readWord (c : Char) (t : Text) : Text × Text := (t.takeWhile (· ≠ c), (t.dropWhile (· ≠ c)).tail)

/-- The last variable takes the rest, without a separator that is its only one and ends it. -/
def readRest (c : Char) (t : Text) : Text :=
  if (t.dropWhile (· ≠ c)).length ≤ 1 then t.takeWhile (· ≠ c) else t

variable {c : Char} {a t : Text}

theorem not_mem_readWord : c ∉ (readWord c t).1 := by
  intro hmem
  simpa using List.mem_takeWhile_imp hmem

theorem readWord_append_cons (h : c ∉ a) : readWord c (a ++ c :: t) = (a, t) := by
  have hall : ∀ x ∈ a, decide (x ≠ c) = true := fun x hx => decide_eq_true fun heq => h (heq ▸ hx)
  rw [readWord, List.takeWhile_append_of_pos hall, List.dropWhile_append_of_pos hall,
    List.takeWhile_cons_of_neg (by simp), List.dropWhile_cons_of_neg (by simp), List.append_nil, List.tail_cons]

theorem readRest_of_not_mem (h : c ∉ t) : readRest c t = t := by
  have hall : ∀ x ∈ t, decide (x ≠ c) = true := fun x hx => decide_eq_true fun heq => h (heq ▸ hx)
  rw [readRest, List.dropWhile_eq_nil_iff.mpr hall, if_pos (by decide), List.takeWhile_eq_self_iff.mpr hall]

end Shell
