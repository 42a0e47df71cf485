import Mathlib

/-! Text as a list of characters: the blanks and line breaks of a text-mode
reader, and the cut of a text before each line that opens a new block. -/

abbrev Text := List Char

namespace Text

instance : LawfulBEq Text := inferInstanceAs (LawfulBEq (List Char))

/-- What `str.isspace` and the class `\s` of a text pattern accept. -/
def isSpace (c : Char) : Bool :=
  let n := c.toNat
  (9 ≤ n && n ≤ 13) || (28 ≤ n && n ≤ 32) || n == 0x85 || n == 0xa0 || n == 0x1680 ||
    (0x2000 ≤ n && n ≤ 0x200a) || n == 0x2028 || n == 0x2029 || n == 0x202f ||
    n == 0x205f || n == 0x3000

def lstrip (t : Text) : Text := t.dropWhile isSpace

def strip (t : Text) : Text := (lstrip t).rdropWhile isSpace

def rstripNl (t : Text) : Text := t.rdropWhile (· == '\n')

/-- Text-mode reading: a carriage return, alone or before a newline, reads as a newline. -/
def universalNewlines : Text → Text
  | [] => []
  | ['\r'] => ['\n']
  | '\r' :: '\n' :: cs => '\n' :: universalNewlines cs
  | '\r' :: cs => '\n' :: universalNewlines cs
  | c :: cs => c :: universalNewlines cs

def fileLines (t : Text) : List Text := (universalNewlines t).splitOn '\n'

def decimal (n : Nat) : Text := Nat.toDigits 10 n

def isLineBreak (c : Char) : Bool :=
  let n := c.toNat
  (10 ≤ n && n ≤ 13) || (28 ≤ n && n ≤ 30) || n == 0x85 || n == 0x2028 || n == 0x2029

def splitlinesFrom (line : Text) : Text → List Text
  | [] => if line = [] then [] else [line.reverse]
  | '\r' :: '\n' :: cs => line.reverse :: splitlinesFrom [] cs
  | c :: cs =>
    if isLineBreak c then line.reverse :: splitlinesFrom [] cs else splitlinesFrom (c :: line) cs

/-- `str.splitlines`. -/
def splitlines (t : Text) : List Text := splitlinesFrom [] t

/-! ## Lines -/

def unlines (ls : List Text) : Text := (ls.map (· ++ ['\n'])).flatten

/-- No line break of either kind. -/
def OneLine (t : Text) : Prop := '\n' ∉ t ∧ '\r' ∉ t

theorem universalNewlines_cons {c : Char} {t : Text} (h : c ≠ '\r') :
    universalNewlines (c :: t) = c :: universalNewlines t := by
  rw [universalNewlines]
  · simp [h]
  · simp [h]
  · simp [h]

theorem universalNewlines_of_not_mem {t : Text} (h : '\r' ∉ t) : universalNewlines t = t := by
  induction t with
  | nil => rfl
  | cons c t ih =>
    rw [List.mem_cons, not_or] at h
    rw [universalNewlines_cons (Ne.symm h.1), ih h.2]

theorem universalNewlines_append {x y : Text}
    (h : x.getLast? = some '\r' → y.head? ≠ some '\n') :
    universalNewlines (x ++ y) = universalNewlines x ++ universalNewlines y := by
  fun_induction universalNewlines x with
  | case1 => rfl
  | case2 =>
    cases y with
    | nil => rfl
    | cons c y =>
      have hc : c ≠ '\n' := by simpa using h
      rw [List.singleton_append, universalNewlines]
      · rfl
      · simp
      · simp [hc]
  | case3 cs ih =>
    rw [List.cons_append, List.cons_append, universalNewlines, ih, List.cons_append]
    cases cs with
    | nil => simp
    | cons c cs => simpa using h
  -- a lone carriage return: what follows it is not a newline in either text
  | case4 cs hne hn ih =>
    have hcs : cs ≠ [] := hne
    obtain ⟨c, cs, rfl⟩ := List.exists_cons_of_ne_nil hcs
    have hc : c ≠ '\n' := fun hc => hn cs (by rw [hc])
    rw [List.cons_append, List.cons_append, universalNewlines, ← List.cons_append, ih (by simpa using h),
      List.cons_append]
    · simp
    · simp [hc]
  | case5 c cs h1 h2 h3 ih =>
    have hc : c ≠ '\r' := h3
    rw [List.cons_append, universalNewlines_cons hc, List.cons_append, ih]
    cases cs with
    | nil => simp
    | cons d cs => simpa using h

theorem not_mem_universalNewlines (t : Text) : '\r' ∉ universalNewlines t := by
  fun_induction universalNewlines t with
  | case1 => simp
  | case2 => simp
  | case3 cs ih => simpa using ih
  | case4 cs _ _ ih => simpa using ih
  | case5 c cs h1 h2 h3 ih =>
    have hc : c ≠ '\r' := h3
    simpa [ih] using Ne.symm hc

theorem fileLines_of_oneLine {t : Text} (h : OneLine t) : fileLines t = [t] := by
  rw [fileLines, universalNewlines_of_not_mem h.2, List.splitOn_eq_singleton h.1]

theorem fileLines_ne_nil (t : Text) : fileLines t ≠ [] := List.splitOn_ne_nil _ _

theorem fileLines_append {x y : Text} (h : x.getLast? ≠ some '\r') :
    fileLines (x ++ '\n' :: y) = fileLines x ++ fileLines y := by
  rw [fileLines, universalNewlines_append fun hx => absurd hx h, universalNewlines_cons (by decide),
    List.splitOn_append_cons_self, fileLines, fileLines]

theorem fileLines_unlines {ls : List Text} (h : ∀ l ∈ ls, l.getLast? ≠ some '\r') :
    fileLines (unlines ls) = ls.flatMap fileLines ++ [[]] := by
  induction ls with
  | nil => rfl
  | cons l ls ih =>
    have hl : unlines (l :: ls) = l ++ '\n' :: unlines ls := by simp [unlines]
    rw [hl, fileLines_append (h l List.mem_cons_self),
      ih fun l' hl' => h l' (List.mem_cons_of_mem _ hl'), List.flatMap_cons, List.append_assoc]

theorem splitOn_append_first {a b : Text} {c : Char} (ha : c ∉ a) :
    (a ++ b).splitOn c = (b.splitOn c).modifyHead (a ++ ·) := by
  induction a with
  | nil =>
    rw [List.nil_append]
    cases b.splitOn c <;> rfl
  | cons x a ih =>
    rw [List.mem_cons, not_or] at ha
    rw [List.cons_append, List.splitOn_cons_eq_if_modifyHead, ih ha.2,
      if_neg (by simpa using Ne.symm ha.1)]
    cases b.splitOn c <;> rfl

/-- No line of a text holds a line break. -/
theorem not_lineBreak_of_mem_splitlinesFrom {line t l : Text} (hline : ∀ c ∈ line, isLineBreak c = false)
    (hl : l ∈ splitlinesFrom line t) : ∀ c ∈ l, isLineBreak c = false := by
  fun_induction splitlinesFrom line t with
  | case1 => exact absurd hl List.not_mem_nil
  | case2 line _ =>
    rw [List.mem_singleton.mp hl]
    exact fun c hc => hline c (List.mem_reverse.mp hc)
  | case3 line cs ih =>
    rcases List.mem_cons.mp hl with rfl | hl
    · exact fun c hc => hline c (List.mem_reverse.mp hc)
    · exact ih (fun c hc => absurd hc List.not_mem_nil) hl
  | case4 line c cs _ hc ih =>
    rcases List.mem_cons.mp hl with rfl | hl
    · exact fun c hc => hline c (List.mem_reverse.mp hc)
    · exact ih (fun c hc => absurd hc List.not_mem_nil) hl
  | case5 line c cs _ hc ih =>
    refine ih (fun d hd => ?_) hl
    rcases List.mem_cons.mp hd with rfl | hd
    · simpa using hc
    · exact hline d hd

theorem newline_not_mem_of_mem_splitlines {t l : Text} (hl : l ∈ splitlines t) : '\n' ∉ l := by
  intro h
  have := not_lineBreak_of_mem_splitlinesFrom (fun c hc => absurd hc List.not_mem_nil) hl '\n' h
  cases this

theorem splitlinesFrom_line {acc l t : Text} (h : ∀ c ∈ l, isLineBreak c = false) :
    splitlinesFrom acc (l ++ '\n' :: t) = (acc.reverse ++ l) :: splitlinesFrom [] t := by
  induction l generalizing acc with
  | nil =>
    rw [List.nil_append, splitlinesFrom, if_pos (by decide), List.append_nil]
    simp
  | cons c l ih =>
    have hc := h c List.mem_cons_self
    have hr : c ≠ '\r' := by rintro rfl; cases hc
    rw [List.cons_append, splitlinesFrom, if_neg (by simp [hc]),
      ih fun d hd => h d (List.mem_cons_of_mem c hd)]
    · simp
    · simp [hr]

theorem splitlines_unlines {ls : List Text} (h : ∀ l ∈ ls, ∀ c ∈ l, isLineBreak c = false) :
    splitlines (unlines ls) = ls := by
  induction ls with
  | nil => rfl
  | cons l ls ih =>
    rw [splitlines, show unlines (l :: ls) = l ++ '\n' :: unlines ls by simp [unlines],
      splitlinesFrom_line (h l List.mem_cons_self)]
    exact congrArg (l :: ·) (ih fun m hm => h m (List.mem_cons_of_mem l hm))

/-! ## Lines and characters by their place -/

/-- The lines of a text, by what stands before and after them. -/
theorem mem_splitOn_iff {t l : Text} {c : Char} : l ∈ t.splitOn c ↔ c ∉ l ∧ ∃ a b, t = a ++ l ++ b ∧
    (a = [] ∨ ∃ a', a = a' ++ [c]) ∧ (b = [] ∨ ∃ b', b = c :: b') := by
  constructor
  · intro h
    induction hn : t.length using Nat.strongRecOn generalizing t with
    | ind n ih =>
      by_cases hc : c ∈ t
      · obtain ⟨x, y, rfl, hx⟩ := List.eq_append_cons_of_mem hc
        rw [List.splitOn_append_cons_self_of_not_mem hx, List.mem_cons] at h
        rcases h with rfl | h
        · exact ⟨hx, [], c :: y, by simp, .inl rfl, .inr ⟨y, rfl⟩⟩
        · obtain ⟨hl, a, b, rfl, ha, hb⟩ := ih _ (by rw [← hn]; simp; omega) h rfl
          refine ⟨hl, x ++ c :: a, b, by simp, .inr ?_, hb⟩
          rcases ha with rfl | ⟨a', rfl⟩
          · exact ⟨x, rfl⟩
          · exact ⟨x ++ c :: a', by simp⟩
      · rw [List.splitOn_eq_singleton hc, List.mem_singleton] at h
        exact ⟨h ▸ hc, [], [], by simp [h], .inl rfl, .inl rfl⟩
  · rintro ⟨hl, a, b, rfl, ha, hb⟩
    have hfirst : l ∈ (l ++ b).splitOn c := by
      rcases hb with rfl | ⟨b', rfl⟩
      · rw [List.append_nil, List.splitOn_eq_singleton hl]
        exact List.mem_singleton_self l
      · rw [List.splitOn_append_cons_self_of_not_mem hl]
        exact List.mem_cons_self
    rcases ha with rfl | ⟨a', rfl⟩
    · exact hfirst
    · rw [List.append_assoc, List.append_assoc, List.singleton_append, List.splitOn_append_cons_self]
      exact List.mem_append_right _ hfirst

end Text

namespace Blocks

variable {α : Type} {c : α} {mark : List α}

/-- No `c` of the list is followed by `mark`. -/
def Uncut (c : α) (mark xs : List α) : Prop := ¬ (c :: mark) <:+: xs

theorem uncut_nil : Uncut c mark [] := by
  simp [Uncut]

theorem Uncut.of_infix {xs ys : List α} (h : Uncut c mark ys) (hx : xs <:+: ys) :
    Uncut c mark xs := fun hc => h (hc.trans hx)

theorem uncut_cons_iff {x : α} {xs : List α} :
    Uncut c mark (x :: xs) ↔ ¬ (x = c ∧ mark <+: xs) ∧ Uncut c mark xs := by
  simp only [Uncut, List.infix_cons_iff, List.cons_prefix_cons, not_or, eq_comm]

theorem prefix_append_cons_iff {xs : List α} (ys : List α) (hc : c ∉ mark) :
    mark <+: xs ++ c :: ys ↔ mark <+: xs := by
  refine ⟨fun h => ?_, fun h => h.trans (List.prefix_append _ _)⟩
  rcases le_or_gt mark.length xs.length with hl | hl
  · exact List.prefix_of_prefix_length_le h (List.prefix_append _ _) hl
  · have hp : xs ++ [c] <+: mark := by
      refine List.prefix_of_prefix_length_le (show _ <+: xs ++ c :: ys from ⟨ys, by simp⟩) h ?_
      simpa using Nat.succ_le_of_lt hl
    exact absurd (hp.subset (by simp)) hc

theorem Uncut.append_cons {xs ys : List α} (hc : c ∉ mark) (hx : Uncut c mark xs)
    (hy : Uncut c mark ys) (hm : ¬ mark <+: ys) : Uncut c mark (xs ++ c :: ys) := by
  induction xs with
  | nil => exact uncut_cons_iff.mpr ⟨fun h => hm h.2, hy⟩
  | cons x xs ih =>
    obtain ⟨hx, hxs⟩ := uncut_cons_iff.mp hx
    rw [← prefix_append_cons_iff ys hc] at hx
    exact uncut_cons_iff.mpr ⟨hx, ih hxs⟩

variable [DecidableEq α]

/-- Cut before every `c` that `mark` follows; the cut drops that `c`. -/
def splitBefore (c : α) (mark : List α) : List α → List α × List (List α)
  | [] => ([], [])
  | x :: xs =>
    let r := splitBefore c mark xs
    if x = c ∧ mark.isPrefixOf xs then ([], r.1 :: r.2) else (x :: r.1, r.2)

theorem splitBefore_cons_pos {xs : List α} (h : mark <+: xs) :
    splitBefore c mark (c :: xs) =
      ([], (splitBefore c mark xs).1 :: (splitBefore c mark xs).2) := by
  rw [splitBefore, if_pos ⟨rfl, List.isPrefixOf_iff_prefix.mpr h⟩]

theorem splitBefore_cons_neg {x : α} {xs : List α} (h : ¬ (x = c ∧ mark <+: xs)) :
    splitBefore c mark (x :: xs) =
      (x :: (splitBefore c mark xs).1, (splitBefore c mark xs).2) := by
  rw [← List.isPrefixOf_iff_prefix] at h
  rw [splitBefore, if_neg h]

theorem splitBefore_join (c : α) (mark xs : List α) :
    (splitBefore c mark xs).1 ++ ((splitBefore c mark xs).2.map (c :: ·)).flatten = xs := by
  induction xs with
  | nil => rfl
  | cons x xs ih =>
    by_cases h : x = c ∧ mark <+: xs
    · obtain ⟨rfl, hm⟩ := h
      simp only [splitBefore_cons_pos hm, List.map_cons, List.flatten_cons, List.nil_append,
        List.cons_append, ih]
    · simp only [splitBefore_cons_neg h, List.cons_append, ih]

theorem fst_splitBefore_le (xs : List α) : (splitBefore c mark xs).1 <+: xs :=
  ⟨_, splitBefore_join c mark xs⟩

theorem splitBefore_uncut {xs : List α} (h : Uncut c mark xs) :
    splitBefore c mark xs = (xs, []) := by
  induction xs with
  | nil => rfl
  | cons x xs ih =>
    obtain ⟨hx, hxs⟩ := uncut_cons_iff.mp h
    rw [splitBefore_cons_neg hx, ih hxs]

/-- An uncut list stays whole in front of a block. -/
theorem splitBefore_append_cons {xs ys : List α} (hc : c ∉ mark) (h : Uncut c mark xs)
    (hm : mark <+: ys) :
    splitBefore c mark (xs ++ c :: ys) =
      (xs, (splitBefore c mark ys).1 :: (splitBefore c mark ys).2) := by
  induction xs with
  | nil => exact splitBefore_cons_pos hm
  | cons x xs ih =>
    obtain ⟨hx, hxs⟩ := uncut_cons_iff.mp h
    rw [← prefix_append_cons_iff ys hc] at hx
    rw [List.cons_append, splitBefore_cons_neg hx, ih hxs]

theorem mark_prefix_fst (hc : c ∉ mark) {xs : List α} (h : mark <+: xs) :
    mark <+: (splitBefore c mark xs).1 := by
  have hj := splitBefore_join c mark xs
  rcases hb : (splitBefore c mark xs).2 with _ | ⟨b, bs⟩
  · rw [hb, List.map_nil, List.flatten_nil, List.append_nil] at hj
    rwa [hj]
  · rw [hb] at hj
    rw [← hj, List.map_cons, List.flatten_cons, List.cons_append] at h
    exact (prefix_append_cons_iff _ hc).mp h

theorem mark_prefix_of_mem (hc : c ∉ mark) {xs b : List α} (hb : b ∈ (splitBefore c mark xs).2) :
    mark <+: b := by
  induction xs with
  | nil => simp [splitBefore] at hb
  | cons x xs ih =>
    by_cases h : x = c ∧ mark <+: xs
    · obtain ⟨rfl, hm⟩ := h
      rw [splitBefore_cons_pos hm, List.mem_cons] at hb
      rcases hb with rfl | hb
      · exact mark_prefix_fst hc hm
      · exact ih hb
    · rw [splitBefore_cons_neg h] at hb
      exact ih hb

theorem fst_uncut (xs : List α) : Uncut c mark (splitBefore c mark xs).1 := by
  induction xs with
  | nil => exact uncut_nil
  | cons x xs ih =>
    by_cases h : x = c ∧ mark <+: xs
    · obtain ⟨rfl, hm⟩ := h
      rw [splitBefore_cons_pos hm]
      exact uncut_nil
    · rw [splitBefore_cons_neg h]
      exact uncut_cons_iff.mpr ⟨fun hx => h ⟨hx.1, hx.2.trans (fst_splitBefore_le xs)⟩, ih⟩

theorem mem_uncut {xs b : List α} (hb : b ∈ (splitBefore c mark xs).2) : Uncut c mark b := by
  induction xs with
  | nil => simp [splitBefore] at hb
  | cons x xs ih =>
    by_cases h : x = c ∧ mark <+: xs
    · obtain ⟨rfl, hm⟩ := h
      rw [splitBefore_cons_pos hm, List.mem_cons] at hb
      rcases hb with rfl | hb
      · exact fst_uncut xs
      · exact ih hb
    · rw [splitBefore_cons_neg h] at hb
      exact ih hb

/-- Cutting undoes laying uncut blocks, each opening with the mark, one after another. -/
theorem splitBefore_flatten (hc : c ∉ mark) {h : List α} (hh : Uncut c mark h)
    {bs : List (List α)} (hbs : ∀ b ∈ bs, mark <+: b ∧ Uncut c mark b) :
    splitBefore c mark (h ++ (bs.map (c :: ·)).flatten) = (h, bs) := by
  induction bs generalizing h with
  | nil => simpa using splitBefore_uncut hh
  | cons b bs ih =>
    obtain ⟨hb, hub⟩ := hbs b List.mem_cons_self
    have hrest := ih hub (fun b' hb' => hbs b' (List.mem_cons_of_mem _ hb'))
    rw [List.map_cons, List.flatten_cons, List.cons_append,
      splitBefore_append_cons hc hh (hb.trans (List.prefix_append _ _)), hrest]

theorem splitBefore_append_block {xs ys : List α} (hc : c ∉ mark) (hm : mark <+: ys) :
    splitBefore c mark (xs ++ c :: ys) =
      ((splitBefore c mark xs).1,
        (splitBefore c mark xs).2 ++ (splitBefore c mark ys).1 :: (splitBefore c mark ys).2) := by
  induction xs with
  | nil => exact splitBefore_cons_pos hm
  | cons x xs ih =>
    rw [List.cons_append]
    by_cases h : x = c ∧ mark <+: xs
    · obtain ⟨rfl, hx⟩ := h
      rw [splitBefore_cons_pos (hx.trans (List.prefix_append _ _)), splitBefore_cons_pos hx, ih]
      rfl
    · have h' : ¬ (x = c ∧ mark <+: xs ++ c :: ys) := by rwa [prefix_append_cons_iff ys hc]
      rw [splitBefore_cons_neg h', splitBefore_cons_neg h, ih]

end Blocks
