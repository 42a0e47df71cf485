import PiVpn.Lib.Pattern

/-! Sections of setting lines: what the setting pattern of a key finds in a section
that is written line by line. -/

namespace Pattern
open Text

/-- `KEY = value`. -/
def setting (key value : Text) : Text := key ++ (equals ++ value)

/-- A line with a first character that is no blank, and that does not open with the key. -/
structure Skips (key l : Text) : Prop where
  oneLine : '\n' ∉ l
  head : ∃ c cs, l = c :: cs ∧ isSpace c = false
  other : ¬ key <+: l

variable {key : Text}

theorem search_skip {b l t : Text} (hk : IsKey key) (hn : '\n' ∉ key) (h : Skips key l) :
    (keyLine key).search b (l ++ '\n' :: t) =
      (keyLine key).search ((l ++ ['\n']).reverse ++ b) t := by
  obtain ⟨c, cs, rfl, hc⟩ := h.head
  rw [keyLine_search_line hk h.oneLine]
  · simp
  · rw [lstrip, List.cons_append, List.dropWhile_cons, if_neg (by simp [hc]), ← List.cons_append,
      Blocks.prefix_append_cons_iff _ hn]
    exact h.other

theorem search_skips {b t : Text} (hk : IsKey key) (hn : '\n' ∉ key) {ls : List Text}
    (h : ∀ l ∈ ls, Skips key l) :
    (keyLine key).search b (unlines ls ++ t) =
      (keyLine key).search ((unlines ls).reverse ++ b) t := by
  induction ls generalizing b with
  | nil => rfl
  | cons l ls ih =>
    have hu : unlines (l :: ls) = l ++ '\n' :: unlines ls := by simp [unlines]
    rw [hu, List.append_assoc, List.cons_append, search_skip hk hn (h l List.mem_cons_self),
      ih fun l' hl' => h l' (List.mem_cons_of_mem _ hl')]
    simp

theorem search_newlines {b t : Text} (hk : IsKey key) (ht : ∀ c ∈ t, c = '\n') :
    (keyLine key).search b t = none := by
  refine keyLine_search_of_not_infix hk fun h => ?_
  obtain ⟨c, cs, rfl, hc⟩ := hk
  rw [ht c (h.subset List.mem_cons_self)] at hc
  exact absurd hc (by decide)

theorem search_step {b t : Text} {c : Char} (hb : atLineStart b = false) :
    (keyLine key).search b (c :: t) = (keyLine key).search (c :: b) t := by
  rw [Capture.search, keyLine_run_of_not_lineStart hb]
  rfl

theorem captures_of_search {p : Capture} {t v b w u : Text} (h : p.search [] t = some (v, .skip b w u))
    (hrest : p.search b (w ++ u) = none) : p.captures t = [v] := by
  have hend : p.search (w.reverse ++ b) u = none := Capture.search_suffix hrest
  rw [Capture.captures, Capture.findAll, Cursor.start]
  simp only [h]
  cases t.length with
  | zero => rfl
  | succ n => simp only [Capture.findAll, Cursor.skip, hend]

theorem captures_of_none {p : Capture} {t : Text} (h : p.search [] t = none) : p.captures t = [] := by
  rw [Capture.captures, Capture.findAll, Cursor.start]
  simp only [h]

theorem first_eq_none {t : Text} (h : (keyLine key).search [] t = none) :
    (keyLine key).first t = none := by
  rw [Capture.first, h]
  rfl

theorem search_absent (ls : List Text) (t : Text) (hk : IsKey key) (hn : '\n' ∉ key)
    (h : ∀ l ∈ ls, Skips key l) (ht : ∀ c ∈ t, c = '\n') :
    (keyLine key).search [] (unlines ls ++ t) = none := by
  rw [search_skips hk hn h, search_newlines hk ht]

theorem atLineStart_unlines (ls : List Text) : atLineStart ((unlines ls).reverse ++ []) = true := by
  induction ls using List.reverseRecOn with
  | nil => rfl
  | append_singleton ls l => simp [unlines, atLineStart]

/-- A section with the key on one line, blanks before it or not: that line's value is
found, and no other. -/
theorem search_present (pre post : List Text) (ws t : Text) {v : Text} (hk : IsKey key) (hn : '\n' ∉ key)
    (hpre : ∀ l ∈ pre, Skips key l) (hws : ∀ c ∈ ws, isSpace c = true) (hv : IsValue v)
    (hpost : ∀ l ∈ post, Skips key l) (ht : ∀ c ∈ t, c = '\n') {text : Text}
    (htext : text = unlines pre ++ (ws ++ (setting key v ++ '\n' :: (unlines post ++ t)))) :
    (keyLine key).first text = some v ∧ (keyLine key).captures text = [v] := by
  have hsearch := search_skips (b := []) (t := ws ++ (setting key v ++ '\n' :: (unlines post ++ t)))
    hk hn hpre
  obtain ⟨w, u, hwu, hmatch⟩ := keyLine_search_match (b := (unlines pre).reverse ++ [])
    (t := '\n' :: (unlines post ++ t)) hk (atLineStart_unlines pre) hws hv rfl
  have hs : setting key v ++ '\n' :: (unlines post ++ t) =
      key ++ (equals ++ (v ++ '\n' :: (unlines post ++ t))) := by simp [setting]
  rw [← htext, hs, hmatch] at hsearch
  refine ⟨by rw [Capture.first, hsearch]; rfl, captures_of_search hsearch ?_⟩
  obtain ⟨cs, z, rfl, hz⟩ := hv.last
  have hz' : z ≠ '\n' := by
    rintro rfl
    exact absurd hz (by decide)
  rw [← hwu, search_step (by simp [atLineStart, hz']), search_skips hk hn hpost,
    search_newlines hk ht]

/-- The text of a section: its mark, then its settings line by line. -/
def sectionText (mark : Text) (settings : List (Text × Text)) : Text :=
  unlines (mark :: settings.map fun e => setting e.1 e.2)

theorem lookup_of_split {pre post : List (Text × Text)} {v : Text}
    (h : ∀ e ∈ pre, e.1 ≠ key) : (pre ++ (key, v) :: post).lookup key = some v := by
  induction pre with
  | nil => simp
  | cons e pre ih =>
    obtain ⟨k, u⟩ := e
    have hk : (key == k) = false := beq_eq_false_iff_ne.mpr (h (k, u) List.mem_cons_self).symm
    rw [List.cons_append, List.lookup_cons, hk]
    exact ih fun e he => h e (List.mem_cons_of_mem _ he)

/-- In a section that holds no key twice, searching for a key looks its setting up. -/
theorem search_section {mark : Text} {settings : List (Text × Text)} (hk : IsKey key)
    (hn : '\n' ∉ key) (hmark : Skips key mark)
    (hother : ∀ e ∈ settings, e.1 ≠ key → Skips key (setting e.1 e.2))
    (hval : ∀ e ∈ settings, e.1 = key → IsValue e.2) (hnd : (settings.map Prod.fst).Nodup) :
    (keyLine key).first (sectionText mark settings) = settings.lookup key ∧
      (keyLine key).captures (sectionText mark settings) = (settings.lookup key).toList := by
  by_cases hmem : key ∈ settings.map Prod.fst
  · obtain ⟨⟨k, v⟩, he, rfl⟩ := List.mem_map.mp hmem
    obtain ⟨pre, post, rfl⟩ := List.append_of_mem he
    rw [List.map_append, List.map_cons, List.nodup_append] at hnd
    have hpre : ∀ e ∈ pre, e.1 ≠ k := fun e hp =>
      hnd.2.2 e.1 (List.mem_map_of_mem hp) k List.mem_cons_self
    have hpost : ∀ e ∈ post, e.1 ≠ k := fun e hp hek =>
      (List.nodup_cons.mp hnd.2.1).1 (List.mem_map.mpr ⟨e, hp, hek⟩)
    rw [lookup_of_split hpre]
    refine search_present (mark :: pre.map fun e => setting e.1 e.2)
      (post.map fun e => setting e.1 e.2) [] [] hk hn ?_ (by simp) (hval _ he rfl) ?_ (by simp)
      (by simp [sectionText, unlines])
    · rintro l (_ | ⟨_, hl⟩)
      · exact hmark
      · obtain ⟨e, hp, rfl⟩ := List.mem_map.mp hl
        exact hother e (List.mem_append_left _ hp) (hpre e hp)
    · intro l hl
      obtain ⟨e, hp, rfl⟩ := List.mem_map.mp hl
      exact hother e (List.mem_append_right _ (List.mem_cons_of_mem _ hp)) (hpost e hp)
  · have hne : ∀ e ∈ settings, e.1 ≠ key := fun e he hk => hmem (hk ▸ List.mem_map_of_mem he)
    have hnone : settings.lookup key = none := List.lookup_eq_none_iff.mpr fun e he => by
      simpa using (hne e he).symm
    have hs := search_absent (mark :: settings.map fun e => setting e.1 e.2) [] hk hn
      (by
        rintro l (_ | ⟨_, hl⟩)
        · exact hmark
        · obtain ⟨e, hp, rfl⟩ := List.mem_map.mp hl
          exact hother e hp (hne e hp)) (by simp)
    rw [List.append_nil] at hs
    rw [hnone]
    exact ⟨first_eq_none hs, captures_of_none hs⟩

theorem infix_append_cons {x l u : Text} {c : Char} (hx : c ∉ x) (h : x <:+: l ++ c :: u) :
    x <:+: l ∨ x <:+: u := by
  obtain ⟨a, b, hab⟩ := h
  rcases List.append_eq_append_iff.mp hab with ⟨d, hd, -⟩ | ⟨d, hd, hu⟩
  · exact .inl ⟨a, d, hd.symm⟩
  · rcases List.append_eq_append_iff.mp hd with ⟨e, he, hx'⟩ | ⟨e, he, hx'⟩
    · cases d with
      | nil => exact .inl ⟨a, [], by simpa using hd⟩
      | cons y d =>
        obtain ⟨rfl, -⟩ := List.cons.inj hu
        exact absurd (by simp [hx']) hx
    · cases e with
      | nil =>
        cases x with
        | nil => exact .inl (List.nil_infix)
        | cons y x =>
          rw [hx', List.nil_append, List.cons_append] at hu
          exact absurd (by simp [(List.cons.inj hu).1]) hx
      | cons y e =>
        refine .inr ⟨e, b, ?_⟩
        rw [hx', List.cons_append] at hu
        exact (List.cons.inj hu).2.symm

/-- A text without newlines occurs in a list of lines only inside one of them. -/
theorem infix_unlines {x : Text} (hx : '\n' ∉ x) (hne : x ≠ []) {ls : List Text}
    (h : x <:+: unlines ls) : ∃ l ∈ ls, x <:+: l := by
  induction ls with
  | nil => exact absurd (List.infix_nil.mp h) hne
  | cons l ls ih =>
    have hu : unlines (l :: ls) = l ++ '\n' :: unlines ls := by simp [unlines]
    rw [hu] at h
    rcases infix_append_cons hx h with h | h
    · exact ⟨l, List.mem_cons_self, h⟩
    · obtain ⟨l', hl', h'⟩ := ih h
      exact ⟨l', List.mem_cons_of_mem _ hl', h'⟩

end Pattern
