import PiVpn.App.Commands

/-! The terse output of `nmcli` and its reader: rows of escaped fields, one row a line. -/

namespace Commands
open Text

/-! ## What `nmcli -t` prints -/

def escapeChar (c : Char) : Text :=
  if c = '\\' then ['\\', '\\'] else if c = ':' then ['\\', ':'] else [c]

def escape (f : Text) : Text := f.flatMap escapeChar

def terseRow (row : List Text) : Text := [':'].intercalate (row.map escape)

def terse (rows : List (List Text)) : Text := unlines (rows.map terseRow)

/-! ## A field read back -/

theorem replacePair_cons {a b new x : Char} {t : Text} (h : x = a → t.head? ≠ some b) :
    replacePair a b new (x :: t) = x :: replacePair a b new t := by
  cases t with
  | nil => rfl
  | cons y t =>
    rw [replacePair, if_neg]
    rintro ⟨hx, hy⟩
    exact h hx (by rw [hy]; rfl)

theorem head?_escape_ne (f : Text) : (escape f).head? ≠ some ':' := by
  cases f with
  | nil => simp [escape]
  | cons c f =>
    rw [escape, List.flatMap_cons, escapeChar]
    split
    · simp
    · split
      · simp
      · simpa using by assumption

/-- The colons are back, the backslashes still double. -/
def doubled (f : Text) : Text := f.flatMap fun c => if c = '\\' then ['\\', '\\'] else [c]

theorem replacePair_colon (f : Text) : replacePair '\\' ':' ':' (escape f) = doubled f := by
  induction f with
  | nil => rfl
  | cons c f ih =>
    rw [escape, doubled, List.flatMap_cons, List.flatMap_cons, escapeChar]
    by_cases hb : c = '\\'
    · -- the second backslash is no escape: no escaped text begins with a colon
      rw [if_pos hb, if_pos hb, List.cons_append, List.singleton_append, replacePair_cons fun _ => by simp,
        ← escape, replacePair_cons fun _ => head?_escape_ne f, ih]
      rfl
    · by_cases hc : c = ':'
      · rw [if_neg hb, if_pos hc, if_neg hb, List.cons_append, List.singleton_append, replacePair,
          if_pos ⟨rfl, rfl⟩, ← escape, ih, hc]
        rfl
      · rw [if_neg hb, if_neg hc, if_neg hb, List.singleton_append, replacePair_cons fun h => absurd h hb,
          ← escape, ih]
        rfl

theorem replacePair_backslash (f : Text) : replacePair '\\' '\\' '\\' (doubled f) = f := by
  induction f with
  | nil => rfl
  | cons c f ih =>
    rw [doubled, List.flatMap_cons]
    by_cases hb : c = '\\'
    · rw [if_pos hb, List.cons_append, List.singleton_append, replacePair, if_pos ⟨rfl, rfl⟩, ← doubled, ih, hb]
    · rw [if_neg hb, List.singleton_append, replacePair_cons fun h => absurd h hb, ← doubled, ih]

theorem unescape_escape (f : Text) :
    replacePair '\\' '\\' '\\' (replacePair '\\' ':' ':' (escape f)) = f := by
  rw [replacePair_colon, replacePair_backslash]

/-! ## A row split again -/

/-- No escaped character ends a field. -/
theorem splitFieldsFrom_escape (acc f t : Text) :
    splitFieldsFrom acc (escape f ++ t) = splitFieldsFrom ((escape f).reverse ++ acc) t := by
  induction f generalizing acc with
  | nil => rfl
  | cons c f ih =>
    have hchar : splitFieldsFrom acc (escapeChar c ++ (escape f ++ t)) =
        splitFieldsFrom ((escapeChar c).reverse ++ acc) (escape f ++ t) := by
      rw [escapeChar]
      split
      · simp [splitFieldsFrom]
      · split
        · simp [splitFieldsFrom]
        · next hc => simp [splitFieldsFrom, hc]
    rw [escape, List.flatMap_cons, ← escape, List.append_assoc, hchar, ih, List.reverse_append, List.append_assoc]

theorem splitFieldsFrom_colon (acc t : Text) : splitFieldsFrom acc (':' :: t) =
    if acc.head? = some '\\' then splitFieldsFrom (':' :: acc) t else acc.reverse :: splitFieldsFrom [] t := by
  rw [splitFieldsFrom]
  by_cases h : acc.head? = some '\\' <;> simp [h]

def EndsInBackslash (f : Text) : Prop := f.getLast? = some '\\'

theorem head?_reverse_escape (f : Text) : (escape f).reverse.head? = some '\\' ↔ EndsInBackslash f := by
  rcases List.eq_nil_or_concat' f with rfl | ⟨f, c, rfl⟩
  · simp [escape, EndsInBackslash]
  · rw [EndsInBackslash, List.getLast?_concat, escape, List.flatMap_append, List.flatMap_singleton, escapeChar]
    split
    · next hc => simp [hc]
    · next hb =>
      split
      · next hc => simp [hc]
      · simp

theorem terseRow_cons (f : Text) {row : List Text} (h : row ≠ []) :
    terseRow (f :: row) = escape f ++ ':' :: terseRow row := by
  obtain ⟨g, row, rfl⟩ := List.exists_cons_of_ne_nil h
  rw [terseRow, List.map_cons, List.map_cons, List.intercalate_cons_cons]
  simp [terseRow]

/-- A row comes apart at its separators where none of them follows a backslash. -/
theorem split_terseRow {row : List Text} (hne : row ≠ []) (h : ∀ f ∈ row.dropLast, ¬ EndsInBackslash f) :
    splitFieldsFrom [] (terseRow row) = row.map escape := by
  induction row with
  | nil => exact absurd rfl hne
  | cons f row ih =>
    cases row with
    | nil =>
      have := splitFieldsFrom_escape [] f []
      rw [List.append_nil, List.append_nil] at this
      rw [show terseRow [f] = escape f by simp [terseRow, List.intercalate], this]
      simp [splitFieldsFrom]
    | cons g row =>
      rw [List.dropLast_cons_cons] at h
      have hf : ¬ (escape f).reverse.head? = some '\\' := by
        rw [head?_reverse_escape]
        exact h f List.mem_cons_self
      rw [terseRow_cons f (by simp), splitFieldsFrom_escape, List.append_nil, splitFieldsFrom_colon, if_neg hf,
        ih (by simp) fun f' hf' => h f' (List.mem_cons_of_mem f hf'), List.reverse_reverse]
      rfl

theorem length_split_le {row : List Text} (hne : row ≠ []) (acc : Text) :
    (splitFieldsFrom acc (terseRow row)).length ≤ row.length := by
  induction row generalizing acc with
  | nil => exact absurd rfl hne
  | cons f row ih =>
    cases row with
    | nil =>
      have := splitFieldsFrom_escape acc f []
      rw [List.append_nil] at this
      rw [show terseRow [f] = escape f by simp [terseRow, List.intercalate], this]
      simp [splitFieldsFrom]
    | cons g row =>
      rw [terseRow_cons f (by simp), splitFieldsFrom_escape, splitFieldsFrom_colon, List.length_cons]
      split
      · exact (ih (by simp) _).trans (Nat.le_succ _)
      · rw [List.length_cons]
        exact Nat.succ_le_succ (ih (by simp) _)

/-- A separator after a backslash is lost. -/
theorem length_split_lt {row : List Text} (h : ∃ f ∈ row.dropLast, EndsInBackslash f) (acc : Text) :
    (splitFieldsFrom acc (terseRow row)).length < row.length := by
  induction row generalizing acc with
  | nil => simp at h
  | cons f row ih =>
    cases row with
    | nil => simp at h
    | cons g row =>
      rw [terseRow_cons f (by simp), splitFieldsFrom_escape, splitFieldsFrom_colon, List.length_cons]
      split
      · exact Nat.lt_succ_of_le (length_split_le (by simp) _)
      · next hhead =>
        have hf : ¬ EndsInBackslash f := by
          rw [← head?_reverse_escape]
          intro he
          cases hr : (escape f).reverse <;> simp_all
        obtain ⟨f', hf', hends⟩ := h
        rw [List.dropLast_cons_cons, List.mem_cons] at hf'
        have hrest := hf'.resolve_left fun heq => hf (heq ▸ hends)
        rw [List.length_cons]
        exact Nat.succ_lt_succ (ih ⟨f', hrest, hends⟩ _)

/-! ## All rows -/

theorem terseRow_ne_nil {row : List Text} (h : 2 ≤ row.length) : terseRow row ≠ [] := by
  obtain ⟨f, row, rfl⟩ := List.exists_cons_of_length_pos (by omega : 0 < row.length)
  have hne : row ≠ [] := List.ne_nil_of_length_pos (by simp at h; omega)
  rw [terseRow_cons f hne]
  simp

theorem lineBreak_terseRow {row : List Text} (h : ∀ f ∈ row, ∀ c ∈ f, isLineBreak c = false) :
    ∀ c ∈ terseRow row, isLineBreak c = false := by
  intro c hc
  rcases Ipaddress.mem_intercalate hc with hc | ⟨t, ht, hc⟩
  · rw [List.mem_singleton.mp hc]
    decide
  · obtain ⟨f, hf, rfl⟩ := List.mem_map.mp ht
    obtain ⟨d, hd, hc⟩ := List.mem_flatMap.mp hc
    have hdc : c = '\\' ∨ c = d := by
      rw [escapeChar] at hc
      split at hc
      · next hb => simpa [hb] using hc
      · split at hc
        · next hb => simpa [hb] using hc
        · exact .inr (List.mem_singleton.mp hc)
    rcases hdc with rfl | rfl
    · decide
    · exact h f hf c hd

theorem parseNmcliTerse_terse {rows : List (List Text)} (h2 : ∀ row ∈ rows, 2 ≤ row.length)
    (hlines : ∀ row ∈ rows, ∀ f ∈ row, ∀ c ∈ f, isLineBreak c = false) :
    parseNmcliTerse (terse rows) = rows.map fun row => (splitFieldsFrom [] (terseRow row)).map fun f =>
      replacePair '\\' '\\' '\\' (replacePair '\\' ':' ':' f) := by
  have hsplit : splitlines (terse rows) = rows.map terseRow := by
    apply splitlines_unlines
    intro l hl
    obtain ⟨row, hrow, rfl⟩ := List.mem_map.mp hl
    exact lineBreak_terseRow (hlines row hrow)
  have hfilter : (rows.map terseRow).filter (· ≠ []) = rows.map terseRow := by
    rw [List.filter_eq_self]
    intro l hl
    obtain ⟨row, hrow, rfl⟩ := List.mem_map.mp hl
    exact decide_eq_true (terseRow_ne_nil (h2 row hrow))
  rw [parseNmcliTerse, hsplit, hfilter, List.map_map]
  rfl

/-- The reader returns the rows exactly when no field but the last of its row ends in a backslash. -/
theorem parseNmcliTerse_terse_iff {rows : List (List Text)} (h2 : ∀ row ∈ rows, 2 ≤ row.length)
    (hlines : ∀ row ∈ rows, ∀ f ∈ row, ∀ c ∈ f, isLineBreak c = false) :
    parseNmcliTerse (terse rows) = rows ↔ ∀ row ∈ rows, ∀ f ∈ row.dropLast, ¬ EndsInBackslash f := by
  rw [parseNmcliTerse_terse h2 hlines]
  conv_lhs => rw [← List.map_id rows]
  rw [List.map_map, List.map_inj_left]
  constructor
  · intro h row hrow f hf hends
    have hlen := congrArg List.length (h row hrow)
    rw [Function.comp_apply, List.length_map] at hlen
    exact absurd hlen (Nat.ne_of_lt (length_split_lt ⟨f, hf, hends⟩ []))
  · intro h row hrow
    rw [Function.comp_apply, id]
    have hne : row ≠ [] := List.ne_nil_of_length_pos (by have := h2 row hrow; omega)
    rw [split_terseRow hne (h row hrow), List.map_map]
    exact (List.map_congr_left fun f _ => unescape_escape f).trans (List.map_id row)

theorem plain_rows_read_back :
    parseNmcliTerse (terse [[['a', ':', 'b'], ['\\']], [[], ['7', '0']]]) = [[['a', ':', 'b'], ['\\']], [[], ['7', '0']]] :=
  (parseNmcliTerse_terse_iff (by decide) (by simp [isLineBreak])).mpr (by unfold EndsInBackslash; decide)

/-- A network whose name ends in a backslash takes the next field with it. -/
theorem backslash_joins_fields :
    parseNmcliTerse (terse [[['c', 'a', 'f', 'e', '\\'], ['7', '0']]]) ≠ [[['c', 'a', 'f', 'e', '\\'], ['7', '0']]] ∧
      parseNmcliTerse (terse [[['c', 'a', 'f', 'e', '\\'], ['7', '0']]]) =
        [[['c', 'a', 'f', 'e', '\\', ':', '7', '0']]] := by
  decide +kernel

end Commands
