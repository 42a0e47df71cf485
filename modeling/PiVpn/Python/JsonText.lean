import PiVpn.Python.Json

/-! JSON as text: what `json.dumps` prints and what `json.loads` makes of a text, and
that the one reads back what the other printed. -/

namespace Json
open Text

/-! ## Printing -/

/-- Four hexadecimal digits. -/
def hex4 (n : Nat) : Text :=
  [Nat.digitChar (n / 4096 % 16), Nat.digitChar (n / 256 % 16), Nat.digitChar (n / 16 % 16),
    Nat.digitChar (n % 16)]

def unicodeEscape (n : Nat) : Text := '\\' :: 'u' :: hex4 n

/-- A character inside a quoted text: everything outside printable ASCII is escaped. -/
def escape (c : Char) : Text :=
  if c = '"' then ['\\', '"']
  else if c = '\\' then ['\\', '\\']
  else if c = '\n' then ['\\', 'n']
  else if c = '\r' then ['\\', 'r']
  else if c = '\t' then ['\\', 't']
  else if c = '\x0c' then ['\\', 'f']
  else if c = '\x08' then ['\\', 'b']
  else if 32 ≤ c.toNat ∧ c.toNat ≤ 126 then [c]
  else if c.toNat < 0x10000 then unicodeEscape c.toNat
  else
    -- a character beyond the first plane is a pair of surrogates
    unicodeEscape (0xd800 + (c.toNat - 0x10000) / 0x400) ++
      unicodeEscape (0xdc00 + (c.toNat - 0x10000) % 0x400)

def quoted (s : String) : Text := '"' :: (s.toList.flatMap escape ++ ['"'])

def intText (n : Int) : Text := if n < 0 then '-' :: decimal n.natAbs else decimal n.natAbs

def nullWord : Text := ['n', 'u', 'l', 'l']
def trueWord : Text := ['t', 'r', 'u', 'e']
def falseWord : Text := ['f', 'a', 'l', 's', 'e']

mutual

/-- `json.dumps` with its default separators. -/
def dumps : Json → Text
  | .null => nullWord
  | .bool b => if b then trueWord else falseWord
  | .int n => intText n
  | .float r => r.toList
  | .str s => quoted s
  | .arr [] => ['[', ']']
  | .arr (x :: xs) => '[' :: (dumps x ++ (dumpsItems xs ++ [']']))
  | .obj [] => ['{', '}']
  | .obj ((k, x) :: fs) => '{' :: (quoted k ++ ':' :: ' ' :: (dumps x ++ (dumpsFields fs ++ ['}'])))

def dumpsItems : List Json → Text
  | [] => []
  | x :: xs => ',' :: ' ' :: (dumps x ++ dumpsItems xs)

def dumpsFields : List (String × Json) → Text
  | [] => []
  | (k, x) :: fs => ',' :: ' ' :: (quoted k ++ ':' :: ' ' :: (dumps x ++ dumpsFields fs))

end

/-! ## Reading -/

def isBlank (c : Char) : Bool := c == ' ' || c == '\t' || c == '\n' || c == '\r'

def skipBlanks (t : Text) : Text := t.dropWhile isBlank

def hexVal (c : Char) : Option Nat :=
  if c.isDigit then some (c.toNat - 48)
  else if 'a' ≤ c ∧ c ≤ 'f' then some (c.toNat - 87)
  else if 'A' ≤ c ∧ c ≤ 'F' then some (c.toNat - 55)
  else none

def readHex4 : Text → Option (Nat × Text)
  | a :: b :: c :: d :: rest => do
    pure (((← hexVal a) * 4096 + (← hexVal b) * 256 + (← hexVal c) * 16 + (← hexVal d)), rest)
  | _ => none

/-- The character after a backslash, where it stands for one. -/
def shortEscape (c : Char) : Option Char :=
  if c = '"' then some '"'
  else if c = '\\' then some '\\'
  else if c = '/' then some '/'
  else if c = 'n' then some '\n'
  else if c = 'r' then some '\r'
  else if c = 't' then some '\t'
  else if c = 'f' then some '\x0c'
  else if c = 'b' then some '\x08'
  else none

def lowSurrogate (t : Text) : Option (Nat × Text) :=
  match t with
  | '\\' :: 'u' :: rest =>
    match readHex4 rest with
    | some (u, rest) => if 0xdc00 ≤ u ∧ u ≤ 0xdfff then some (u, rest) else none
    | none => none
  | _ => none

/-- A `\u` escape, its first four digits read. A surrogate without its partner has no
character: it reads as the replacement character. -/
def unicodeChar (u : Nat) (rest : Text) : Char × Text :=
  if 0xd800 ≤ u ∧ u ≤ 0xdbff then
    match lowSurrogate rest with
    | some (v, rest) => (Char.ofNat (0x10000 + (u - 0xd800) * 0x400 + (v - 0xdc00)), rest)
    | none => (Char.ofNat 0xfffd, rest)
  else if 0xdc00 ≤ u ∧ u ≤ 0xdfff then (Char.ofNat 0xfffd, rest)
  else (Char.ofNat u, rest)

/-- One character of a quoted text; none at a control character or a bad escape. -/
def readChar : Text → Option (Char × Text)
  | '\\' :: 'u' :: rest => (readHex4 rest).map fun r => unicodeChar r.1 r.2
  | '\\' :: c :: rest => (shortEscape c).map fun c => (c, rest)
  | ['\\'] => none
  | c :: rest => if c.toNat < 32 then none else some (c, rest)
  | [] => none

/-- The text up to its closing quote. -/
def readQuoted : Nat → Text → Option (Text × Text)
  | 0, _ => none
  | _ + 1, '"' :: rest => some ([], rest)
  | k + 1, t => do
    let (c, rest) ← readChar t
    let (s, rest) ← readQuoted k rest
    pure (c :: s, rest)

/-- `-?(0|[1-9][0-9]*)`. -/
def readInteger : Text → Option (Text × Text)
  | '0' :: rest => some (['0'], rest)
  | '-' :: '0' :: rest => some (['-', '0'], rest)
  | '-' :: c :: rest =>
    if c.isDigit then some ('-' :: c :: rest.takeWhile Char.isDigit, rest.dropWhile Char.isDigit)
    else none
  | c :: rest =>
    if c.isDigit then some (c :: rest.takeWhile Char.isDigit, rest.dropWhile Char.isDigit) else none
  | [] => none

/-- `(\.[0-9]+)?`. -/
def readFraction : Text → Text × Text
  | '.' :: c :: rest =>
    if c.isDigit then ('.' :: c :: rest.takeWhile Char.isDigit, rest.dropWhile Char.isDigit)
    else ([], '.' :: c :: rest)
  | t => ([], t)

def isSign (c : Char) : Bool := c == '+' || c == '-'

/-- `([eE][-+]?[0-9]+)?`. -/
def readExponent : Text → Text × Text
  | [] => ([], [])
  | e :: rest =>
    let sign := (rest.take 1).filter isSign
    let digits := (rest.drop sign.length).takeWhile Char.isDigit
    if (e = 'e' ∨ e = 'E') ∧ digits ≠ [] then
      (e :: (sign ++ digits), (rest.drop sign.length).dropWhile Char.isDigit)
    else ([], e :: rest)

def intOfText : Text → Int
  | '-' :: ds => -(Nat.ofDigitChars 10 ds 0 : Int)
  | ds => Nat.ofDigitChars 10 ds 0

/-- `stripPrefix? word t`. -/
def dropWord : Text → Text → Option Text
  | [], t => some t
  | w :: ws, c :: cs => if c = w then dropWord ws cs else none
  | _ :: _, [] => none

section reading
variable (float : Text → String)

/-- A number; `float` prints what a text with a fraction or an exponent stands for. -/
def readNumber (t : Text) : Option (Json × Text) := do
  let (digits, rest) ← readInteger t
  let (fraction, rest) := readFraction rest
  let (exponent, rest) := readExponent rest
  if fraction = [] ∧ exponent = [] then pure (.int (intOfText digits), rest)
  else pure (.float (float (digits ++ (fraction ++ exponent))), rest)

/-- The named constants; the last three are the parser's own. -/
def readConstant (t : Text) : Option (Json × Text) :=
  ((dropWord nullWord t).map fun r => (.null, r)) <|>
  ((dropWord trueWord t).map fun r => (.bool true, r)) <|>
  ((dropWord falseWord t).map fun r => (.bool false, r)) <|>
  readNumber float t <|>
  ((dropWord ['N', 'a', 'N'] t).map fun r => (.float "nan", r)) <|>
  ((dropWord ['I', 'n', 'f', 'i', 'n', 'i', 't', 'y'] t).map fun r => (.float "inf", r)) <|>
  ((dropWord ['-', 'I', 'n', 'f', 'i', 'n', 'i', 't', 'y'] t).map fun r => (.float "-inf", r))

/-- A dictionary of pairs in order: a later value takes the place of an earlier one. -/
def ofPairs (pairs : List (String × Json)) : List (String × Json) :=
  pairs.foldl (fun d p =>
    if (d.lookup p.1).isSome then d.map fun e => if e.1 = p.1 then p else e else d ++ [p]) []

mutual

def readValue : Nat → Text → Option (Json × Text)
  | 0, _ => none
  | k + 1, '"' :: cs => (readQuoted k cs).map fun r => (.str (String.ofList r.1), r.2)
  | k + 1, '[' :: cs =>
    match skipBlanks cs with
    | ']' :: rest => some (.arr [], rest)
    | cs => (readItems k cs).map fun r => (.arr r.1, r.2)
  | k + 1, '{' :: cs =>
    match skipBlanks cs with
    | '}' :: rest => some (.obj [], rest)
    | cs => (readFields k cs).map fun r => (.obj (ofPairs r.1), r.2)
  | _ + 1, cs => readConstant float cs

def readItems : Nat → Text → Option (List Json × Text)
  | 0, _ => none
  | k + 1, cs => do
    let (x, cs) ← readValue k cs
    match skipBlanks cs with
    | ']' :: rest => pure ([x], rest)
    | ',' :: cs =>
      let (xs, rest) ← readItems k (skipBlanks cs)
      pure (x :: xs, rest)
    | _ => none

def readFields : Nat → Text → Option (List (String × Json) × Text)
  | 0, _ => none
  | k + 1, '"' :: cs => do
    let (key, cs) ← readQuoted k cs
    match skipBlanks cs with
    | ':' :: cs =>
      let (x, cs) ← readValue k (skipBlanks cs)
      match skipBlanks cs with
      | '}' :: rest => pure ([(String.ofList key, x)], rest)
      | ',' :: cs =>
        let (fs, rest) ← readFields k (skipBlanks cs)
        pure ((String.ofList key, x) :: fs, rest)
      | _ => none
    | _ => none
  | _ + 1, _ => none

end

/-- `json.loads`; nothing where it raises a decode error. -/
def loads (t : Text) : Option Json :=
  match readValue float (2 * t.length + 2) (skipBlanks t) with
  | some (x, rest) => if skipBlanks rest = [] then some x else none
  | none => none

end reading

/-! ## Characters -/

theorem hexVal_digitChar : ∀ d < 16, hexVal (Nat.digitChar d) = some d := by decide

theorem readHex4_hex4 {n : Nat} (h : n < 65536) (rest : Text) :
    readHex4 (hex4 n ++ rest) = some (n, rest) := by
  have h₁ := hexVal_digitChar (n / 4096 % 16) (Nat.mod_lt _ (by decide))
  have h₂ := hexVal_digitChar (n / 256 % 16) (Nat.mod_lt _ (by decide))
  have h₃ := hexVal_digitChar (n / 16 % 16) (Nat.mod_lt _ (by decide))
  have h₄ := hexVal_digitChar (n % 16) (Nat.mod_lt _ (by decide))
  have hn : n / 4096 % 16 * 4096 + n / 256 % 16 * 256 + n / 16 % 16 * 16 + n % 16 = n := by omega
  simp [readHex4, hex4, h₁, h₂, h₃, h₄, hn]

theorem readChar_unicodeEscape {n : Nat} (h : n < 65536) (rest : Text) :
    readChar (unicodeEscape n ++ rest) = some (unicodeChar n rest) := by
  rw [show unicodeEscape n ++ rest = '\\' :: 'u' :: (hex4 n ++ rest) from rfl, readChar,
    readHex4_hex4 h, Option.map_some]

theorem lowSurrogate_unicodeEscape {n : Nat} (h : 0xdc00 ≤ n) (h' : n ≤ 0xdfff) (rest : Text) :
    lowSurrogate (unicodeEscape n ++ rest) = some (n, rest) := by
  rw [show unicodeEscape n ++ rest = '\\' :: 'u' :: (hex4 n ++ rest) from rfl, lowSurrogate,
    readHex4_hex4 (by omega)]
  exact if_pos ⟨h, h'⟩

theorem readChar_escape (c : Char) (rest : Text) : readChar (escape c ++ rest) = some (c, rest) := by
  have hrange : c.toNat < 0xd800 ∨ 0xdfff < c.toNat ∧ c.toNat < 0x110000 := c.valid
  unfold escape
  split
  · next h => subst h; rfl
  split
  · next h => subst h; rfl
  split
  · next h => subst h; rfl
  split
  · next h => subst h; rfl
  split
  · next h => subst h; rfl
  split
  · next h => subst h; rfl
  split
  · next h => subst h; rfl
  split
  · next hb _ _ _ _ _ hp =>
    rw [List.singleton_append, readChar]
    · exact if_neg (by omega)
    all_goals simp [hb]
  split
  · next h =>
    rw [readChar_unicodeEscape h, unicodeChar, if_neg (by omega), if_neg (by omega), Char.ofNat_toNat]
  · next h =>
    -- the two surrogates put the code point together again
    rw [List.append_assoc, readChar_unicodeEscape (by omega), unicodeChar, if_pos (by omega),
      lowSurrogate_unicodeEscape (by omega) (by omega)]
    have hcode : 0x10000 + (0xd800 + (c.toNat - 0x10000) / 0x400 - 0xd800) * 0x400 +
        (0xdc00 + (c.toNat - 0x10000) % 0x400 - 0xdc00) = c.toNat := by omega
    simp only [hcode, Char.ofNat_toNat]

theorem escape_eq (c : Char) : ∃ d ds, escape c = d :: ds ∧ d ≠ '"' := by
  unfold escape
  split_ifs with h
  all_goals first
    | exact ⟨_, _, rfl, by decide⟩
    | exact ⟨_, _, rfl, h⟩

theorem readQuoted_escaped (s : Text) (rest : Text) {k : Nat} (h : s.length < k) :
    readQuoted k (s.flatMap escape ++ '"' :: rest) = some (s, rest) := by
  induction s generalizing k with
  | nil =>
    obtain ⟨k, rfl⟩ := Nat.exists_eq_succ_of_ne_zero (Nat.ne_of_gt h)
    rfl
  | cons c s ih =>
    obtain ⟨k, rfl⟩ := Nat.exists_eq_succ_of_ne_zero (Nat.ne_of_gt (Nat.zero_lt_of_lt h))
    obtain ⟨d, ds, hd, hq⟩ := escape_eq c
    have hread := readChar_escape c (s.flatMap escape ++ '"' :: rest)
    rw [List.flatMap_cons, List.append_assoc]
    rw [hd, List.cons_append] at hread ⊢
    rw [readQuoted, hread]
    · simp [ih (Nat.lt_of_succ_lt_succ h)]
    · simp [hq]

/-! ## Numbers -/

/-- What may follow a value inside a printed text. -/
def Follow (rest : Text) : Prop :=
  rest = [] ∨ ∃ c cs, rest = c :: cs ∧ (c = ',' ∨ c = ']' ∨ c = '}' ∨ c = '\n')

theorem Follow.not_digit {rest : Text} (h : Follow rest) :
    rest.takeWhile Char.isDigit = [] ∧ rest.dropWhile Char.isDigit = rest := by
  rcases h with rfl | ⟨c, cs, rfl, h⟩
  · exact ⟨rfl, rfl⟩
  · have hc : c.isDigit = false := by rcases h with rfl | rfl | rfl | rfl <;> rfl
    simp [hc]

theorem Follow.readFraction {rest : Text} (h : Follow rest) : readFraction rest = ([], rest) := by
  rcases h with rfl | ⟨c, cs, rfl, h⟩
  · rfl
  · rcases h with rfl | rfl | rfl | rfl <;> rfl

theorem Follow.readExponent {rest : Text} (h : Follow rest) : readExponent rest = ([], rest) := by
  rcases h with rfl | ⟨c, cs, rfl, h⟩
  · rfl
  · have hc : ¬ (c = 'e' ∨ c = 'E') := by rcases h with rfl | rfl | rfl | rfl <;> decide
    simp [Json.readExponent, hc]

theorem decimal_eq (n : Nat) :
    ∃ c ds, decimal n = c :: ds ∧ c.isDigit = true ∧ ds.all Char.isDigit = true ∧
      (c = '0' → ds = []) := by
  induction n using Nat.strong_induction_on with
  | _ n ih =>
    unfold decimal
    rw [Nat.toDigits_eq_if (by decide)]
    split
    · next h =>
      refine ⟨Nat.digitChar n, [], rfl, ?_, rfl, fun _ => rfl⟩
      exact (show ∀ d < 10, (Nat.digitChar d).isDigit = true by decide) n h
    · next h =>
      obtain ⟨c, ds, hd, hc, hds, hz⟩ := ih (n / 10) (by omega)
      have hlast : (Nat.digitChar (n % 10)).isDigit = true :=
        (show ∀ d < 10, (Nat.digitChar d).isDigit = true by decide) _ (Nat.mod_lt _ (by decide))
      refine ⟨c, ds ++ [Nat.digitChar (n % 10)], by rw [← List.cons_append, ← hd]; rfl, hc, ?_, ?_⟩
      · simp [hds, hlast]
      · -- a number from ten on has a first part that is not zero
        intro hc0
        have hnil := hz hc0
        rw [hc0, hnil] at hd
        have hval := Nat.ofDigitChars_ten_toDigits (n := n / 10)
        rw [show Nat.toDigits 10 (n / 10) = ['0'] from hd] at hval
        have : n / 10 = 0 := by rw [← hval]; rfl
        omega

theorem readInteger_digits {c : Char} {ds rest : Text} (hc : c.isDigit = true)
    (hds : ds.all Char.isDigit = true) (hz : c = '0' → ds = []) (hrest : Follow rest) :
    readInteger (c :: (ds ++ rest)) = some (c :: ds, rest) ∧
      readInteger ('-' :: c :: (ds ++ rest)) = some ('-' :: c :: ds, rest) := by
  have hall : ∀ d ∈ ds, d.isDigit = true := List.all_eq_true.mp hds
  have htake : (ds ++ rest).takeWhile Char.isDigit = ds := by
    rw [List.takeWhile_append_of_pos hall, hrest.not_digit.1, List.append_nil]
  have hdrop : (ds ++ rest).dropWhile Char.isDigit = rest := by
    rw [List.dropWhile_append_of_pos hall, hrest.not_digit.2]
  by_cases h0 : c = '0'
  · rw [hz h0, h0]
    exact ⟨rfl, rfl⟩
  · have hm : c ≠ '-' := by rintro rfl; cases hc
    constructor
    · rw [readInteger, if_pos hc, htake, hdrop]
      · simpa using h0
      all_goals simp [hm]
    · rw [readInteger, if_pos hc, htake, hdrop]
      simpa using h0

theorem readNumber_intText (float : Text → String) (n : Int) {rest : Text} (h : Follow rest) :
    readNumber float (intText n ++ rest) = some (.int n, rest) := by
  obtain ⟨c, ds, hd, hc, hds, hz⟩ := decimal_eq n.natAbs
  have hval : Nat.ofDigitChars 10 (c :: ds) 0 = n.natAbs := by
    rw [← hd]
    exact Nat.ofDigitChars_ten_toDigits
  obtain ⟨hpos, hneg⟩ := readInteger_digits hc hds hz h
  have hm : c ≠ '-' := by rintro rfl; cases hc
  unfold intText
  split
  · next hlt =>
    have hint : intOfText ('-' :: c :: ds) = n := by
      rw [intOfText, hval]
      omega
    rw [hd, List.cons_append, List.cons_append]
    simp [readNumber, hneg, h.readFraction, h.readExponent, hint]
  · next hlt =>
    have hint : intOfText (c :: ds) = n := by
      rw [intOfText, hval]
      · omega
      · simp [hm]
    rw [hd, List.cons_append]
    simp [readNumber, hpos, h.readFraction, h.readExponent, hint]

theorem readConstant_intText (float : Text → String) (n : Int) {rest : Text} (h : Follow rest) :
    readConstant float (intText n ++ rest) = some (.int n, rest) := by
  have hread := readNumber_intText float n h
  obtain ⟨c, ds, hd, hc, -, -⟩ := decimal_eq n.natAbs
  -- the text opens with a digit or a sign, so it is none of the words
  have hfirst : ∃ d cs, intText n = d :: cs ∧ d ≠ 'n' ∧ d ≠ 't' ∧ d ≠ 'f' := by
    unfold intText
    split
    · exact ⟨'-', _, rfl, by decide, by decide, by decide⟩
    · refine ⟨c, ds, hd, ?_, ?_, ?_⟩ <;> rintro rfl <;> cases hc
  obtain ⟨d, cs, hi, hn, ht, hf⟩ := hfirst
  rw [hi, List.cons_append] at hread ⊢
  simp [readConstant, dropWord, nullWord, trueWord, falseWord, hn, ht, hf, hread]

/-! ## Values -/

mutual

/-- Without floats, and with the keys of a dictionary all different. -/
def Plain : Json → Prop
  | .float _ => False
  | .arr xs => PlainItems xs
  | .obj fs => PlainFields fs ∧ (fs.map Prod.fst).Nodup
  | _ => True

def PlainItems : List Json → Prop
  | [] => True
  | x :: xs => Plain x ∧ PlainItems xs

def PlainFields : List (String × Json) → Prop
  | [] => True
  | (_, x) :: fs => Plain x ∧ PlainFields fs

end

theorem ofPairs_of_nodup {fs : List (String × Json)} (h : (fs.map Prod.fst).Nodup) :
    ofPairs fs = fs := by
  have hstep : ∀ (fs d : List (String × Json)), ((d ++ fs).map Prod.fst).Nodup →
      fs.foldl (fun d p =>
        if (d.lookup p.1).isSome then d.map fun e => if e.1 = p.1 then p else e else d ++ [p]) d =
        d ++ fs := by
    intro fs
    induction fs with
    | nil => simp
    | cons p fs ih =>
      intro d hd
      have hp : p.1 ∉ d.map Prod.fst := by
        rw [List.map_append, List.nodup_append] at hd
        exact fun hmem => hd.2.2 _ hmem _ (List.mem_cons_self) rfl
      have hnone : d.lookup p.1 = none := by
        rw [List.lookup_eq_none_iff]
        intro e he
        simpa using fun heq : p.1 = e.1 => hp (heq ▸ List.mem_map_of_mem he)
      rw [List.foldl_cons, hnone]
      simp only [Option.isSome_none, Bool.false_eq_true, if_false]
      rw [ih _ (by simpa using hd), List.append_assoc, List.singleton_append]
  exact hstep fs [] (by simpa using h)

theorem dumps_eq {x : Json} (h : Plain x) :
    ∃ c cs, dumps x = c :: cs ∧ isBlank c = false ∧ c ≠ ']' := by
  cases x with
  | null => exact ⟨_, _, rfl, by decide, by decide⟩
  | bool b => cases b <;> exact ⟨_, _, rfl, by decide, by decide⟩
  | float r => exact h.elim
  | str s => exact ⟨_, _, rfl, by decide, by decide⟩
  | arr xs => cases xs <;> exact ⟨_, _, rfl, by decide, by decide⟩
  | obj fs => rcases fs with _ | ⟨⟨k, x⟩, fs⟩ <;> exact ⟨_, _, rfl, by decide, by decide⟩
  | int n =>
    obtain ⟨c, ds, hd, hc, -, -⟩ := decimal_eq n.natAbs
    rw [dumps]
    unfold intText
    split
    · exact ⟨_, _, rfl, by decide, by decide⟩
    · refine ⟨c, ds, hd, ?_, ?_⟩
      · simp only [isBlank, Bool.or_eq_false_iff, beq_eq_false_iff_ne]
        refine ⟨⟨⟨?_, ?_⟩, ?_⟩, ?_⟩ <;> rintro rfl <;> cases hc
      · rintro rfl
        cases hc

theorem skipBlanks_dumps {x : Json} (h : Plain x) (rest : Text) :
    skipBlanks (dumps x ++ rest) = dumps x ++ rest := by
  obtain ⟨c, cs, hx, hb, -⟩ := dumps_eq h
  rw [hx, List.cons_append, skipBlanks, List.dropWhile_cons_of_neg (by simp [hb])]

theorem skipBlanks_space (t : Text) : skipBlanks (' ' :: t) = skipBlanks t := rfl

theorem skipBlanks_quoted (s : String) (rest : Text) :
    skipBlanks (quoted s ++ rest) = quoted s ++ rest := rfl

theorem follow_items (xs : List Json) (rest : Text) : Follow (dumpsItems xs ++ ']' :: rest) := by
  cases xs with
  | nil => exact .inr ⟨_, _, rfl, by simp⟩
  | cons x xs => exact .inr ⟨_, _, rfl, by simp⟩

theorem follow_fields (fs : List (String × Json)) (rest : Text) :
    Follow (dumpsFields fs ++ '}' :: rest) := by
  rcases fs with _ | ⟨⟨k, x⟩, fs⟩
  · exact .inr ⟨_, _, rfl, by simp⟩
  · exact .inr ⟨_, _, rfl, by simp⟩

theorem length_quoted (s : String) : s.toList.length + 2 ≤ (quoted s).length := by
  have hflat : ∀ t : Text, t.length ≤ (t.flatMap escape).length := by
    intro t
    induction t with
    | nil => simp
    | cons c t ih =>
      obtain ⟨d, ds, hd, -⟩ := escape_eq c
      rw [List.flatMap_cons, hd]
      simp only [List.length_cons, List.length_append]
      omega
  have := hflat s.toList
  simp only [quoted, List.length_cons, List.length_append, List.length_nil]
  omega

theorem readValue_quoted (float : Text → String) (s : String) (rest : Text) {k : Nat}
    (h : (quoted s).length ≤ k) :
    readValue float k (quoted s ++ rest) = some (.str s, rest) := by
  have hlen := length_quoted s
  obtain ⟨k, rfl⟩ := Nat.exists_eq_succ_of_ne_zero (show k ≠ 0 by omega)
  rw [quoted, List.cons_append, List.append_assoc, readValue]
  rw [List.singleton_append, readQuoted_escaped _ _ (by omega)]
  simp

theorem readValue_intText (float : Text → String) (n : Int) {rest : Text} (h : Follow rest)
    (k : Nat) : readValue float (k + 1) (intText n ++ rest) = some (.int n, rest) := by
  have hread := readConstant_intText float n h
  obtain ⟨d, ds, hd, hdigit, -, -⟩ := decimal_eq n.natAbs
  have hfirst : ∃ c cs, intText n = c :: cs ∧ c ≠ '"' ∧ c ≠ '[' ∧ c ≠ '{' := by
    unfold intText
    split
    · exact ⟨'-', _, rfl, by decide, by decide, by decide⟩
    · refine ⟨d, ds, hd, ?_, ?_, ?_⟩ <;> rintro rfl <;> cases hdigit
  obtain ⟨c, cs, hi, hq, ha, ho⟩ := hfirst
  rw [hi, List.cons_append] at hread ⊢
  rw [readValue, hread]
  all_goals simp [hq, ha, ho]

/-- With this fuel what was printed is read back: twice the length is enough. -/
structure ReadsBack (float : Text → String) (k : Nat) : Prop where
  value : ∀ x rest, Plain x → Follow rest → 2 * (dumps x).length ≤ k →
    readValue float k (dumps x ++ rest) = some (x, rest)
  items : ∀ x xs rest, PlainItems (x :: xs) →
    2 * ((dumps x).length + (dumpsItems xs).length) + 1 ≤ k →
      readItems float k (dumps x ++ (dumpsItems xs ++ ']' :: rest)) = some (x :: xs, rest)
  fields : ∀ key x fs rest, PlainFields ((key, x) :: fs) →
    2 * ((quoted key).length + (dumps x).length + (dumpsFields fs).length) + 1 ≤ k →
      readFields float k (quoted key ++ ':' :: ' ' :: (dumps x ++ (dumpsFields fs ++ '}' :: rest))) =
        some ((key, x) :: fs, rest)

section readsBack
variable {float : Text → String} {k : Nat}

theorem ReadsBack.value_succ (ih : ReadsBack float k) (x : Json) (rest : Text) (h : Plain x)
    (hrest : Follow rest) (hk : 2 * (dumps x).length ≤ k + 1) :
    readValue float (k + 1) (dumps x ++ rest) = some (x, rest) := by
  cases x with
  | null => rfl
  | bool b => cases b <;> rfl
  | float r => exact h.elim
  | int n => exact readValue_intText float n hrest k
  | str s =>
    rw [dumps] at hk ⊢
    exact readValue_quoted float s rest (by omega)
  | arr xs =>
    cases xs with
    | nil => rfl
    | cons x xs =>
      simp only [dumps, List.length_cons, List.length_append, List.length_nil] at hk
      have hitems := ih.items x xs rest h (by omega)
      -- no value starts with the closing bracket, so this is no empty list
      obtain ⟨c, cs, hd, hb, hne⟩ := dumps_eq (x := x) h.1
      rw [dumps]
      simp only [List.cons_append, List.append_assoc, List.nil_append]
      rw [readValue, skipBlanks_dumps h.1]
      rw [hd, List.cons_append] at hitems ⊢
      split
      · next heq => exact absurd (List.cons.inj heq).1 hne
      · rw [hitems]
        rfl
  | obj fs =>
    cases fs with
    | nil => rfl
    | cons f fs =>
      obtain ⟨key, x⟩ := f
      simp only [dumps, List.length_cons, List.length_append, List.length_nil] at hk
      have hfields := ih.fields key x fs rest h.1 (by omega)
      rw [dumps]
      simp only [List.cons_append, List.append_assoc, List.nil_append]
      rw [readValue, skipBlanks_quoted]
      split
      · next heq => cases heq
      · rw [hfields, Option.map_some, ofPairs_of_nodup h.2]

theorem ReadsBack.items_succ (ih : ReadsBack float k) (x : Json) (xs : List Json) (rest : Text)
    (h : PlainItems (x :: xs))
    (hk : 2 * ((dumps x).length + (dumpsItems xs).length) + 1 ≤ k + 1) :
    readItems float (k + 1) (dumps x ++ (dumpsItems xs ++ ']' :: rest)) = some (x :: xs, rest) := by
  have hx := ih.value x (dumpsItems xs ++ ']' :: rest) h.1 (follow_items xs rest) (by omega)
  rw [readItems, hx]
  cases xs with
  | nil => rfl
  | cons y ys =>
    simp only [dumpsItems, List.length_cons, List.length_append] at hk
    have hys := ih.items y ys rest h.2 (by omega)
    simp only [Option.bind_eq_bind, Option.bind_some, dumpsItems, List.cons_append,
      List.append_assoc]
    rw [show ∀ t, skipBlanks (',' :: t) = ',' :: t from fun _ => rfl]
    simp only [skipBlanks_space, skipBlanks_dumps h.2.1, hys, Option.bind_some]
    rfl

theorem ReadsBack.fields_succ (ih : ReadsBack float k) (key : String) (x : Json)
    (fs : List (String × Json)) (rest : Text) (h : PlainFields ((key, x) :: fs))
    (hk : 2 * ((quoted key).length + (dumps x).length + (dumpsFields fs).length) + 1 ≤ k + 1) :
    readFields float (k + 1)
        (quoted key ++ ':' :: ' ' :: (dumps x ++ (dumpsFields fs ++ '}' :: rest))) =
      some ((key, x) :: fs, rest) := by
  have hlen := length_quoted key
  have hx := ih.value x (dumpsFields fs ++ '}' :: rest) h.1 (follow_fields fs rest) (by omega)
  have hkey := readQuoted_escaped key.toList
    (':' :: ' ' :: (dumps x ++ (dumpsFields fs ++ '}' :: rest))) (k := k) (by omega)
  rw [quoted, List.cons_append, readFields, List.append_assoc, List.singleton_append, hkey]
  simp only [Option.bind_eq_bind, Option.bind_some]
  rw [show ∀ t, skipBlanks (':' :: t) = ':' :: t from fun _ => rfl]
  simp only [skipBlanks_space, skipBlanks_dumps h.1, hx, Option.bind_some]
  cases fs with
  | nil => simp [dumpsFields, skipBlanks, isBlank]
  | cons f fs =>
    obtain ⟨key', y⟩ := f
    simp only [dumpsFields, List.length_cons, List.length_append] at hk
    have hfs := ih.fields key' y fs rest h.2 (by omega)
    simp only [dumpsFields, List.cons_append, List.append_assoc]
    rw [show ∀ t, skipBlanks (',' :: t) = ',' :: t from fun _ => rfl]
    simp only [skipBlanks_space, skipBlanks_quoted, hfs, Option.bind_some]
    simp

theorem dumps_ne_nil {x : Json} (h : Plain x) : dumps x ≠ [] := by
  obtain ⟨c, cs, hx, -⟩ := dumps_eq h
  simp [hx]

theorem readsBack (float : Text → String) (k : Nat) : ReadsBack float k := by
  induction k with
  | zero =>
    refine ⟨fun x rest h _ hk => ?_, fun x xs rest _ hk => ?_, fun key x fs rest _ hk => ?_⟩
    · have := List.length_pos_iff.mpr (dumps_ne_nil h)
      omega
    · omega
    · omega
  | succ k ih => exact ⟨ih.value_succ, ih.items_succ, ih.fields_succ⟩

end readsBack

/-- `json.loads(json.dumps(x) + "\n")` is `x`. -/
theorem loads_dumps (float : Text → String) {x : Json} (h : Plain x) :
    loads float (dumps x ++ ['\n']) = some x := by
  have hread := (readsBack float (2 * (dumps x ++ ['\n']).length + 2)).value x ['\n'] h
    (.inr ⟨_, _, rfl, by simp⟩) (by simp only [List.length_append]; omega)
  rw [loads, skipBlanks_dumps h, hread]
  rfl

/-- `json.loads(json.dumps(x))` is `x`. -/
theorem loads_dumps_alone (float : Text → String) {x : Json} (h : Plain x) :
    loads float (dumps x) = some x := by
  have hread := (readsBack float (2 * (dumps x).length + 2)).value x [] h (.inl rfl) (by omega)
  have hskip := skipBlanks_dumps h []
  rw [List.append_nil] at hread hskip
  rw [loads, hskip, hread]
  rfl

/-! ## One line of printable characters -/

def Printable (t : Text) : Prop := ∀ c ∈ t, 32 ≤ c.toNat ∧ c.toNat ≤ 126

theorem printable_of_all {t : Text}
    (h : t.all (fun c => decide (32 ≤ c.toNat) && decide (c.toNat ≤ 126)) = true) : Printable t :=
  fun c hc => by simpa using List.all_eq_true.mp h c hc

theorem printable_cons {c : Char} {t : Text} :
    Printable (c :: t) ↔ (32 ≤ c.toNat ∧ c.toNat ≤ 126) ∧ Printable t := List.forall_mem_cons

theorem printable_append {t u : Text} : Printable (t ++ u) ↔ Printable t ∧ Printable u :=
  List.forall_mem_append

theorem Printable.newline {t : Text} (h : Printable t) : '\n' ∉ t := fun hmem => by
  have := (h _ hmem).1
  revert this
  decide

theorem printable_digitChar : ∀ d < 16, 32 ≤ (Nat.digitChar d).toNat ∧ (Nat.digitChar d).toNat ≤ 126 := by
  decide

theorem printable_decimal (n : Nat) : Printable (decimal n) := fun c hc => by
  have hdigit := Nat.isDigit_of_mem_toDigits (by decide) (by decide) hc
  simp only [Char.isDigit, Bool.and_eq_true, decide_eq_true_eq, UInt32.le_iff_toNat_le] at hdigit
  have h₁ : 48 ≤ c.toNat := hdigit.1
  have h₂ : c.toNat ≤ 57 := hdigit.2
  omega

theorem printable_unicodeEscape (n : Nat) : Printable (unicodeEscape n) := by
  have hdigit : ∀ m, 32 ≤ (Nat.digitChar (m % 16)).toNat ∧ (Nat.digitChar (m % 16)).toNat ≤ 126 :=
    fun m => printable_digitChar _ (Nat.mod_lt _ (by decide))
  unfold unicodeEscape hex4
  simp only [printable_cons, hdigit]
  exact ⟨by decide, by decide, ⟨trivial, trivial⟩, ⟨trivial, trivial⟩, ⟨trivial, trivial⟩,
    ⟨trivial, trivial⟩, fun _ h => by cases h⟩

theorem printable_escape (c : Char) : Printable (escape c) := by
  unfold escape
  split_ifs with _ _ _ _ _ _ _ h
  all_goals first
    | exact printable_unicodeEscape _
    | exact printable_append.mpr ⟨printable_unicodeEscape _, printable_unicodeEscape _⟩
    | exact printable_cons.mpr ⟨h, fun _ h => by cases h⟩
    | exact printable_of_all rfl

theorem printable_quoted (s : String) : Printable (quoted s) := by
  refine printable_cons.mpr ⟨by decide, printable_append.mpr ⟨fun c hc => ?_, ?_⟩⟩
  · obtain ⟨d, -, hd⟩ := List.mem_flatMap.mp hc
    exact printable_escape d c hd
  · exact printable_cons.mpr ⟨by decide, fun _ h => by cases h⟩

mutual

theorem printable_dumps : ∀ x, Plain x → Printable (dumps x)
  | .null, _ => printable_of_all rfl
  | .bool true, _ => printable_of_all rfl
  | .bool false, _ => printable_of_all rfl
  | .float _, h => h.elim
  | .int n, _ => by
    rw [dumps]
    unfold intText
    split
    · exact printable_cons.mpr ⟨by decide, printable_decimal _⟩
    · exact printable_decimal _
  | .str s, _ => printable_quoted s
  | .arr [], _ => printable_of_all rfl
  | .arr (x :: xs), h => by
    simp only [dumps, printable_cons, printable_append]
    exact ⟨by decide, printable_dumps x h.1, printable_items xs h.2, by decide, fun _ h => by cases h⟩
  | .obj [], _ => printable_of_all rfl
  | .obj ((k, x) :: fs), h => by
    simp only [dumps, printable_cons, printable_append]
    exact ⟨by decide, printable_quoted k, by decide, by decide, printable_dumps x h.1.1,
      printable_fields fs h.1.2, by decide, fun _ h => by cases h⟩

theorem printable_items : ∀ xs, PlainItems xs → Printable (dumpsItems xs)
  | [], _ => fun _ h => by cases h
  | x :: xs, h => by
    simp only [dumpsItems, printable_cons, printable_append]
    exact ⟨by decide, by decide, printable_dumps x h.1, printable_items xs h.2⟩

theorem printable_fields : ∀ fs, PlainFields fs → Printable (dumpsFields fs)
  | [], _ => fun _ h => by cases h
  | (k, x) :: fs, h => by
    simp only [dumpsFields, printable_cons, printable_append]
    exact ⟨by decide, by decide, printable_quoted k, by decide, by decide, printable_dumps x h.1,
      printable_fields fs h.2⟩

end

theorem plainItems_iff {xs : List Json} : PlainItems xs ↔ ∀ x ∈ xs, Plain x := by
  induction xs with
  | nil => simp [PlainItems]
  | cons x xs ih => simp [PlainItems, ih]

end Json
