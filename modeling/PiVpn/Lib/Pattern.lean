import PiVpn.Lib.Text

/-! A backtracking matcher. The successes of a pattern at a cursor are listed in
the order the backtracking search finds them, so the first one is the match. -/

namespace Pattern

/-- A position in a text; the part already read is kept reversed. -/
structure Cursor where
  before : Text
  after : Text
  deriving DecidableEq

def Cursor.start (t : Text) : Cursor := ⟨[], t⟩

/-- The cursor after reading `w`. -/
def Cursor.skip (b w t : Text) : Cursor := ⟨w.reverse ++ b, t⟩

inductive Pat where
  | one (p : Char → Bool)
  | star (p : Char → Bool)
  | lazyStar (p : Char → Bool)
  | upTo (n : Nat) (p : Char → Bool)
  | lineStart
  | lineEnd
  | finalEnd
  | seq (a b : Pat)

/-- Greedy repetition of one class: the longest run first. -/
def starRuns (p : Char → Bool) : Text → Text → List Cursor
  | b, [] => [⟨b, []⟩]
  | b, c :: cs => if p c then starRuns p (c :: b) cs ++ [⟨b, c :: cs⟩] else [⟨b, c :: cs⟩]

/-- Lazy repetition: the shortest run first. -/
def lazyRuns (p : Char → Bool) : Text → Text → List Cursor
  | b, [] => [⟨b, []⟩]
  | b, c :: cs => ⟨b, c :: cs⟩ :: if p c then lazyRuns p (c :: b) cs else []

/-- Greedy repetition, at most `n` times. -/
def upToRuns (p : Char → Bool) : Nat → Text → Text → List Cursor
  | 0, b, t => [⟨b, t⟩]
  | _ + 1, b, [] => [⟨b, []⟩]
  | n + 1, b, c :: cs =>
    if p c then upToRuns p n (c :: b) cs ++ [⟨b, c :: cs⟩] else [⟨b, c :: cs⟩]

def atLineStart (b : Text) : Bool := b.head? == none || b.head? == some '\n'
def atLineEnd (t : Text) : Bool := t.head? == none || t.head? == some '\n'
/-- `$` without the multi-line flag: the end, or just before one final newline. -/
def atFinalEnd (t : Text) : Bool := t == [] || t == ['\n']

def run : Pat → Cursor → List Cursor
  | .one p, ⟨b, c :: cs⟩ => if p c then [⟨c :: b, cs⟩] else []
  | .one _, ⟨_, []⟩ => []
  | .star p, ⟨b, t⟩ => starRuns p b t
  | .lazyStar p, ⟨b, t⟩ => lazyRuns p b t
  | .upTo n p, ⟨b, t⟩ => upToRuns p n b t
  | .lineStart, ⟨b, t⟩ => if atLineStart b then [⟨b, t⟩] else []
  | .lineEnd, ⟨b, t⟩ => if atLineEnd t then [⟨b, t⟩] else []
  | .finalEnd, ⟨b, t⟩ => if atFinalEnd t then [⟨b, t⟩] else []
  | .seq a b, s => (run a s).flatMap (run b)

/-- A literal word. -/
def word : Text → Pat
  | [] => .upTo 0 fun _ => false
  | [c] => .one (· == c)
  | c :: cs => .seq (.one (· == c)) (word cs)

/-- Exactly `n` characters of one class. -/
def times (p : Char → Bool) : Nat → Pat
  | 0 => .upTo 0 fun _ => false
  | n + 1 => .seq (.one p) (times p n)

/-- `re.match`: the pattern succeeds at the start of the text. -/
def matchesAt (p : Pat) (t : Text) : Bool := (run p (.start t)) != []

theorem starRuns_stop {p : Char → Bool} {b t : Text} (h : ∀ c ∈ t.head?, p c = false) :
    starRuns p b t = [⟨b, t⟩] := by
  cases t with
  | nil => rfl
  | cons c cs => rw [starRuns, if_neg (by simp [h c rfl])]

theorem mem_starRuns {p : Char → Bool} {b t : Text} {s : Cursor} (h : s ∈ starRuns p b t) :
    ∃ w, (∀ c ∈ w, p c = true) ∧ t = w ++ s.after ∧ s.before = w.reverse ++ b := by
  induction t generalizing b with
  | nil =>
    obtain rfl : s = ⟨b, []⟩ := by simpa [starRuns] using h
    exact ⟨[], by simp, rfl, rfl⟩
  | cons c cs ih =>
    by_cases hc : p c
    · simp only [starRuns, if_pos hc, List.mem_append, List.mem_singleton] at h
      rcases h with h | rfl
      · obtain ⟨w, hw, ht, hb⟩ := ih h
        refine ⟨c :: w, ?_, by rw [ht]; rfl, by simp [hb]⟩
        intro x hx
        rcases List.mem_cons.mp hx with rfl | hx
        · exact hc
        · exact hw x hx
      · exact ⟨[], by simp, rfl, rfl⟩
    · simp only [starRuns, if_neg hc, List.mem_singleton] at h
      exact ⟨[], by simp, by rw [h]; rfl, by rw [h]; rfl⟩

theorem length_upToRuns {p : Char → Bool} {n : Nat} {b t : Text} {s : Cursor}
    (h : s ∈ upToRuns p n b t) : t.length ≤ n + s.after.length := by
  fun_induction upToRuns p n b t with
  | case1 b t =>
    obtain rfl := List.mem_singleton.mp h
    simp
  | case2 n b => simp
  | case3 n b c cs hc ih =>
    rcases List.mem_append.mp h with h | h
    · have := ih h
      simp only [List.length_cons]
      omega
    · obtain rfl := List.mem_singleton.mp h
      simp only [List.length_cons]
      omega
  | case4 n b c cs hc =>
    obtain rfl := List.mem_singleton.mp h
    simp

theorem run_times (p : Char → Bool) (n : Nat) (b t : Text) :
    run (times p n) ⟨b, t⟩ =
      if n ≤ t.length ∧ ∀ c ∈ t.take n, p c then [.skip b (t.take n) (t.drop n)] else [] := by
  induction n generalizing b t with
  | zero => simp [times, run, upToRuns, Cursor.skip]
  | succ n ih =>
    cases t with
    | nil => simp [times, run]
    | cons c cs =>
      by_cases hc : p c
      · simp [times, run, hc, ih, Cursor.skip]
      · simp [times, run, hc]

theorem run_word {w : Text} (hw : w ≠ []) (b t : Text) :
    run (word w) ⟨b, t⟩ = if w <+: t then [.skip b w (t.drop w.length)] else [] := by
  induction w generalizing b t with
  | nil => exact absurd rfl hw
  | cons c w ih =>
    cases t with
    | nil => cases w <;> simp [word, run]
    | cons x t =>
      by_cases hx : x = c
      · subst hx
        cases w with
        | nil => simp [word, run, Cursor.skip]
        | cons d w => simp [word, run, ih, Cursor.skip]
      · have hx' : ¬ c = x := fun h => hx h.symm
        cases w <;> simp [word, run, hx, hx']

/-- The leftmost match: the captured text is what `inner` reads between `pre` and `post`. -/
structure Capture where
  pre : Pat
  inner : Pat
  post : Pat

/-- A success of a capture pattern, as (captured text, end of the match). -/
def Capture.run (p : Capture) (s : Cursor) : List (Text × Cursor) :=
  (Pattern.run p.pre s).flatMap fun s₁ =>
    (Pattern.run p.inner s₁).flatMap fun s₂ =>
      (Pattern.run p.post s₂).map fun s₃ =>
        (s₁.after.take (s₂.before.length - s₁.before.length), s₃)

/-- `re.search` from a cursor on. -/
def Capture.search (p : Capture) : Text → Text → Option (Text × Cursor)
  | b, [] => (p.run ⟨b, []⟩).head?
  | b, c :: cs => ((p.run ⟨b, c :: cs⟩).head?).or (p.search (c :: b) cs)

/-- `re.finditer`, for patterns that never match the empty text. -/
def Capture.findAll (p : Capture) : Nat → Cursor → List Text
  | 0, _ => []
  | n + 1, s =>
    match p.search s.before s.after with
    | none => []
    | some (v, e) => v :: p.findAll n e

def Capture.captures (p : Capture) (t : Text) : List Text := p.findAll (t.length + 1) (.start t)

def Capture.first (p : Capture) (t : Text) : Option Text := (p.search [] t).map (·.1)

theorem Capture.search_none_iff {p : Capture} {b t : Text} :
    p.search b t = none ↔ ∀ w u, t = w ++ u → p.run (.skip b w u) = [] := by
  induction t generalizing b with
  | nil => simp [Capture.search, Cursor.skip]
  | cons c cs ih =>
    rw [Capture.search, Option.or_eq_none_iff, ih, List.head?_eq_none_iff]
    constructor
    · rintro ⟨h₀, h⟩ w u hwu
      cases w with
      | nil =>
        rw [List.nil_append] at hwu
        simpa [Cursor.skip, ← hwu] using h₀
      | cons x w =>
        rw [List.cons_append, List.cons.injEq] at hwu
        obtain ⟨rfl, hwu⟩ := hwu
        simpa [Cursor.skip] using h w u hwu
    · intro h
      refine ⟨by simpa [Cursor.skip] using h [] (c :: cs) rfl, fun w u hwu => ?_⟩
      simpa [Cursor.skip] using h (c :: w) u (by rw [hwu]; rfl)

theorem Capture.search_append {p : Capture} {b w t : Text}
    (h : ∀ x y, w = x ++ y → y ≠ [] → p.run (.skip b x (y ++ t)) = []) :
    p.search b (w ++ t) = p.search (w.reverse ++ b) t := by
  induction w generalizing b with
  | nil => rfl
  | cons c w ih =>
    have h₀ : p.run ⟨b, c :: (w ++ t)⟩ = [] := by
      simpa [Cursor.skip] using h [] (c :: w) rfl (by simp)
    have hw : p.search (c :: b) (w ++ t) = p.search (w.reverse ++ c :: b) t :=
      ih fun x y hxy hy => by simpa [Cursor.skip] using h (c :: x) y (by rw [hxy]; rfl) hy
    rw [List.cons_append, Capture.search, h₀, hw]
    simp

theorem Capture.search_suffix {p : Capture} {b w t : Text} (h : p.search b (w ++ t) = none) :
    p.search (w.reverse ++ b) t = none := by
  rw [Capture.search_none_iff] at h ⊢
  intro x u ht
  simpa [Cursor.skip] using h (w ++ x) u (by rw [ht, List.append_assoc])

/-! ## A setting line: `^\s*KEY\s*=\s*(.+?)\s*$`, multi-line -/

def keyLine (key : Text) : Capture where
  pre := .seq .lineStart (.seq (.star Text.isSpace) (.seq (word key)
    (.seq (.star Text.isSpace) (.seq (.one (· == '=')) (.star Text.isSpace)))))
  inner := .seq (.one (· != '\n')) (.lazyStar (· != '\n'))
  post := .seq (.star Text.isSpace) .lineEnd

/-- A key a setting line can name: not empty, and not opening with a blank. -/
def IsKey (key : Text) : Prop := ∃ c cs, key = c :: cs ∧ Text.isSpace c = false

theorem dropWhile_append_stop {p : Char → Bool} {w t : Text} (hw : ∀ c ∈ w, p c = true)
    (ht : ∀ c ∈ t.head?, p c = false) : (w ++ t).dropWhile p = t := by
  induction w with
  | nil => cases t with
    | nil => rfl
    | cons c cs => rw [List.nil_append, List.dropWhile_cons, if_neg (by simp [ht c rfl])]
  | cons c w ih =>
    rw [List.cons_append, List.dropWhile_cons, if_pos (hw c List.mem_cons_self)]
    exact ih fun x hx => hw x (List.mem_cons_of_mem _ hx)

variable {key : Text}

theorem IsKey.ne_nil (hk : IsKey key) : key ≠ [] := by
  obtain ⟨c, cs, rfl, -⟩ := hk
  simp

theorem IsKey.head_of_prefix {t : Text} (hk : IsKey key) (h : key <+: t) :
    ∀ c ∈ t.head?, Text.isSpace c = false := by
  obtain ⟨c, cs, rfl, hc⟩ := hk
  obtain ⟨u, rfl⟩ := h
  intro x hx
  obtain rfl : c = x := by simpa using hx
  exact hc

theorem keyLine_run_of_not_lineStart {b t : Text} (h : atLineStart b = false) :
    (keyLine key).run ⟨b, t⟩ = [] := by
  simp [Capture.run, keyLine, run, h]

/-- A match has the key as the first word of what follows. -/
theorem keyLine_run_of_not_prefix {b t : Text} (hk : IsKey key)
    (h : ¬ key <+: Text.lstrip t) : (keyLine key).run ⟨b, t⟩ = [] := by
  have hword : ∀ s ∈ starRuns Text.isSpace b t, run (word key) s = [] := by
    intro s hs
    obtain ⟨w, hw, ht, -⟩ := mem_starRuns hs
    obtain ⟨sb, sa⟩ := s
    rw [run_word hk.ne_nil, if_neg]
    intro hp
    refine h ?_
    rw [ht, Text.lstrip, dropWhile_append_stop hw (hk.head_of_prefix hp)]
    exact hp
  have hpre : run (keyLine key).pre ⟨b, t⟩ = [] := by
    by_cases hb : atLineStart b
    · simp only [keyLine, run, if_pos hb, List.flatMap_cons, List.flatMap_nil, List.append_nil,
        List.flatMap_eq_nil_iff]
      intro s hs x hx
      rw [hword s hs] at hx
      simp at hx
    · simp [keyLine, run, hb]
  rw [Capture.run, hpre, List.flatMap_nil]

theorem keyLine_search_line {b l t : Text} (hk : IsKey key) (hl : '\n' ∉ l)
    (h : ¬ key <+: Text.lstrip (l ++ '\n' :: t)) :
    (keyLine key).search b (l ++ '\n' :: t) = (keyLine key).search ('\n' :: (l.reverse ++ b)) t := by
  have hsplit : l ++ '\n' :: t = (l ++ ['\n']) ++ t := by simp
  have hs := Capture.search_append (p := keyLine key) (b := b) (w := l ++ ['\n']) (t := t) ?_
  · rw [hsplit, hs]
    simp
  · intro x y hxy hy
    rcases List.eq_nil_or_concat' x with rfl | ⟨x, c, rfl⟩
    · rw [List.nil_append] at hxy
      rw [← hxy, ← hsplit]
      exact keyLine_run_of_not_prefix hk h
    · refine keyLine_run_of_not_lineStart ?_
      have hc : c ∈ l := by
        have hp : x ++ [c] <+: l := by
          refine List.prefix_of_prefix_length_le ⟨y, hxy.symm⟩ (List.prefix_append l ['\n']) ?_
          have hlen := congrArg List.length hxy
          have hy' := List.length_pos_iff.mpr hy
          simp only [List.length_append, List.length_cons, List.length_nil] at hlen ⊢
          omega
        exact hp.subset (by simp)
      have hne : c ≠ '\n' := fun hcn => hl (hcn ▸ hc)
      simp [atLineStart, hne]

theorem keyLine_search_of_not_infix {b t : Text} (hk : IsKey key) (h : ¬ key <:+: t) :
    (keyLine key).search b t = none := by
  rw [Capture.search_none_iff]
  intro w u ht
  refine keyLine_run_of_not_prefix hk fun hp => h ?_
  have hu : Text.lstrip u <:+ u := List.dropWhile_suffix _
  rw [ht]
  exact hp.isInfix.trans (hu.isInfix.trans ⟨w, [], by simp⟩)

theorem lazyRuns_flatMap {β : Type} {p : Char → Bool} {f : Cursor → List β} {b v t : Text}
    (hv : ∀ c ∈ v, p c = true)
    (hf : ∀ w x, v = w ++ x → x ≠ [] → f (.skip b w (x ++ t)) = []) :
    ∃ tl, (lazyRuns p b (v ++ t)).flatMap f = f (.skip b v t) ++ tl := by
  induction v generalizing b with
  | nil => cases t with
    | nil => exact ⟨[], by simp [lazyRuns, Cursor.skip]⟩
    | cons c cs =>
      exact ⟨_, by rw [List.nil_append, lazyRuns, List.flatMap_cons]; rfl⟩
  | cons c v ih =>
    obtain ⟨tl, htl⟩ := ih (b := c :: b) (fun x hx => hv x (List.mem_cons_of_mem _ hx))
      (fun w x hw hx => by simpa [Cursor.skip] using hf (c :: w) x (by rw [hw]; rfl) hx)
    refine ⟨tl, ?_⟩
    have h₀ : f ⟨b, c :: (v ++ t)⟩ = [] := by
      simpa [Cursor.skip] using hf [] (c :: v) rfl (by simp)
    rw [List.cons_append, lazyRuns, if_pos (hv c List.mem_cons_self), List.flatMap_cons, h₀, htl]
    simp [Cursor.skip]

/-- Blanks, then a further character of the line: no line end is in reach. -/
theorem blanks_lineEnd_nil {b u t : Text} {z : Char} (hu : '\n' ∉ u)
    (hz : Text.isSpace z = false) :
    run (.seq (.star Text.isSpace) .lineEnd) ⟨b, u ++ z :: t⟩ = [] := by
  rw [run, List.flatMap_eq_nil_iff]
  intro s hs
  obtain ⟨w, hw, ht, -⟩ := mem_starRuns hs
  obtain ⟨sb, sa⟩ := s
  have hlen : w.length ≤ u.length := by
    by_contra hlt
    have hp : u ++ [z] <+: w := by
      refine List.prefix_of_prefix_length_le (show _ <+: u ++ z :: t from ⟨t, by simp⟩) ⟨sa, ht.symm⟩ ?_
      simpa using Nat.succ_le_of_lt (Nat.lt_of_not_le hlt)
    have hzw := hw z (hp.subset (by simp))
    rw [hz] at hzw
    exact Bool.false_ne_true hzw
  obtain ⟨x, rfl⟩ : w <+: u :=
    List.prefix_of_prefix_length_le ⟨sa, ht.symm⟩ (List.prefix_append u _) hlen
  rw [List.append_assoc, List.append_cancel_left_eq] at ht
  have hne : atLineEnd sa = false := by
    subst ht
    cases x with
    | nil =>
      have hzn : z ≠ '\n' := by
        rintro rfl
        exact absurd hz (by decide)
      simp [atLineEnd, hzn]
    | cons c x =>
      have hcn : c ≠ '\n' := by
        rintro rfl
        exact hu (by simp)
      simp [atLineEnd, hcn]
  simp [run, hne]

/-- At a line end the trailing blanks match, whatever they swallow. -/
theorem blanks_lineEnd_head {b t : Text} (ht : atLineEnd t = true) :
    ∃ w u tl, t = w ++ u ∧
      run (.seq (.star Text.isSpace) .lineEnd) ⟨b, t⟩ = .skip b w u :: tl := by
  have hmem : (⟨b, t⟩ : Cursor) ∈ run (.seq (.star Text.isSpace) .lineEnd) ⟨b, t⟩ := by
    rw [run, List.mem_flatMap]
    refine ⟨⟨b, t⟩, ?_, by simp [run, ht]⟩
    cases t with
    | nil => simp [run, starRuns]
    | cons c cs =>
      simp only [run, starRuns]
      split <;> simp
  rcases hr : run (.seq (.star Text.isSpace) .lineEnd) ⟨b, t⟩ with _ | ⟨s, tl⟩
  · rw [hr] at hmem
    simp at hmem
  · have hs : s ∈ run (.seq (.star Text.isSpace) .lineEnd) ⟨b, t⟩ := by simp [hr]
    rw [run, List.mem_flatMap] at hs
    obtain ⟨s₁, hs₁, hs⟩ := hs
    obtain ⟨w, -, hw, hb⟩ := mem_starRuns hs₁
    obtain ⟨sb, sa⟩ := s₁
    simp only at hw hb
    have hse : s = ⟨sb, sa⟩ := by
      simp only [run] at hs
      split at hs
      · exact List.mem_singleton.mp hs
      · exact absurd hs List.not_mem_nil
    exact ⟨w, sa, tl, hw, by rw [hse, hb]; rfl⟩

/-- What a setting may hold: not empty, on one line, no blank at either end. -/
structure IsValue (v : Text) : Prop where
  oneLine : '\n' ∉ v
  head : ∃ c cs, v = c :: cs ∧ Text.isSpace c = false
  last : ∃ cs z, v = cs ++ [z] ∧ Text.isSpace z = false

def equals : Text := [' ', '=', ' ']

/-- A star over a run of its class: where what follows succeeds only after the whole
run, the shorter runs do not matter. -/
theorem starRuns_flatMap {β : Type} {p : Char → Bool} {f : Cursor → List β} {b w t : Text}
    (hw : ∀ c ∈ w, p c = true) (ht : ∀ c ∈ t.head?, p c = false)
    (hf : ∀ x c y, w = x ++ c :: y → f (.skip b x (c :: (y ++ t))) = []) :
    (starRuns p b (w ++ t)).flatMap f = f (.skip b w t) := by
  induction w generalizing b with
  | nil => simp [starRuns_stop ht, Cursor.skip]
  | cons c w ih =>
    have h₀ : f ⟨b, c :: (w ++ t)⟩ = [] := by simpa [Cursor.skip] using hf [] c w rfl
    have hw' := ih (b := c :: b) (fun x hx => hw x (List.mem_cons_of_mem _ hx))
      fun x d y hxy => by simpa [Cursor.skip] using hf (c :: x) d y (by rw [hxy]; rfl)
    rw [List.cons_append, starRuns, if_pos (hw c List.mem_cons_self), List.flatMap_append, hw']
    simp [Cursor.skip, h₀]

theorem keyLine_pre_run {b ws v t : Text} (hk : IsKey key) (hb : atLineStart b = true)
    (hws : ∀ c ∈ ws, Text.isSpace c = true) (hv : ∃ c cs, v = c :: cs ∧ Text.isSpace c = false) :
    ∃ s₀, run (keyLine key).pre ⟨b, ws ++ (key ++ (equals ++ (v ++ t)))⟩ =
      [.skip b (ws ++ key ++ equals) (v ++ t), s₀] := by
  obtain ⟨c, cs, rfl, hc⟩ := hv
  have h₁ := starRuns_flatMap (b := b)
    (f := run (.seq (word key) (.seq (.star Text.isSpace) (.seq (.one (· == '=')) (.star Text.isSpace)))))
    hws (hk.head_of_prefix (List.prefix_append key (equals ++ (c :: cs ++ t)))) ?_
  · have h₂ : run (word key) (.skip b ws (key ++ (equals ++ (c :: cs ++ t)))) =
        [.skip b (ws ++ key) (equals ++ (c :: cs ++ t))] := by
      rw [Cursor.skip, run_word hk.ne_nil, if_pos (List.prefix_append _ _), List.drop_left]
      simp [Cursor.skip]
    have hsp : Text.isSpace ' ' = true := by decide
    have heq : Text.isSpace '=' = false := by decide
    refine ⟨.skip b (ws ++ key ++ [' ', '=']) (' ' :: (c :: cs) ++ t), ?_⟩
    rw [keyLine, run, run, if_pos hb, List.flatMap_singleton, run]
    refine h₁.trans ?_
    simp only [run, h₂, List.flatMap_cons, List.flatMap_nil, List.append_nil]
    simp [Cursor.skip, equals, starRuns, run, hsp, heq, hc]
  · -- a blank before the key is no key
    intro x d y hxy
    have hd : Text.isSpace d = true := hws d (by simp [hxy])
    have hno : ¬ key <+: d :: (y ++ (key ++ (equals ++ (c :: cs ++ t)))) := fun hp => by
      simp [hk.head_of_prefix hp d rfl] at hd
    rw [run, Cursor.skip, run_word hk.ne_nil, if_neg hno, List.flatMap_nil]

/-- At a setting line, blanks before it or not, the value is captured whole. -/
theorem keyLine_run_match {b ws v t : Text} (hk : IsKey key) (hb : atLineStart b = true)
    (hws : ∀ c ∈ ws, Text.isSpace c = true) (hv : IsValue v) (ht : atLineEnd t = true) :
    ∃ w u tl, t = w ++ u ∧ (keyLine key).run ⟨b, ws ++ (key ++ (equals ++ (v ++ t)))⟩ =
      (v, .skip ((ws ++ key ++ equals ++ v).reverse ++ b) w u) :: tl := by
  obtain ⟨s₀, hpre⟩ := keyLine_pre_run (v := v) (t := t) hk hb hws hv.head
  generalize hpr : ws ++ key ++ equals = pr at hpre ⊢
  obtain ⟨w, u, tl, hwu, hpost⟩ := blanks_lineEnd_head (b := (pr ++ v).reverse ++ b) ht
  obtain ⟨c, cs, rfl, hc⟩ := hv.head
  obtain ⟨us, z, hz, hzs⟩ := hv.last
  have hdot : ∀ x ∈ c :: cs, (x != '\n') = true := by
    intro x hx
    simpa using fun hxn : x = '\n' => hv.oneLine (hxn ▸ hx)
  -- a proper tail of the value still ends in `z`, so no line end is in reach
  have hstop : ∀ w x, cs = w ++ x → x ≠ [] →
      run (keyLine key).post (.skip (c :: (pr.reverse ++ b)) w (x ++ t)) = [] := by
    intro w x hwx hx
    obtain ⟨x', z', rfl⟩ := (List.eq_nil_or_concat' x).resolve_left hx
    have hzz : z' = z := by
      have h : (c :: (w ++ x')) ++ [z'] = us ++ [z] := by rw [← hz, hwx]; simp
      simpa using (List.append_inj' h rfl).2
    subst hzz
    have hx' : '\n' ∉ x' := fun hn => hv.oneLine (by rw [hwx]; simp [hn])
    simpa [Cursor.skip, keyLine] using blanks_lineEnd_nil (t := t) hx' hzs
  obtain ⟨tl', hlazy⟩ := lazyRuns_flatMap (p := (· != '\n')) (t := t)
    (f := fun s => (run (keyLine key).post s).map fun s₃ =>
      ((c :: cs ++ t).take (s.before.length - (pr.reverse ++ b).length), s₃))
    (b := c :: (pr.reverse ++ b)) (v := cs)
    (fun x hx => hdot x (List.mem_cons_of_mem _ hx))
    (fun w x hwx hx => by rw [hstop w x hwx hx, List.map_nil])
  have hin : run (keyLine key).inner (.skip b pr (c :: cs ++ t)) =
      lazyRuns (· != '\n') (c :: (pr.reverse ++ b)) (cs ++ t) := by
    simp [keyLine, run, Cursor.skip, hdot c List.mem_cons_self]
  have hend : run (keyLine key).post (.skip (c :: (pr.reverse ++ b)) cs t) =
      .skip ((pr ++ c :: cs).reverse ++ b) w u :: tl := by
    simpa [keyLine, Cursor.skip] using hpost
  have hlen : (c :: cs ++ t).take
      ((Cursor.skip (c :: (pr.reverse ++ b)) cs t).before.length -
        (pr.reverse ++ b).length) = c :: cs := by
    have h : (Cursor.skip (c :: (pr.reverse ++ b)) cs t).before.length -
        (pr.reverse ++ b).length = (c :: cs).length := by
      simp only [Cursor.skip, List.length_append, List.length_cons, List.length_reverse]
      omega
    rw [h, List.take_left]
  rw [hend, List.map_cons, hlen] at hlazy
  have hrun := congrArg (fun l : List (Text × Cursor) => l ++ [s₀].flatMap fun s₁ =>
    (run (keyLine key).inner s₁).flatMap fun s₂ => (run (keyLine key).post s₂).map fun s₃ =>
      (s₁.after.take (s₂.before.length - s₁.before.length), s₃)) hlazy
  simp only [List.cons_append] at hrun
  refine ⟨w, u, _, hwu, Eq.trans ?_ hrun⟩
  rw [Capture.run, hpre, List.flatMap_cons, hin]
  rfl

theorem keyLine_search_match {b ws v t : Text} (hk : IsKey key) (hb : atLineStart b = true)
    (hws : ∀ c ∈ ws, Text.isSpace c = true) (hv : IsValue v) (ht : atLineEnd t = true) :
    ∃ w u, t = w ++ u ∧ (keyLine key).search b (ws ++ (key ++ (equals ++ (v ++ t)))) =
      some (v, .skip ((ws ++ key ++ equals ++ v).reverse ++ b) w u) := by
  obtain ⟨w, u, tl, hwu, hrun⟩ := keyLine_run_match hk hb hws hv ht
  refine ⟨w, u, hwu, ?_⟩
  have hne : ws ++ (key ++ (equals ++ (v ++ t))) ≠ [] := by simp [hk.ne_nil]
  obtain ⟨x, xs, hx⟩ := List.exists_cons_of_ne_nil hne
  rw [hx] at hrun ⊢
  rw [Capture.search, hrun]
  rfl

/-! ## Where a setting line succeeds -/

theorem mem_starRuns_iff {p : Char → Bool} {b t : Text} {s : Cursor} : s ∈ starRuns p b t ↔
    ∃ w, (∀ c ∈ w, p c = true) ∧ t = w ++ s.after ∧ s.before = w.reverse ++ b := by
  refine ⟨mem_starRuns, ?_⟩
  rintro ⟨w, hw, rfl, hb⟩
  obtain ⟨sb, sa⟩ := s
  simp only at hb
  subst hb
  induction w generalizing b with
  | nil =>
    cases sa with
    | nil => exact List.mem_singleton_self _
    | cons c cs =>
      simp only [List.nil_append, starRuns]
      split <;> simp
  | cons c w ih =>
    have hrest := ih (b := c :: b) fun x hx => hw x (List.mem_cons_of_mem c hx)
    rw [List.cons_append, starRuns, if_pos (hw c List.mem_cons_self), List.mem_append]
    exact .inl (by simpa using hrest)

theorem mem_lazyRuns_of_all {p : Char → Bool} {b w t : Text} (hw : ∀ c ∈ w, p c = true) :
    Cursor.skip b w t ∈ lazyRuns p b (w ++ t) := by
  induction w generalizing b with
  | nil => cases t <;> exact List.mem_cons_self
  | cons c w ih =>
    have hrest := ih (b := c :: b) fun x hx => hw x (List.mem_cons_of_mem c hx)
    rw [List.cons_append, lazyRuns, if_pos (hw c List.mem_cons_self)]
    exact List.mem_cons_of_mem _ (by simpa [Cursor.skip] using hrest)

/-- A key, blanks before and after it, an equals sign and a value: what a setting line holds
from its start on. The blanks may span lines; the value has more than line breaks. -/
def IsSetting (key t : Text) : Prop := ∃ ws ws' v, t = ws ++ key ++ ws' ++ '=' :: v ∧
  (∀ c ∈ ws, Text.isSpace c = true) ∧ (∀ c ∈ ws', Text.isSpace c = true) ∧ ∃ c ∈ v, c ≠ '\n'

/-- The key opens a line of the text, blanks apart, and has a value. -/
def HasSetting (key t : Text) : Prop :=
  ∃ x u, t = x ++ u ∧ atLineStart x.reverse = true ∧ IsSetting key u

theorem mem_run_seq {a b : Pat} {s r : Cursor} : r ∈ run (.seq a b) s ↔ ∃ q ∈ run a s, r ∈ run b q := by
  rw [run, List.mem_flatMap]

theorem mem_run_star {p : Char → Bool} {s r : Cursor} : r ∈ run (.star p) s ↔
    ∃ w, (∀ c ∈ w, p c = true) ∧ s.after = w ++ r.after ∧ r.before = w.reverse ++ s.before := by
  obtain ⟨b, t⟩ := s
  exact mem_starRuns_iff

theorem mem_run_one {p : Char → Bool} {s r : Cursor} : r ∈ run (.one p) s ↔
    ∃ c, p c = true ∧ s.after = c :: r.after ∧ r.before = c :: s.before := by
  obtain ⟨b, t⟩ := s
  obtain ⟨rb, rt⟩ := r
  cases t with
  | nil => simp [run]
  | cons c cs =>
    by_cases hc : p c
    · simp only [run, if_pos hc, List.mem_singleton, Cursor.mk.injEq, List.cons.injEq]
      grind
    · simp only [run, if_neg hc, List.not_mem_nil, false_iff, List.cons.injEq]
      grind

theorem mem_run_word {w : Text} (hw : w ≠ []) {s r : Cursor} : r ∈ run (word w) s ↔
    s.after = w ++ r.after ∧ r.before = w.reverse ++ s.before := by
  obtain ⟨b, t⟩ := s
  obtain ⟨rb, rt⟩ := r
  rw [run_word hw]
  by_cases h : w <+: t
  · obtain ⟨u, rfl⟩ := h
    rw [if_pos (List.prefix_append w u), List.mem_singleton, List.drop_left, Cursor.skip, Cursor.mk.injEq,
      List.append_cancel_left_eq]
    exact ⟨fun h => ⟨h.2.symm, h.1⟩, fun h => ⟨h.2, h.1.symm⟩⟩
  · rw [if_neg h]
    simp only [List.not_mem_nil, false_iff, not_and]
    exact fun ht => absurd ⟨rt, ht.symm⟩ h

theorem mem_run_pre (hk : IsKey key) {b t : Text} {r : Cursor} : r ∈ run (keyLine key).pre ⟨b, t⟩ ↔
    atLineStart b = true ∧ ∃ ws ws' bl, t = ws ++ key ++ ws' ++ '=' :: bl ++ r.after ∧
      (∀ c ∈ ws, Text.isSpace c = true) ∧ (∀ c ∈ ws', Text.isSpace c = true) ∧
      (∀ c ∈ bl, Text.isSpace c = true) ∧ r.before = (ws ++ key ++ ws' ++ '=' :: bl).reverse ++ b := by
  have hstart : ∀ q : Cursor, q ∈ run .lineStart ⟨b, t⟩ ↔ atLineStart b = true ∧ q = ⟨b, t⟩ := by
    intro q
    rw [run]
    split <;> simp_all
  simp only [keyLine, mem_run_seq, hstart, mem_run_star, mem_run_word hk.ne_nil, mem_run_one]
  constructor
  · rintro ⟨_, ⟨hb, rfl⟩, q₁, ⟨ws, hws, h₁, h₁'⟩, q₂, ⟨h₂, h₂'⟩, q₃, ⟨ws', hws', h₃, h₃'⟩, q₄,
      ⟨c, hc, h₄, h₄'⟩, bl, hbl, h₅, h₅'⟩
    obtain rfl : c = '=' := by simpa using hc
    refine ⟨hb, ws, ws', bl, ?_, hws, hws', hbl, ?_⟩
    · simpa [h₂, h₃, h₄, h₅] using h₁
    · simp [h₅', h₄', h₃', h₂', h₁']
  · rintro ⟨hb, ws, ws', bl, rfl, hws, hws', hbl, hr⟩
    refine ⟨_, ⟨hb, rfl⟩, .skip b ws _, ⟨ws, hws, ?_, rfl⟩, .skip b (ws ++ key) _, ⟨rfl, ?_⟩,
      .skip b (ws ++ key ++ ws') ('=' :: (bl ++ r.after)), ⟨ws', hws', rfl, ?_⟩,
      .skip b (ws ++ key ++ ws' ++ ['=']) (bl ++ r.after), ⟨'=', rfl, ?_, ?_⟩, bl, hbl, rfl, ?_⟩
    · simp [Cursor.skip]
    · simp [Cursor.skip]
    · simp [Cursor.skip]
    · rfl
    · simp [Cursor.skip]
    · simp [Cursor.skip, hr]

/-- A setting line succeeds where, at the start of a line, there is a setting. -/
theorem keyLine_run_ne_nil_iff (hk : IsKey key) {b t : Text} :
    (keyLine key).run ⟨b, t⟩ ≠ [] ↔ atLineStart b = true ∧ IsSetting key t := by
  have hmem : (keyLine key).run ⟨b, t⟩ ≠ [] ↔ ∃ q₁ ∈ run (keyLine key).pre ⟨b, t⟩,
      ∃ q₂ ∈ run (keyLine key).inner q₁, run (keyLine key).post q₂ ≠ [] := by
    rw [Capture.run]
    simp only [ne_eq, List.flatMap_eq_nil_iff, List.map_eq_nil_iff, not_forall, exists_prop]
  rw [hmem]
  constructor
  · rintro ⟨q₁, h₁, q₂, h₂, -⟩
    obtain ⟨hb, ws, ws', bl, rfl, hws, hws', -, -⟩ := (mem_run_pre hk).mp h₁
    obtain ⟨q, hq, -⟩ := mem_run_seq.mp h₂
    obtain ⟨c, hc, hafter, -⟩ := mem_run_one.mp hq
    refine ⟨hb, ws, ws', bl ++ q₁.after, by simp, hws, hws', c, ?_, by simpa using hc⟩
    rw [hafter]
    exact List.mem_append_right _ List.mem_cons_self
  · rintro ⟨hb, ws, ws', v, rfl, hws, hws', c₀, hc₀, hne⟩
    -- the blanks end before the first character that is no line break, the value with its line
    obtain ⟨bl, c, w, rfl, hbl, hc⟩ : ∃ bl c w, v = bl ++ c :: w ∧ (∀ d ∈ bl, d = '\n') ∧ c ≠ '\n' := by
      have hdrop : v.dropWhile (· == '\n') ≠ [] := fun h => by
        simpa using hne (by simpa using List.dropWhile_eq_nil_iff.mp h c₀ hc₀)
      obtain ⟨c, w, hcw⟩ := List.exists_cons_of_ne_nil hdrop
      refine ⟨v.takeWhile (· == '\n'), c, w, ?_, fun d hd => ?_, ?_⟩
      · rw [← hcw, List.takeWhile_append_dropWhile]
      · simpa using List.mem_takeWhile_imp hd
      · have := List.head?_dropWhile_not (· == '\n') v
        rw [hcw] at this
        simpa using this
    have hblank : ∀ d ∈ bl, Text.isSpace d = true := fun d hd => by
      rw [hbl d hd]
      decide
    refine ⟨.skip b (ws ++ key ++ ws' ++ '=' :: bl) (c :: w), (mem_run_pre hk).mpr
      ⟨hb, ws, ws', bl, by simp [Cursor.skip], hws, hws', hblank, rfl⟩, ?_⟩
    have hline : ∀ d ∈ w.takeWhile (· != '\n'), (d != '\n') = true := fun d hd => by
      simpa using List.mem_takeWhile_imp hd
    have hlazy := mem_lazyRuns_of_all (b := c :: (Cursor.skip b (ws ++ key ++ ws' ++ '=' :: bl) (c :: w)).before)
      (t := w.dropWhile (· != '\n')) hline
    rw [List.takeWhile_append_dropWhile] at hlazy
    refine ⟨_, mem_run_seq.mpr ⟨⟨_, w⟩, mem_run_one.mpr ⟨c, by simpa using hc, rfl, rfl⟩, hlazy⟩, ?_⟩
    have hend : atLineEnd (w.dropWhile (· != '\n')) = true := by
      have := List.head?_dropWhile_not (· != '\n') w
      rw [atLineEnd]
      cases hd : (w.dropWhile (· != '\n')).head? <;> simp_all
    obtain ⟨_, _, _, -, hpost⟩ := blanks_lineEnd_head
      (b := (Cursor.skip (c :: (Cursor.skip b (ws ++ key ++ ws' ++ '=' :: bl) (c :: w)).before)
        (w.takeWhile (· != '\n')) (w.dropWhile (· != '\n'))).before) hend
    exact fun hnil => absurd (hpost.symm.trans hnil) (by simp)

theorem first_isSome_iff (hk : IsKey key) {t : Text} :
    ((keyLine key).first t).isSome ↔ HasSetting key t := by
  rw [HasSetting, Capture.first, Option.isSome_map, ← Option.ne_none_iff_isSome, Ne, Capture.search_none_iff]
  simp only [not_forall, exists_prop]
  refine exists_congr fun x => exists_congr fun u => and_congr_right fun _ => ?_
  rw [Cursor.skip, ← Ne, keyLine_run_ne_nil_iff hk, List.append_nil]

end Pattern
