import PiVpn.Lib.Pattern

/-! What the setting pattern of a key finds in a text, one value after another, said of the
text alone. -/

namespace Pattern
open Text

/-! ## The places and the values -/

def Blanks (ws : Text) : Prop := ∀ c ∈ ws, isSpace c = true

/-- What stands behind an equals sign: the value and, where more than blanks follows it, the
text from the line of that on. Line breaks before the value do not count; where there is no
value but blanks, it is the last blank that is no line break. -/
inductive Value : Text → Text → Text → Prop
  | line {bl v g g' r : Text} (hbl : Blanks bl) (hv : IsValue v) (hg : Blanks g) (hg' : Blanks g')
      (hn : '\n' ∉ g') (hr : ∃ c cs, r = c :: cs ∧ isSpace c = false) :
      Value (bl ++ (v ++ (g ++ '\n' :: (g' ++ r)))) v (g' ++ r)
  | last {bl v g : Text} (hbl : Blanks bl) (hv : IsValue v) (hg : Blanks g) :
      Value (bl ++ (v ++ g)) v []
  | blank {bl w : Text} {c : Char} (hbl : Blanks bl) (hc : isSpace c = true) (hne : c ≠ '\n')
      (hw : ∀ d ∈ w, d = '\n') : Value (bl ++ c :: w) [c] []

/-- The values of the settings of a key: that of the first one, then those of the text
behind it. -/
inductive Says (key : Text) : Text → List Text → Prop
  | nil {t : Text} (h : ¬ HasSetting key t) : Says key t []
  | cons {x ws ws' after v rest : Text} {vs : List Text} (hx : atLineStart x.reverse = true)
      (hfirst : ∀ x₁ x₂, x = x₁ ++ x₂ → x₂ ≠ [] → atLineStart x₁.reverse = true →
        ¬ IsSetting key (x₂ ++ (ws ++ (key ++ (ws' ++ '=' :: after)))))
      (hws : Blanks ws) (hws' : Blanks ws') (hv : Value after v rest) (h : Says key rest vs) :
      Says key (x ++ (ws ++ (key ++ (ws' ++ '=' :: after)))) (v :: vs)

variable {key : Text}

/-! ## The first run that goes on -/

/-- Of the runs of a star, longest first, those that stop the rest do not matter. -/
theorem starRuns_flatMap_first {β : Type} {p : Char → Bool} {f : Cursor → List β} {b bl t : Text}
    (hbl : ∀ c ∈ bl, p c = true)
    (hf : ∀ x y, t = x ++ y → x ≠ [] → (∀ c ∈ x, p c = true) → f (.skip b (bl ++ x) y) = []) :
    ∃ tl, (starRuns p b (bl ++ t)).flatMap f = f (.skip b bl t) ++ tl := by
  induction bl generalizing b with
  | nil =>
    cases t with
    | nil => exact ⟨[], by simp [starRuns, Cursor.skip]⟩
    | cons c cs =>
      refine ⟨[], ?_⟩
      rw [List.nil_append, starRuns]
      by_cases hc : p c
      · have hlong : (starRuns p (c :: b) cs).flatMap f = [] := by
          rw [List.flatMap_eq_nil_iff]
          intro s hs
          obtain ⟨w, hw, ht, hb⟩ := mem_starRuns hs
          obtain ⟨sb, sa⟩ := s
          simp only at ht hb
          have hrun := hf (c :: w) sa (by rw [ht]; rfl) (by simp) fun d hd => by
            rcases List.mem_cons.mp hd with rfl | hd
            · exact hc
            · exact hw d hd
          simpa [Cursor.skip, hb] using hrun
        rw [if_pos hc, List.flatMap_append, hlong]
        simp [Cursor.skip]
      · rw [if_neg hc]
        simp [Cursor.skip]
  | cons c bl ih =>
    obtain ⟨tl, htl⟩ := ih (b := c :: b) (fun d hd => hbl d (List.mem_cons_of_mem c hd))
      fun x y hxy hx hall => by simpa [Cursor.skip] using hf x y hxy hx hall
    refine ⟨tl ++ f ⟨b, c :: (bl ++ t)⟩, ?_⟩
    rw [List.cons_append, starRuns, if_pos (hbl c List.mem_cons_self), List.flatMap_append, htl]
    simp [Cursor.skip]

theorem not_blank_newline {c : Char} (h : isSpace c = false) : c ≠ '\n' := by
  rintro rfl
  exact absurd h (by decide)

/-- Behind a value the blanks match up to the last line break before more text. -/
theorem post_line {b g g' r : Text} (hg : Blanks g) (hn : '\n' ∉ g')
    (hr : ∃ c cs, r = c :: cs ∧ isSpace c = false) :
    ∃ tl, run (keyLine key).post ⟨b, g ++ '\n' :: (g' ++ r)⟩ = .skip b g ('\n' :: (g' ++ r)) :: tl := by
  obtain ⟨c, cs, rfl, hc⟩ := hr
  have hfirst := @starRuns_flatMap_first _ isSpace (run .lineEnd) b g ('\n' :: (g' ++ c :: cs)) hg ?_
  · obtain ⟨tl, htl⟩ := hfirst
    exact ⟨tl, htl⟩
  · -- past that line break the next character is neither a line break nor the end
    intro x y hxy hx hall
    obtain ⟨d, x, rfl⟩ := List.exists_cons_of_ne_nil hx
    rw [List.cons_append, List.cons.injEq] at hxy
    have hend : atLineEnd y = false := by
      rcases List.append_eq_append_iff.mp hxy.2 with ⟨m, hm, hm'⟩ | ⟨m, hm, hm'⟩
      · cases m with
        | nil =>
          rw [List.nil_append] at hm'
          rw [← hm']
          simp [atLineEnd, not_blank_newline hc]
        | cons e m =>
          rw [List.cons_append, List.cons.injEq] at hm'
          have := hall e (by rw [hm]; simp)
          rw [← hm'.1, hc] at this
          cases this
      · cases m with
        | nil =>
          rw [List.nil_append] at hm'
          rw [hm']
          simp [atLineEnd, not_blank_newline hc]
        | cons e m =>
          have he : e ≠ '\n' := by
            rintro rfl
            exact hn (by rw [hm]; simp)
          rw [hm']
          simp [atLineEnd, he]
    simp [run, Cursor.skip, hend]

theorem post_last {b g : Text} (hg : Blanks g) :
    ∃ tl, run (keyLine key).post ⟨b, g⟩ = .skip b g [] :: tl := by
  obtain ⟨tl, htl⟩ := @starRuns_flatMap_first _ isSpace (run .lineEnd) b g [] hg fun x y hxy hx _ =>
    absurd (List.append_eq_nil_iff.mp hxy.symm).1 hx
  rw [List.append_nil] at htl
  exact ⟨tl, htl⟩

/-- What is captured from a cursor behind the blanks of the equals sign on. -/
def capturesFrom (key : Text) (s₁ : Cursor) : List (Text × Cursor) :=
  (run (keyLine key).inner s₁).flatMap fun s₂ => (run (keyLine key).post s₂).map fun s₃ =>
    (s₁.after.take (s₂.before.length - s₁.before.length), s₃)

theorem capturesFrom_value {b v y : Text} {e : Cursor} {tl : List Cursor} (hv : IsValue v)
    (hpost : run (keyLine key).post ⟨v.reverse ++ b, y⟩ = e :: tl) :
    ∃ tl', capturesFrom key ⟨b, v ++ y⟩ = (v, e) :: tl' := by
  obtain ⟨c, cs, rfl, hc⟩ := hv.head
  obtain ⟨us, z, hz, hzs⟩ := hv.last
  have hdot : ∀ x ∈ c :: cs, (x != '\n') = true := fun x hx =>
    bne_iff_ne.mpr fun hxn => hv.oneLine (hxn ▸ hx)
  -- a proper tail of the value still ends in `z`, so no line end is in reach
  have hstop : ∀ w x, cs = w ++ x → x ≠ [] → run (keyLine key).post (.skip (c :: b) w (x ++ y)) = [] := by
    intro w x hwx hx
    obtain ⟨x', z', rfl⟩ := (List.eq_nil_or_concat' x).resolve_left hx
    have hzz : z' = z := by
      have h : (c :: (w ++ x')) ++ [z'] = us ++ [z] := by rw [← hz, hwx]; simp
      simpa using (List.append_inj' h rfl).2
    subst hzz
    have hx' : '\n' ∉ x' := fun hn => hv.oneLine (by rw [hwx]; simp [hn])
    simpa [Cursor.skip, keyLine] using blanks_lineEnd_nil (t := y) hx' hzs
  obtain ⟨tl', hlazy⟩ := lazyRuns_flatMap (p := (· != '\n')) (t := y)
    (f := fun s => (run (keyLine key).post s).map fun s₃ =>
      ((c :: cs ++ y).take (s.before.length - b.length), s₃)) (b := c :: b) (v := cs)
    (fun x hx => hdot x (List.mem_cons_of_mem _ hx))
    (fun w x hwx hx => by rw [hstop w x hwx hx, List.map_nil])
  have hinner : run (keyLine key).inner ⟨b, c :: cs ++ y⟩ = lazyRuns (· != '\n') (c :: b) (cs ++ y) := by
    simp [keyLine, run, hdot c List.mem_cons_self]
  have hend : run (keyLine key).post (.skip (c :: b) cs y) = e :: tl := by
    simpa [Cursor.skip] using hpost
  have hlen : (c :: cs ++ y).take ((Cursor.skip (c :: b) cs y).before.length - b.length) = c :: cs := by
    have h : (Cursor.skip (c :: b) cs y).before.length - b.length = (c :: cs).length := by
      simp only [Cursor.skip, List.length_append, List.length_cons, List.length_reverse]
      omega
    rw [h, List.take_left]
  rw [hend, List.map_cons, hlen] at hlazy
  rw [capturesFrom, hinner]
  exact ⟨_, hlazy⟩

/-- Of blanks alone the last one is captured that is no line break. -/
theorem capturesFrom_blank {b w : Text} {c : Char} (hne : c ≠ '\n') (hw : ∀ d ∈ w, d = '\n') :
    ∃ e tl, e.after = [] ∧ capturesFrom key ⟨b, c :: w⟩ = ([c], e) :: tl := by
  have hblank : Blanks w := fun d hd => by
    rw [hw d hd]
    decide
  obtain ⟨tl, hpost⟩ := @post_last key (c :: b) w hblank
  have hinner : ∃ ss, run (keyLine key).inner ⟨b, c :: w⟩ = ⟨c :: b, w⟩ :: ss := by
    cases w with
    | nil => exact ⟨[], by simp [keyLine, run, hne, lazyRuns]⟩
    | cons d w => exact ⟨[], by simp [keyLine, run, hne, lazyRuns, hw d List.mem_cons_self]⟩
  obtain ⟨ss, hss⟩ := hinner
  have htake : (c :: w).take ((c :: b).length - b.length) = [c] := by simp
  rw [capturesFrom, hss, List.flatMap_cons, hpost, List.map_cons, List.cons_append]
  simp only [htake]
  exact ⟨.skip (c :: b) w [], _, rfl, rfl⟩

theorem capturesFrom_stop {b y : Text} (h : ∀ c ∈ y.head?, c = '\n') : capturesFrom key ⟨b, y⟩ = [] := by
  cases y with
  | nil => rfl
  | cons c y =>
    obtain rfl : c = '\n' := h c rfl
    rfl

/-- Where a search goes on behind a value: from the line of the text that follows. -/
def GoesOn (e : Cursor) (rest : Text) : Prop := e.after = '\n' :: rest ∨ e.after = [] ∧ rest = []

/-- A value behind an equals sign is what is captured there first. -/
theorem Value.captured {after v rest : Text} (h : Value after v rest) (b : Text) :
    ∃ e tl, GoesOn e rest ∧ (starRuns isSpace b after).flatMap (capturesFrom key) = (v, e) :: tl := by
  have hvalue : ∀ {bl v y : Text} {e : Cursor} {ss : List Cursor}, Blanks bl → IsValue v →
      run (keyLine key).post ⟨v.reverse ++ (bl.reverse ++ b), y⟩ = e :: ss →
        ∃ tl, (starRuns isSpace b (bl ++ (v ++ y))).flatMap (capturesFrom key) = (v, e) :: tl := by
    intro bl v y e ss hbl hv hpost
    obtain ⟨c, cs, hc, hcs⟩ := hv.head
    obtain ⟨tl, htl⟩ := @starRuns_flatMap_first _ isSpace (capturesFrom key) b bl (v ++ y) hbl
      fun x z hxz hx hall => by
        obtain ⟨d, x, rfl⟩ := List.exists_cons_of_ne_nil hx
        rw [hc, List.cons_append, List.cons_append, List.cons.injEq] at hxz
        have := hall d List.mem_cons_self
        rw [← hxz.1, hcs] at this
        cases this
    obtain ⟨tl', htl'⟩ := capturesFrom_value hv hpost
    exact ⟨_, htl.trans (by rw [Cursor.skip, htl', List.cons_append])⟩
  cases h with
  | line hbl hv hg hg' hn hr =>
    obtain ⟨ss, hss⟩ := post_line hg hn hr
    obtain ⟨tl, htl⟩ := hvalue hbl hv hss
    exact ⟨_, tl, .inl rfl, htl⟩
  | last hbl hv hg =>
    obtain ⟨ss, hss⟩ := post_last hg
    obtain ⟨tl, htl⟩ := hvalue hbl hv hss
    exact ⟨_, tl, .inr ⟨rfl, rfl⟩, htl⟩
  | @blank bl w c hbl hc hne hw =>
    -- further blanks stop before a line break, or at the end
    obtain ⟨tl, htl⟩ := @starRuns_flatMap_first _ isSpace (capturesFrom key) b bl (c :: w) hbl
      fun x z hxz hx _ => by
        obtain ⟨d, x, rfl⟩ := List.exists_cons_of_ne_nil hx
        rw [List.cons_append, List.cons.injEq] at hxz
        exact capturesFrom_stop fun d hd => hw d (by rw [hxz.2]; simp [List.mem_of_mem_head? hd])
    obtain ⟨e, tl', he, htl'⟩ := @capturesFrom_blank key (bl.reverse ++ b) w c hne hw
    exact ⟨e, _, .inr ⟨he, rfl⟩, htl.trans (by rw [Cursor.skip, htl', List.cons_append])⟩

theorem keyLine_run_value (hk : IsKey key) {b ws ws' after v rest : Text} (hb : atLineStart b = true)
    (hws : Blanks ws) (hws' : Blanks ws') (hv : Value after v rest) :
    ∃ e tl, GoesOn e rest ∧ (keyLine key).run ⟨b, ws ++ (key ++ (ws' ++ '=' :: after))⟩ = (v, e) :: tl := by
  have hpre : run (keyLine key).pre ⟨b, ws ++ (key ++ (ws' ++ '=' :: after))⟩ =
      starRuns isSpace ('=' :: (ws'.reverse ++ (key.reverse ++ (ws.reverse ++ b)))) after := by
    have hkey := starRuns_flatMap (b := b)
      (f := run (.seq (word key) (.seq (.star isSpace) (.seq (.one (· == '=')) (.star isSpace)))))
      hws (hk.head_of_prefix (List.prefix_append key (ws' ++ '=' :: after))) ?_
    · have hsign := starRuns_flatMap (b := key.reverse ++ (ws.reverse ++ b))
        (f := run (.seq (.one (· == '=')) (.star isSpace))) (t := '=' :: after) hws' (by simp [isSpace]) ?_
      · rw [keyLine, run, run, if_pos hb, List.flatMap_singleton, run]
        refine hkey.trans ?_
        rw [run, Cursor.skip, run_word hk.ne_nil, if_pos (List.prefix_append _ _), List.drop_left,
          List.flatMap_singleton, Cursor.skip, run, run]
        refine hsign.trans ?_
        simp [Cursor.skip, run]
      · intro x d y hxy
        have hd : isSpace d = true := hws' d (by simp [hxy])
        have hne : (d == '=') = false := by
          rw [beq_eq_false_iff_ne]
          rintro rfl
          exact absurd hd (by decide)
        simp [run, Cursor.skip, hne]
    · intro x d y hxy
      have hd : isSpace d = true := hws d (by simp [hxy])
      have hno : ¬ key <+: d :: (y ++ (key ++ (ws' ++ '=' :: after))) := fun hp => by
        simp [hk.head_of_prefix hp d rfl] at hd
      rw [run, Cursor.skip, run_word hk.ne_nil, if_neg hno, List.flatMap_nil]
  rw [Capture.run, hpre]
  exact hv.captured _

/-! ## The captures of a text -/

theorem atLineStart_append {b : Text} (hb : atLineStart b = true) (x : Text) :
    atLineStart (x.reverse ++ b) = atLineStart x.reverse := by
  rcases List.eq_nil_or_concat' x with rfl | ⟨x, c, rfl⟩
  · simpa [atLineStart] using hb
  · simp [atLineStart]

theorem search_none_iff_hasSetting (hk : IsKey key) {b t : Text} (hb : atLineStart b = true) :
    (keyLine key).search b t = none ↔ ¬ HasSetting key t := by
  rw [Capture.search_none_iff, HasSetting]
  push Not
  refine forall₂_congr fun x u => forall_congr' fun _ => ?_
  rw [Cursor.skip, ← not_iff_not, ← Ne, keyLine_run_ne_nil_iff hk, atLineStart_append hb]
  push Not
  rfl

theorem search_newline (hk : IsKey key) (b u : Text) :
    (keyLine key).search b ('\n' :: u) = (keyLine key).search ('\n' :: b) u := by
  have hrun : (keyLine key).run ⟨b, '\n' :: u⟩ = [] ∨
      (keyLine key).run ⟨b, '\n' :: u⟩ = (keyLine key).run ⟨'\n' :: b, u⟩ := by
    cases hb : atLineStart b with
    | false => exact .inl (keyLine_run_of_not_lineStart hb)
    | true =>
      -- the star takes the line break first, and no key begins with one
      have hword : run (word key) ⟨b, '\n' :: u⟩ = [] := by
        rw [run_word hk.ne_nil, if_neg]
        intro hp
        exact not_blank_newline (hk.head_of_prefix hp '\n' rfl) rfl
      have hpre : run (keyLine key).pre ⟨b, '\n' :: u⟩ = run (keyLine key).pre ⟨'\n' :: b, u⟩ := by
        have hspace : isSpace '\n' = true := by decide
        have hstart : atLineStart ('\n' :: b) = true := rfl
        simp only [keyLine, run, hb, hstart, if_true, List.flatMap_singleton, starRuns, hspace,
          List.flatMap_append, hword, List.flatMap_nil, List.append_nil]
      exact .inr (by rw [Capture.run, hpre, Capture.run])
  rw [Capture.search]
  rcases hrun with h | h
  · rw [h]
    rfl
  · rw [h]
    cases u with
    | nil =>
      rw [Capture.search]
      cases ((keyLine key).run ⟨'\n' :: b, []⟩).head? <;> rfl
    | cons c u =>
      rw [Capture.search]
      cases ((keyLine key).run ⟨'\n' :: b, c :: u⟩).head? <;> rfl

theorem findAll_end (hk : IsKey key) (n : Nat) {e : Cursor} (he : e.after = []) :
    (keyLine key).findAll n e = [] := by
  obtain ⟨b, t⟩ := e
  simp only at he
  subst he
  cases n with
  | zero => rfl
  | succ n =>
    have hnone : (keyLine key).search b [] = none := by
      rw [Capture.search, List.head?_eq_none_iff]
      exact keyLine_run_of_not_prefix hk fun hp => hk.ne_nil (List.prefix_nil.mp hp)
    rw [Capture.findAll]
    simp only [hnone]

theorem Value.length_le {after v rest : Text} (h : Value after v rest) : rest.length ≤ after.length := by
  cases h with
  | line => simp only [List.length_append, List.length_cons]; omega
  | last => exact Nat.zero_le _
  | blank => exact Nat.zero_le _

theorem Says.nil_iff (hk : IsKey key) {vs : List Text} (h : Says key [] vs) : vs = [] := by
  generalize ht : ([] : Text) = t at h
  cases h with
  | nil => rfl
  | cons => simp [hk.ne_nil] at ht

/-- What the text says is what is captured, one after another. -/
theorem Says.findAll (hk : IsKey key) {t : Text} {vs : List Text} (h : Says key t vs) {n : Nat} {b : Text}
    (hb : atLineStart b = true) (hn : t.length < n) : (keyLine key).findAll n ⟨b, t⟩ = vs := by
  induction h generalizing n b with
  | nil h =>
    cases n with
    | zero => rfl
    | succ n =>
      rw [Capture.findAll]
      simp only [(search_none_iff_hasSetting hk hb).mpr h]
  | @cons x ws ws' after v rest vs hx hfirst hws hws' hv h ih =>
    obtain ⟨m, rfl⟩ : ∃ m, n = m + 1 := ⟨n - 1, by omega⟩
    have hstart : atLineStart (x.reverse ++ b) = true := (atLineStart_append hb x).trans hx
    have hskip : (keyLine key).search b (x ++ (ws ++ (key ++ (ws' ++ '=' :: after)))) =
        (keyLine key).search (x.reverse ++ b) (ws ++ (key ++ (ws' ++ '=' :: after))) := by
      apply Capture.search_append
      intro x₁ x₂ hx₁ hx₂
      by_contra hrun
      obtain ⟨hline, hsetting⟩ := (keyLine_run_ne_nil_iff hk).mp hrun
      exact hfirst x₁ x₂ hx₁ hx₂ ((atLineStart_append hb x₁).symm.trans hline) hsetting
    obtain ⟨e, tl, he, hrun⟩ := keyLine_run_value hk hstart hws hws' hv
    have hfound : (keyLine key).search (x.reverse ++ b) (ws ++ (key ++ (ws' ++ '=' :: after))) = some (v, e) := by
      obtain ⟨c, cs, hc⟩ := List.exists_cons_of_ne_nil
        (show ws ++ (key ++ (ws' ++ '=' :: after)) ≠ [] by simp)
      rw [hc] at hrun ⊢
      rw [Capture.search, hrun]
      rfl
    rw [Capture.findAll]
    simp only [hskip, hfound]
    congr 1
    have hlen := hv.length_le
    simp only [List.length_append, List.length_cons] at hn
    rcases he with he | ⟨he, hrest⟩
    · obtain ⟨eb, ea⟩ := e
      simp only at he
      subst he
      have hnewline : (keyLine key).findAll m ⟨eb, '\n' :: rest⟩ = (keyLine key).findAll m ⟨'\n' :: eb, rest⟩ := by
        cases m with
        | zero => rfl
        | succ m => rw [Capture.findAll, Capture.findAll, search_newline hk]
      rw [hnewline]
      exact ih rfl (by omega)
    · subst hrest
      rw [findAll_end hk m he, h.nil_iff hk]

theorem exists_last_newline {t : Text} (h : '\n' ∈ t) : ∃ g g', t = g ++ '\n' :: g' ∧ '\n' ∉ g' := by
  obtain ⟨a, b, hab, ha⟩ := List.eq_append_cons_of_mem (List.mem_reverse.mpr h)
  refine ⟨b.reverse, a.reverse, ?_, by simpa using ha⟩
  have := congrArg List.reverse hab
  simpa using this

/-- A line that begins with no blank is a value and the blanks behind it. -/
theorem exists_line_value {c : Char} (hc : isSpace c = false) (r : Text) :
    ∃ v s y, c :: r = v ++ (s ++ y) ∧ IsValue v ∧ Blanks s ∧ (y = [] ∨ ∃ y', y = '\n' :: y') := by
  have hne : (c != '\n') = true := bne_iff_ne.mpr (not_blank_newline hc)
  have hline : (c :: r).takeWhile (· != '\n') = c :: r.takeWhile (· != '\n') := by
    rw [List.takeWhile_cons, if_pos hne]
  obtain ⟨v, s, hvs, hlast, hs⟩ : ∃ v s, c :: r.takeWhile (· != '\n') = v ++ s ∧
      (∃ ds z, v = ds ++ [z] ∧ isSpace z = false) ∧ Blanks s := by
    have hv : (c :: r.takeWhile (· != '\n')).rdropWhile isSpace ≠ [] := fun hnil => by
      have := List.rdropWhile_eq_nil_iff.mp hnil c List.mem_cons_self
      rw [hc] at this
      cases this
    refine ⟨_, (c :: r.takeWhile (· != '\n')).rtakeWhile isSpace, List.rdropWhile_append_rtakeWhile.symm,
      ⟨_, _, (List.dropLast_append_getLast hv).symm, ?_⟩, fun d => List.mem_rtakeWhile_imp⟩
    simpa using List.rdropWhile_last_not isSpace _ hv
  refine ⟨v, s, (c :: r).dropWhile (· != '\n'), ?_, ⟨fun hn => ?_, ?_, hlast⟩, hs, ?_⟩
  · rw [← List.append_assoc, ← hvs, ← hline, List.takeWhile_append_dropWhile]
  · have hmem : '\n' ∈ (c :: r).takeWhile (· != '\n') := by
      rw [hline, hvs]
      exact List.mem_append_left s hn
    simpa using List.mem_takeWhile_imp hmem
  · obtain ⟨ds, z, rfl, hz⟩ := hlast
    cases ds with
    | nil => exact ⟨z, [], rfl, hz⟩
    | cons d ds =>
      obtain rfl : c = d := (List.cons.inj hvs).1
      exact ⟨c, ds ++ [z], rfl, hc⟩
  · cases hd : (c :: r).dropWhile (· != '\n') with
    | nil => exact .inl rfl
    | cons d y =>
      have := List.head?_dropWhile_not (· != '\n') (c :: r)
      rw [hd] at this
      exact .inr ⟨y, by simp_all⟩

theorem exists_value {after : Text} (h : ∃ c ∈ after, c ≠ '\n') : ∃ v rest, Value after v rest := by
  have hblank : ∀ t : Text, Blanks (t.takeWhile isSpace) := fun t c => List.mem_takeWhile_imp
  have hhead : ∀ {t : Text} {c : Char} {cs : Text}, t.dropWhile isSpace = c :: cs → isSpace c = false := by
    intro t c cs ht
    have := List.head?_dropWhile_not isSpace t
    simpa [ht] using this
  have hsplit : ∀ t : Text, t = t.takeWhile isSpace ++ t.dropWhile isSpace := fun t =>
    List.takeWhile_append_dropWhile.symm
  cases hr : after.dropWhile isSpace with
  | nil =>
    -- all is blank: the last character that is no line break
    have hall : Blanks after := List.dropWhile_eq_nil_iff.mp hr
    have hne : after.rdropWhile (· == '\n') ≠ [] := fun hnil => by
      obtain ⟨c, hc, hcn⟩ := h
      exact hcn (by simpa using List.rdropWhile_eq_nil_iff.mp hnil c hc)
    have hlast : (after.rdropWhile (· == '\n')).getLast hne ≠ '\n' := by
      simpa using List.rdropWhile_last_not (· == '\n') after hne
    have hafter : after = (after.rdropWhile (· == '\n')).dropLast ++
        (after.rdropWhile (· == '\n')).getLast hne :: after.rtakeWhile (· == '\n') := by
      rw [← List.singleton_append, ← List.append_assoc, List.dropLast_append_getLast,
        List.rdropWhile_append_rtakeWhile]
    rw [hafter]
    refine ⟨_, _, .blank (fun c hc => hall c ?_) (hall _ ?_) hlast fun d hd => ?_⟩
    · exact (List.rdropWhile_prefix _ _).subset (List.mem_of_mem_dropLast hc)
    · exact (List.rdropWhile_prefix _ _).subset (List.getLast_mem hne)
    · simpa using List.mem_rtakeWhile_imp hd
  | cons c r =>
    obtain ⟨v, s, y, hvsy, hv, hs, hy⟩ := exists_line_value (hhead hr) r
    have hafter : after = after.takeWhile isSpace ++ (v ++ (s ++ y)) := by
      rw [← hvsy, ← hr]
      exact hsplit after
    rw [hafter]
    cases hrest : (s ++ y).dropWhile isSpace with
    | nil => exact ⟨v, [], .last (hblank after) hv (List.dropWhile_eq_nil_iff.mp hrest)⟩
    | cons d rest =>
      -- more text follows, on a later line
      have hnewline : '\n' ∈ (s ++ y).takeWhile isSpace := by
        rw [List.takeWhile_append_of_pos hs]
        rcases hy with rfl | ⟨y', rfl⟩
        · rw [List.append_nil, List.dropWhile_eq_nil_iff.mpr hs] at hrest
          cases hrest
        · rw [List.takeWhile_cons, if_pos (by decide)]
          simp
      obtain ⟨g, g', hg, hn⟩ := exists_last_newline hnewline
      have htail : s ++ y = g ++ '\n' :: (g' ++ d :: rest) := by
        rw [hsplit (s ++ y), hrest, hg]
        simp
      have hblanks : Blanks (g ++ '\n' :: g') := hg ▸ hblank (s ++ y)
      rw [htail]
      exact ⟨v, g' ++ d :: rest, .line (hblank after) hv (fun e he => hblanks e (by simp [he]))
        (fun e he => hblanks e (by simp [he])) hn ⟨d, rest, rfl, hhead hrest⟩⟩

theorem exists_says (hk : IsKey key) (t : Text) : ∃ vs, Says key t vs := by
  induction hn : t.length using Nat.strongRecOn generalizing t with
  | ind n ih =>
    by_cases h : HasSetting key t
    · -- the setting with the least before it
      have hplace : ∃ k x u, t = x ++ u ∧ x.length = k ∧ atLineStart x.reverse = true ∧ IsSetting key u := by
        obtain ⟨x, u, ht, hx, hu⟩ := h
        exact ⟨_, x, u, ht, rfl, hx, hu⟩
      classical
      obtain ⟨x, u, rfl, hlen, hx, ws, ws', after, rfl, hws, hws', hafter⟩ := Nat.find_spec hplace
      obtain ⟨v, rest, hv⟩ := exists_value hafter
      have hrest := hv.length_le
      have hkey := List.length_pos_iff.mpr hk.ne_nil
      simp only [List.length_append, List.length_cons] at hn
      obtain ⟨vs, hvs⟩ := ih rest.length (by omega) rest rfl
      refine ⟨v :: vs, ?_⟩
      simp only [List.append_assoc]
      refine .cons hx (fun x₁ x₂ hx₁ hx₂ hline hsetting => ?_) hws hws' hv hvs
      have hshort : x₁.length < x.length := by
        rw [hx₁, List.length_append]
        have := List.length_pos_iff.mpr hx₂
        omega
      refine Nat.find_min hplace (hlen ▸ hshort) ⟨x₁, _, ?_, rfl, hline, hsetting⟩
      rw [hx₁]
      simp
    · exact ⟨[], .nil h⟩

theorem says_iff_captures (hk : IsKey key) {t : Text} {vs : List Text} :
    Says key t vs ↔ (keyLine key).captures t = vs := by
  have hcaptures : ∀ {vs}, Says key t vs → (keyLine key).captures t = vs := fun h =>
    h.findAll hk rfl (Nat.lt_succ_self _)
  refine ⟨hcaptures, ?_⟩
  rintro rfl
  obtain ⟨vs, h⟩ := exists_says hk t
  rw [hcaptures h]
  exact h

theorem first_of_says_iff (hk : IsKey key) {t v : Text} :
    (keyLine key).first t = some v ↔ ∃ vs, Says key t (v :: vs) := by
  simp only [says_iff_captures hk, Capture.captures, Capture.findAll, Capture.first, Cursor.start]
  cases (keyLine key).search [] t with
  | none => simp
  | some ve => simp

end Pattern
