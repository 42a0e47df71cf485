import Mathlib

/-! Dictionaries that keep the order of insertion, as lists of pairs. -/

namespace Dict

variable {κ α β : Type} [DecidableEq κ]

/-- `d[key] = v`: a key that is there keeps its place. -/
def put : List (κ × α) → κ → α → List (κ × α)
  | [], key, v => [(key, v)]
  | (k, u) :: d, key, v => if k = key then (key, v) :: d else (k, u) :: put d key v

/-- `d.pop(key, None)`. -/
def pop (d : List (κ × α)) (key : κ) : List (κ × α) := d.filter fun e => !(e.1 = key)

section
variable [BEq κ] [LawfulBEq κ]

theorem lookup_put (d : List (κ × α)) (key k : κ) (v : α) :
    (put d key v).lookup k = if k = key then some v else d.lookup k := by
  induction d with
  | nil =>
    rw [put, List.lookup_cons]
    by_cases hk : k = key
    · simp [hk]
    · simp [hk, beq_eq_false_iff_ne.mpr hk]
  | cons e d ih =>
    obtain ⟨x, u⟩ := e
    rw [put]
    by_cases hx : x = key
    · subst hx
      rw [if_pos rfl, List.lookup_cons, List.lookup_cons]
      by_cases hk : k = x
      · simp [hk]
      · simp [hk, beq_eq_false_iff_ne.mpr hk]
    · rw [if_neg hx, List.lookup_cons, List.lookup_cons, ih]
      by_cases hk : k = x
      · subst hk
        simp [hx]
      · rw [beq_eq_false_iff_ne.mpr hk]

@[simp] theorem lookup_put_self (d : List (κ × α)) (key : κ) (v : α) :
    (put d key v).lookup key = some v := by
  rw [lookup_put, if_pos rfl]

theorem lookup_put_ne (d : List (κ × α)) {key k : κ} (v : α) (h : k ≠ key) :
    (put d key v).lookup k = d.lookup k := by
  rw [lookup_put, if_neg h]

theorem lookup_pop (d : List (κ × α)) (key k : κ) :
    (pop d key).lookup k = if k = key then none else d.lookup k := by
  induction d with
  | nil => simp [pop]
  | cons e d ih =>
    obtain ⟨x, u⟩ := e
    rw [pop] at ih ⊢
    by_cases hx : x = key
    · subst hx
      rw [List.filter_cons_of_neg (by simp), ih, List.lookup_cons]
      by_cases hk : k = x
      · simp [hk]
      · simp [hk, beq_eq_false_iff_ne.mpr hk]
    · rw [List.filter_cons_of_pos (by simpa using hx), List.lookup_cons, List.lookup_cons, ih]
      by_cases hk : k = x
      · subst hk
        simp [hx]
      · rw [beq_eq_false_iff_ne.mpr hk]

@[simp] theorem lookup_pop_self (d : List (κ × α)) (key : κ) : (pop d key).lookup key = none := by
  rw [lookup_pop, if_pos rfl]

theorem lookup_pop_ne (d : List (κ × α)) {key k : κ} (h : k ≠ key) :
    (pop d key).lookup k = d.lookup k := by
  rw [lookup_pop, if_neg h]

end

/-! ## Entries and keys -/

theorem mem_put {d : List (κ × α)} {key : κ} {v : α} {e : κ × α} (h : e ∈ put d key v) :
    e = (key, v) ∨ e ∈ d := by
  induction d with
  | nil => exact .inl (List.mem_singleton.mp h)
  | cons e' d ih =>
    rw [put] at h
    split at h
    · exact (List.mem_cons.mp h).imp_right fun h => List.mem_cons_of_mem _ h
    · rcases List.mem_cons.mp h with rfl | h
      · exact .inr List.mem_cons_self
      · exact (ih h).imp_right fun h => List.mem_cons_of_mem _ h

theorem mem_keys_put {d : List (κ × α)} {key k : κ} {v : α} :
    k ∈ (put d key v).map Prod.fst ↔ k = key ∨ k ∈ d.map Prod.fst := by
  induction d with
  | nil => simp [put]
  | cons e d ih =>
    obtain ⟨x, u⟩ := e
    rw [put]
    split
    · next hx => simp [hx]
    · rw [List.map_cons, List.mem_cons, ih, List.map_cons, List.mem_cons]
      exact or_left_comm

theorem nodup_put {d : List (κ × α)} (h : (d.map Prod.fst).Nodup) (key : κ) (v : α) :
    ((put d key v).map Prod.fst).Nodup := by
  induction d with
  | nil => simp [put]
  | cons e d ih =>
    obtain ⟨x, u⟩ := e
    rw [List.map_cons, List.nodup_cons] at h
    rw [put]
    split
    · next hx =>
      subst hx
      exact List.nodup_cons.mpr h
    · next hx =>
      refine List.nodup_cons.mpr ⟨fun hmem => ?_, ih h.2⟩
      exact (mem_keys_put.mp hmem).elim hx h.1

theorem nodup_pop {d : List (κ × α)} (h : (d.map Prod.fst).Nodup) (key : κ) :
    ((pop d key).map Prod.fst).Nodup :=
  h.sublist (List.filter_sublist.map _)

theorem find?_key_iff {ρ : Type} {l : List ρ} {f : ρ → κ} (h : (l.map f).Nodup) {r : ρ} {k : κ} :
    l.find? (f · = k) = some r ↔ r ∈ l ∧ f r = k := by
  constructor
  · intro hfind
    exact ⟨List.mem_of_find?_eq_some hfind, of_decide_eq_true (List.find?_some hfind :)⟩
  · rintro ⟨hr, rfl⟩
    cases hfind : l.find? (f · = f r) with
    | none => exact absurd (decide_eq_true rfl) (List.find?_eq_none.mp hfind r hr)
    | some r' =>
      have hkey : f r' = f r := of_decide_eq_true (List.find?_some hfind :)
      rw [List.inj_on_of_nodup_map h (List.mem_of_find?_eq_some hfind) hr hkey]

/-! ## Records under one of their fields -/

section
variable {ρ : Type} {l : List ρ} {key : ρ → κ} {f : ρ → α} {r : ρ}

theorem put_map_new (h : key r ∉ l.map key) :
    put (l.map fun x => (key x, f x)) (key r) (f r) = (l ++ [r]).map fun x => (key x, f x) := by
  induction l with
  | nil => rfl
  | cons x l ih =>
    rw [List.map_cons, List.mem_cons, not_or] at h
    rw [List.map_cons, put, if_neg fun hx => h.1 hx.symm, ih h.2, List.cons_append, List.map_cons]

/-- Under keys without duplicates a record is put in the place of the one that has its key. -/
theorem put_map_old (hnodup : (l.map key).Nodup) (h : key r ∈ l.map key) :
    put (l.map fun x => (key x, f x)) (key r) (f r) =
      (l.map fun x => if key x = key r then r else x).map fun x => (key x, f x) := by
  induction l with
  | nil => exact absurd h List.not_mem_nil
  | cons x l ih =>
    rw [List.map_cons, List.nodup_cons] at hnodup
    rw [List.map_cons, put, List.map_cons, List.map_cons]
    by_cases hx : key x = key r
    · have hrest : (l.map fun x => if key x = key r then r else x) = l := by
        conv_rhs => rw [← List.map_id l]
        apply List.map_congr_left
        intro y hy
        have hmem : key y ∈ l.map key := List.mem_map_of_mem hy
        have hne : key y ≠ key r := fun heq => hnodup.1 (hx.trans heq.symm ▸ hmem)
        exact if_neg hne
      rw [if_pos hx, if_pos hx, hrest]
    · have hlater : key r ∈ l.map key := (List.mem_cons.mp h).resolve_left fun heq => hx heq.symm
      rw [if_neg hx, if_neg hx, ih hnodup.2 hlater]

theorem lookup_map_key [BEq κ] [LawfulBEq κ] (k : κ) :
    (l.map fun x => (key x, f x)).lookup k = (l.find? (key · = k)).map f := by
  induction l with
  | nil => rfl
  | cons x l ih =>
    rw [List.map_cons, List.lookup_cons, List.find?_cons]
    by_cases hk : k = key x
    · simp [hk]
    · have hkey : key x ≠ k := fun h => hk h.symm
      rw [beq_eq_false_iff_ne.mpr hk, decide_eq_false hkey]
      exact ih
end

/-! ## Many entries -/

/-- Entries written one after the other. -/
def putAll (d : List (κ × α)) (es : List (κ × α)) : List (κ × α) :=
  es.foldl (fun d e => put d e.1 e.2) d

theorem mem_keys_putAll {d es : List (κ × α)} {k : κ} :
    k ∈ (putAll d es).map Prod.fst ↔ k ∈ es.map Prod.fst ∨ k ∈ d.map Prod.fst := by
  induction es generalizing d with
  | nil => simp [putAll]
  | cons e es ih =>
    refine (ih (d := put d e.1 e.2)).trans ?_
    rw [mem_keys_put, List.map_cons, List.mem_cons, or_left_comm, or_assoc]

variable [BEq κ] [LawfulBEq κ]

theorem lookup_putAll_of_notMem {d es : List (κ × α)} {key : κ} (h : key ∉ es.map Prod.fst) :
    (putAll d es).lookup key = d.lookup key := by
  induction es generalizing d with
  | nil => rfl
  | cons e es ih =>
    rw [List.map_cons, List.mem_cons, not_or] at h
    exact (ih h.2).trans (lookup_put_ne _ _ h.1)

theorem lookup_putAll_of_mem {d es : List (κ × α)} {key : κ} {v : α} (h : (key, v) ∈ es)
    (hv : ∀ u, (key, u) ∈ es → u = v) : (putAll d es).lookup key = some v := by
  induction es generalizing d with
  | nil => exact absurd h List.not_mem_nil
  | cons e es ih =>
    by_cases hlater : key ∈ es.map Prod.fst
    · obtain ⟨⟨k, u⟩, hu, rfl⟩ := List.mem_map.mp hlater
      obtain rfl := hv u (.tail _ hu)
      exact ih hu fun u' hu' => hv u' (.tail _ hu')
    · rcases List.mem_cons.mp h with rfl | h
      · exact (lookup_putAll_of_notMem hlater).trans (lookup_put_self _ _ _)
      · exact absurd (List.mem_map_of_mem h) hlater

omit [DecidableEq κ] in
theorem mem_of_lookup {d : List (κ × α)} {key : κ} {v : α} (h : d.lookup key = some v) : (key, v) ∈ d := by
  obtain ⟨l₁, l₂, rfl, -⟩ := List.lookup_eq_some_iff.mp h
  exact List.mem_append_right _ List.mem_cons_self

theorem lookup_map (d : List (κ × α)) (f : κ → α → β) (key : κ) :
    (d.map fun e => (e.1, f e.1 e.2)).lookup key = (d.lookup key).map (f key) := by
  induction d with
  | nil => rfl
  | cons e d ih =>
    rw [List.map_cons, List.lookup_cons, List.lookup_cons]
    by_cases hk : key = e.1
    · simp [hk]
    · simpa [beq_eq_false_iff_ne.mpr hk] using ih

end Dict
