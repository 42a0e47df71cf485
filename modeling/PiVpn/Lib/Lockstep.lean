import PiVpn.Lib.Program

/-! Two programs run side by side, each against a handler and a state of its own: a
relation of the states that is kept at every operation, and the rules by which it is. -/

namespace Effect.Prog

variable {S : Signature} {ε ε' α β α' β' σ τ : Type}

/-- Related results, or the same error. -/
def SameEnd (V : α → β → Prop) : Except ε α → Except ε β → Prop
  | .ok a, .ok b => V a b
  | .error e, .error e' => e = e'
  | _, _ => False

theorem SameEnd.bind {V : α → β → Prop} {W : α' → β' → Prop} {x : Except ε α} {y : Except ε β}
    {f : α → Except ε α'} {g : β → Except ε β'} (hxy : SameEnd V x y)
    (hf : ∀ a b, V a b → SameEnd W (f a) (g b)) : SameEnd W (x >>= f) (y >>= g) := by
  cases x with
  | ok a => cases y with
    | ok b => exact hf a b hxy
    | error e => exact hxy.elim
  | error e => cases y with
    | ok b => exact hxy.elim
    | error e' => exact hxy

theorem SameEnd.refl (x : Except ε α) : SameEnd (· = ·) x x := by
  cases x <;> rfl

theorem SameEnd.mono {V W : α → β → Prop} {x : Except ε α} {y : Except ε β} (hxy : SameEnd V x y)
    (hVW : ∀ a b, x = .ok a → y = .ok b → V a b → W a b) : SameEnd W x y := by
  cases x with
  | ok a => cases y with
    | ok b => exact hVW a b rfl rfl hxy
    | error e => exact hxy.elim
  | error e => cases y with
    | ok b => exact hxy.elim
    | error e' => exact hxy

/-- Both take their operations in step, with related states before each, and end together. -/
def Abreast (h : Handler S σ) (h' : Handler S τ) (R : σ → τ → Prop) (V : α → β → Prop) :
    Prog S ε α → Prog S ε β → σ → τ → Prop
  | .pure a, .pure b, s, t => R s t ∧ V a b
  | .raise e, .raise e', s, t => R s t ∧ e = e'
  | .op o k, .op o' k', s, t =>
    R s t ∧ Abreast h h' R V (k (h o s).1) (k' (h' o' t).1) (h o s).2 (h' o' t).2
  | _, _, _, _ => False

/-- From related states the two run abreast. -/
def Coupled (h : Handler S σ) (h' : Handler S τ) (R : σ → τ → Prop) (V : α → β → Prop)
    (p : Prog S ε α) (q : Prog S ε β) : Prop := ∀ s t, R s t → Abreast h h' R V p q s t

section rules

variable {h : Handler S σ} {h' : Handler S τ} {R : σ → τ → Prop} {V : α → β → Prop}
  {W : α' → β' → Prop}

theorem Coupled.pure {a : α} {b : β} (hab : V a b) :
    Coupled h h' R V (.pure a : Prog S ε α) (.pure b) := fun _ _ hst => ⟨hst, hab⟩

theorem Coupled.raise (e : ε) : Coupled h h' R V (.raise e) (.raise e) := fun _ _ hst => ⟨hst, rfl⟩

/-- An operation of each, on whose answers they go on coupled. -/
theorem Coupled.perform {o o' : S.Op} {V : S.Answer o → S.Answer o' → Prop}
    (hstep : ∀ s t, R s t → V (h o s).1 (h' o' t).1 ∧ R (h o s).2 (h' o' t).2) :
    Coupled h h' R V (Prog.perform o : Prog S ε _) (Prog.perform o') := fun s t hst =>
  ⟨hst, (hstep s t hst).2, (hstep s t hst).1⟩

theorem Abreast.bind {p : Prog S ε α} {q : Prog S ε β} {f : α → Prog S ε α'} {g : β → Prog S ε β'}
    {s : σ} {t : τ} (hp : Abreast h h' R V p q s t)
    (hf : ∀ a b, V a b → Coupled h h' R W (f a) (g b)) : Abreast h h' R W (p >>= f) (q >>= g) s t := by
  induction p generalizing q s t with
  | pure a => cases q with
    | pure b => exact hf a b hp.2 s t hp.1
    | raise e => exact hp.elim
    | op o k => exact hp.elim
  | raise e => cases q with
    | pure b => exact hp.elim
    | raise e' => exact hp
    | op o k => exact hp.elim
  | op o k ih => cases q with
    | pure b => exact hp.elim
    | raise e => exact hp.elim
    | op o' k' => exact ⟨hp.1, ih _ hp.2⟩

/-- The rule of sequence. -/
theorem Coupled.bind {p : Prog S ε α} {q : Prog S ε β} {f : α → Prog S ε α'} {g : β → Prog S ε β'}
    (hp : Coupled h h' R V p q) (hf : ∀ a b, V a b → Coupled h h' R W (f a) (g b)) :
    Coupled h h' R W (p >>= f) (q >>= g) := fun s t hst => (hp s t hst).bind hf

theorem Abreast.mono {V' : α → β → Prop} {p : Prog S ε α} {q : Prog S ε β} {s : σ} {t : τ}
    (hp : Abreast h h' R V p q s t) (hV : ∀ a b, V a b → V' a b) : Abreast h h' R V' p q s t := by
  induction p generalizing q s t with
  | pure a => cases q with
    | pure b => exact ⟨hp.1, hV a b hp.2⟩
    | raise e => exact hp.elim
    | op o k => exact hp.elim
  | raise e => cases q with
    | pure b => exact hp.elim
    | raise e' => exact hp
    | op o k => exact hp.elim
  | op o k ih => cases q with
    | pure b => exact hp.elim
    | raise e => exact hp.elim
    | op o' k' => exact ⟨hp.1, ih _ hp.2⟩

theorem Coupled.mono {V' : α → β → Prop} {p : Prog S ε α} {q : Prog S ε β}
    (hp : Coupled h h' R V p q) (hV : ∀ a b, V a b → V' a b) : Coupled h h' R V' p q :=
  fun s t hst => (hp s t hst).mono hV

/-- Errors that are caught are the same ones. -/
theorem Coupled.attempt {p : Prog S ε α} {q : Prog S ε β} (hp : Coupled h h' R V p q) :
    Coupled h h' R (SameEnd V) (p.attempt : Prog S ε' _) q.attempt := by
  intro s t hst
  have hrun := hp s t hst
  clear hp hst
  induction p generalizing q s t with
  | pure a => cases q with
    | pure b => exact hrun
    | raise e => exact hrun.elim
    | op o k => exact hrun.elim
  | raise e => cases q with
    | pure b => exact hrun.elim
    | raise e' => exact hrun
    | op o k => exact hrun.elim
  | op o k ih => cases q with
    | pure b => exact hrun.elim
    | raise e => exact hrun.elim
    | op o' k' => exact ⟨hrun.1, ih _ _ _ hrun.2⟩

theorem Coupled.finally_ {p : Prog S ε α} {q : Prog S ε β} {last last' : Prog S ε Unit}
    (hp : Coupled h h' R V p q) (hlast : Coupled h h' R (fun _ _ => True) last last') :
    Coupled h h' R V (p.finally_ last) (q.finally_ last') := by
  apply Coupled.bind (V := SameEnd V) hp.attempt
  intro r r' hr
  apply hlast.bind
  intro _ _ _
  cases r with
  | ok a => cases r' with
    | ok b => exact Coupled.pure hr
    | error e => exact hr.elim
  | error e => cases r' with
    | ok b => exact hr.elim
    | error e' =>
      obtain rfl : e = e' := hr
      exact Coupled.raise e

theorem Abreast.here {p : Prog S ε α} {q : Prog S ε β} {s : σ} {t : τ}
    (hp : Abreast h h' R V p q s t) : R s t := by
  cases p <;> cases q <;> first | exact hp.1 | exact hp.elim

/-- Cut both off after as many operations: the states are related there. -/
theorem Abreast.cutOff {p : Prog S ε α} {q : Prog S ε β} {s : σ} {t : τ}
    (hp : Abreast h h' R V p q s t) (n : Nat) : R (p.cutOff h n s) (q.cutOff h' n t) := by
  induction p generalizing q s t n with
  | pure a => cases q with
    | pure b => cases n <;> exact hp.1
    | raise e => exact hp.elim
    | op o k => exact hp.elim
  | raise e => cases q with
    | pure b => exact hp.elim
    | raise e' => cases n <;> exact hp.1
    | op o k => exact hp.elim
  | op o k ih => cases q with
    | pure b => exact hp.elim
    | raise e => exact hp.elim
    | op o' k' =>
      cases n with
      | zero => exact hp.1
      | succ n => exact ih _ hp.2 n

/-- Run to their ends they end alike. -/
theorem Abreast.exec {p : Prog S ε α} {q : Prog S ε β} {s : σ} {t : τ}
    (hp : Abreast h h' R V p q s t) :
    SameEnd V (p.exec h s).1 (q.exec h' t).1 ∧ R (p.exec h s).2 (q.exec h' t).2 := by
  induction p generalizing q s t with
  | pure a => cases q with
    | pure b => exact hp.symm
    | raise e => exact hp.elim
    | op o k => exact hp.elim
  | raise e => cases q with
    | pure b => exact hp.elim
    | raise e' => exact hp.symm
    | op o k => exact hp.elim
  | op o k ih => cases q with
    | pure b => exact hp.elim
    | raise e => exact hp.elim
    | op o' k' =>
      have hend := ih _ hp.2
      exact hend

end rules

end Effect.Prog
