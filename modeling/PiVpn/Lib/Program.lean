import Mathlib

/-! Programs as trees of operations. A node asks the world for an answer and goes
on with it; a program may raise. One tree is run to its end against a handler,
stepped so that it can be cut off anywhere, or paused at the operations that wait. -/

namespace Effect

/-- What a program may ask, and the type of each answer. -/
structure Signature where
  Op : Type
  Answer : Op → Type

inductive Prog (S : Signature) (ε α : Type) where
  | pure (a : α)
  | raise (e : ε)
  | op (o : S.Op) (k : S.Answer o → Prog S ε α)

namespace Prog

variable {S : Signature} {ε ε' α β γ σ : Type}

def bind : Prog S ε α → (α → Prog S ε β) → Prog S ε β
  | .pure a, f => f a
  | .raise e, _ => .raise e
  | .op o k, f => .op o fun x => (k x).bind f

instance : Monad (Prog S ε) where
  pure := .pure
  bind := Prog.bind

def perform (o : S.Op) : Prog S ε (S.Answer o) := .op o .pure

/-- Run the body and hand back its outcome, raised or not. -/
def attempt : Prog S ε α → Prog S ε' (Except ε α)
  | .pure a => .pure (.ok a)
  | .raise e => .pure (.error e)
  | .op o k => .op o fun x => (k x).attempt

/-- `try: body finally: last`. -/
def finally_ (body : Prog S ε α) (last : Prog S ε Unit) : Prog S ε α :=
  body.attempt.bind fun r => last.bind fun _ =>
    match r with
    | .ok a => .pure a
    | .error e => .raise e

@[simp] theorem pure_bind (a : α) (f : α → Prog S ε β) : (pure a : Prog S ε α) >>= f = f a := rfl
@[simp] theorem ret_bind (a : α) (f : α → Prog S ε β) : Prog.pure a >>= f = f a := rfl
@[simp] theorem raise_bind (e : ε) (f : α → Prog S ε β) : Prog.raise e >>= f = Prog.raise e := rfl
@[simp] theorem op_bind (o : S.Op) (k : S.Answer o → Prog S ε α) (f : α → Prog S ε β) :
    Prog.op o k >>= f = Prog.op o fun x => k x >>= f := rfl
@[simp] theorem perform_bind (o : S.Op) (f : S.Answer o → Prog S ε β) :
    perform o >>= f = Prog.op o f := rfl

theorem bind_assoc (p : Prog S ε α) (f : α → Prog S ε β) (g : β → Prog S ε γ) :
    p >>= f >>= g = p >>= fun a => f a >>= g := by
  induction p with
  | pure a => rfl
  | raise e => rfl
  | op o k ih => simp only [op_bind, ih]

/-! ## Running to the end -/

abbrev Handler (S : Signature) (σ : Type) := (o : S.Op) → σ → S.Answer o × σ

def exec (h : Handler S σ) : Prog S ε α → σ → Except ε α × σ
  | .pure a, s => (.ok a, s)
  | .raise e, s => (.error e, s)
  | .op o k, s => (k (h o s).1).exec h (h o s).2

variable {h : Handler S σ}

@[simp] theorem exec_pure (a : α) (s : σ) : exec h (pure a : Prog S ε α) s = (.ok a, s) := rfl
@[simp] theorem exec_ret (a : α) (s : σ) : exec h (.pure a : Prog S ε α) s = (.ok a, s) := rfl
@[simp] theorem exec_raise (e : ε) (s : σ) : exec h (.raise e : Prog S ε α) s = (.error e, s) := rfl
@[simp] theorem exec_op (o : S.Op) (k : S.Answer o → Prog S ε α) (s : σ) :
    exec h (.op o k) s = exec h (k (h o s).1) (h o s).2 := rfl
@[simp] theorem exec_perform (o : S.Op) (s : σ) :
    exec h (perform o : Prog S ε _) s = (.ok (h o s).1, (h o s).2) := rfl

theorem exec_bind (p : Prog S ε α) (f : α → Prog S ε β) (s : σ) :
    exec h (p >>= f) s =
      match exec h p s with
      | (.ok a, s') => exec h (f a) s'
      | (.error e, s') => (.error e, s') := by
  induction p generalizing s with
  | pure a => rfl
  | raise e => rfl
  | op o k ih => simp only [op_bind, exec_op, ih]

theorem exec_bind_of_ok {p : Prog S ε α} {f : α → Prog S ε β} {s s' : σ} {a : α}
    (hp : exec h p s = (.ok a, s')) : exec h (p >>= f) s = exec h (f a) s' := by
  rw [exec_bind, hp]

theorem exec_bind_of_error {p : Prog S ε α} {f : α → Prog S ε β} {s s' : σ} {e : ε}
    (hp : exec h p s = (.error e, s')) : exec h (p >>= f) s = (.error e, s') := by
  rw [exec_bind, hp]

theorem exec_bind_ok {p : Prog S ε α} {f : α → Prog S ε β} {s s' : σ} {b : β}
    (hp : exec h (p >>= f) s = (.ok b, s')) :
    ∃ a s₁, exec h p s = (.ok a, s₁) ∧ exec h (f a) s₁ = (.ok b, s') := by
  rw [exec_bind] at hp
  rcases hq : exec h p s with ⟨_ | a, s₁⟩
  · rw [hq] at hp
    simp at hp
  · rw [hq] at hp
    exact ⟨a, s₁, rfl, hp⟩

theorem exec_attempt (p : Prog S ε α) (s : σ) :
    exec h (p.attempt : Prog S ε' _) s = (.ok (exec h p s).1, (exec h p s).2) := by
  induction p generalizing s with
  | pure a => rfl
  | raise e => rfl
  | op o k ih => simp only [attempt, exec_op, ih]

theorem exec_finally (body : Prog S ε α) (last : Prog S ε Unit) (s : σ) :
    exec h (body.finally_ last) s =
      match exec h last (exec h body s).2 with
      | (.ok _, s') => ((exec h body s).1, s')
      | (.error e, s') => (.error e, s') := by
  change exec h (body.attempt >>= fun r => last >>= fun _ => _) s = _
  rw [exec_bind, exec_attempt]
  simp only
  rw [exec_bind]
  rcases exec h last (exec h body s).2 with ⟨_ | _, s'⟩
  · rfl
  · rcases (exec h body s).1 with e | a <;> rfl

/-! ## What holds wherever a run is cut off -/

/-- What an operation may answer and do. -/
abbrev World (S : Signature) (σ : Type) := (o : S.Op) → σ → S.Answer o → σ → Prop

/-- `I` holds at every point of every run, and `Q` of the outcome of each that ends. -/
def Upholds (W : World S σ) (I : σ → Prop) (Q : Except ε α → σ → Prop) : Prog S ε α → σ → Prop
  | .pure a, s => I s ∧ Q (.ok a) s
  | .raise e, s => I s ∧ Q (.error e) s
  | .op o k, s => I s ∧ ∀ x s', W o s x s' → Upholds W I Q (k x) s'

variable {W : World S σ} {I : σ → Prop} {Q' R' : Except ε α → σ → Prop}

theorem Upholds.here {p : Prog S ε α} {s : σ} (h : Upholds W I Q' p s) : I s := by
  cases p <;> exact h.1

theorem Upholds.mono {p : Prog S ε α} {s : σ} (h : Upholds W I Q' p s)
    (hq : ∀ r s, Q' r s → R' r s) : Upholds W I R' p s := by
  induction p generalizing s with
  | pure a => exact ⟨h.1, hq _ _ h.2⟩
  | raise e => exact ⟨h.1, hq _ _ h.2⟩
  | op o k ih => exact ⟨h.1, fun x s' hw => ih x (h.2 x s' hw)⟩

/-- The rule of sequence: what the first part leaves is where the second starts. -/
theorem Upholds.bind {Q : Except ε β → σ → Prop} {p : Prog S ε α} {f : α → Prog S ε β} {s : σ}
    (h : Upholds W I (fun r s' => match r with
      | .ok a => Upholds W I Q (f a) s'
      | .error e => Q (.error e) s') p s) : Upholds W I Q (p >>= f) s := by
  induction p generalizing s with
  | pure a => exact h.2
  | raise e => exact h
  | op o k ih => exact ⟨h.1, fun x s' hw => ih x (h.2 x s' hw)⟩

/-- A program whose questions are all of one kind. -/
def Only (N : S.Op → Prop) : Prog S ε α → Prop
  | .pure _ => True
  | .raise _ => True
  | .op o k => N o ∧ ∀ x, Only N (k x)

theorem Only.bind {N : S.Op → Prop} {p : Prog S ε α} {f : α → Prog S ε β} (hp : Only N p)
    (hf : ∀ a, Only N (f a)) : Only N (p >>= f) := by
  induction p with
  | pure a => exact hf a
  | raise e => trivial
  | op o k ih => exact ⟨hp.1, fun x => ih x (hp.2 x)⟩

theorem Only.mono {N N' : S.Op → Prop} {p : Prog S ε α} (hp : Only N p) (h : ∀ o, N o → N' o) :
    Only N' p := by
  induction p with
  | pure a => trivial
  | raise e => trivial
  | op o k ih => exact ⟨h o hp.1, fun x => ih x (hp.2 x)⟩

theorem only_of_forall {N : S.Op → Prop} (h : ∀ o, N o) (p : Prog S ε α) : Only N p := by
  induction p with
  | pure a => trivial
  | raise e => trivial
  | op o k ih => exact ⟨h o, ih⟩

/-- What such questions leave alone stays through the whole program. -/
theorem Only.upholds {N : S.Op → Prop} {p : Prog S ε α} {s : σ} (hp : Only N p)
    (hstep : ∀ o s x s', N o → I s → W o s x s' → I s') (hs : I s) :
    Upholds W I (fun _ s => I s) p s := by
  induction p generalizing s with
  | pure a => exact ⟨hs, hs⟩
  | raise e => exact ⟨hs, hs⟩
  | op o k ih => exact ⟨hs, fun x s' hw => ih x (hp.2 x) (hstep o s x s' hp.1 hs hw)⟩

/-- A weaker invariant. -/
theorem Upholds.weaken {J : σ → Prop} {p : Prog S ε α} {s : σ} (h : Upholds W J Q' p s)
    (hJ : ∀ s, J s → I s) : Upholds W I Q' p s := by
  induction p generalizing s with
  | pure a => exact ⟨hJ _ h.1, h.2⟩
  | raise e => exact ⟨hJ _ h.1, h.2⟩
  | op o k ih => exact ⟨hJ _ h.1, fun x s' hw => ih x (h.2 x s' hw)⟩

/-- The state after the first `n` operations. -/
def cutOff (h : Handler S σ) : Nat → Prog S ε α → σ → σ
  | n + 1, .op o k, s => cutOff h n (k (h o s).1) (h o s).2
  | _, _, s => s

/-- What a handler does, as a world with one outcome. -/
def Handler.world (h : Handler S σ) : World S σ := fun o s x s' => h o s = (x, s')

theorem Upholds.cutOff {h : Handler S σ} {p : Prog S ε α} {s : σ} (hp : Upholds h.world I Q' p s)
    (n : Nat) : I (p.cutOff h n s) := by
  induction p generalizing s n with
  | pure a => cases n <;> exact hp.1
  | raise e => cases n <;> exact hp.1
  | op o k ih =>
    cases n with
    | zero => exact hp.1
    | succ n => exact ih _ (hp.2 _ _ rfl) n

theorem Upholds.exec {h : Handler S σ} {p : Prog S ε α} {s : σ} (hp : Upholds h.world I Q' p s) :
    Q' (p.exec h s).1 (p.exec h s).2 := by
  induction p generalizing s with
  | pure a => exact hp.2
  | raise e => exact hp.2
  | op o k ih => exact ih _ (hp.2 _ _ rfl)

/-! ## The operations of a run -/

/-- The operations of a run, in order. -/
def trace (h : Handler S σ) : Prog S ε α → σ → List S.Op
  | .pure _, _ => []
  | .raise _, _ => []
  | .op o k, s => o :: (k (h o s).1).trace h (h o s).2

theorem trace_bind {p : Prog S ε α} {f : α → Prog S ε β} {s s' : σ} {a : α} (hp : p.exec h s = (.ok a, s')) :
    (p >>= f).trace h s = p.trace h s ++ (f a).trace h s' := by
  induction p generalizing s with
  | pure b =>
    obtain ⟨hb, rfl⟩ := Prod.mk.inj hp
    rw [← Except.ok.inj hb]
    rfl
  | raise e => cases (Prod.mk.inj hp).1
  | op o k ih => exact congrArg (o :: ·) (ih _ hp)

theorem forall_trace_bind {N : S.Op → Prop} {p : Prog S ε α} {f : α → Prog S ε β} {s s' : σ} {a : α}
    (hp : p.exec h s = (.ok a, s')) :
    (∀ o ∈ (p >>= f).trace h s, N o) ↔ (∀ o ∈ p.trace h s, N o) ∧ ∀ o ∈ (f a).trace h s', N o := by
  rw [trace_bind hp, List.forall_mem_append]

theorem Only.trace {N : S.Op → Prop} {p : Prog S ε α} (hp : Only N p) (s : σ) : ∀ o ∈ p.trace h s, N o := by
  induction p generalizing s with
  | pure a => exact fun _ ho => absurd ho List.not_mem_nil
  | raise e => exact fun _ ho => absurd ho List.not_mem_nil
  | op o k ih =>
    intro o' ho
    rcases List.mem_cons.mp ho with rfl | ho
    · exact hp.1
    · exact ih _ (hp.2 _) _ o' ho

/-! ## What is left of a run -/

/-- What is left after the first `n` operations, and the state there. -/
def after (h : Handler S σ) : Nat → Prog S ε α → σ → Prog S ε α × σ
  | n + 1, .op o k, s => after h n (k (h o s).1) (h o s).2
  | _, p, s => (p, s)

@[simp] theorem after_zero (p : Prog S ε α) (s : σ) : p.after h 0 s = (p, s) := by
  cases p <;> rfl

theorem after_snd (p : Prog S ε α) (n : Nat) (s : σ) : (p.after h n s).2 = p.cutOff h n s := by
  induction p generalizing n s with
  | pure a => cases n <;> rfl
  | raise e => cases n <;> rfl
  | op o k ih =>
    cases n with
    | zero => rfl
    | succ n => exact ih _ n _

theorem after_succ {p : Prog S ε α} {n : Nat} {s t : σ} {o : S.Op} {k : S.Answer o → Prog S ε α}
    (hp : p.after h n s = (.op o k, t)) : p.after h (n + 1) s = (k (h o t).1, (h o t).2) := by
  induction p generalizing n s with
  | pure a => cases n <;> cases (Prod.mk.inj hp).1
  | raise e => cases n <;> cases (Prod.mk.inj hp).1
  | op o' k' ih =>
    cases n with
    | zero =>
      obtain ⟨hop, rfl⟩ := Prod.mk.inj hp
      cases hop
      exact after_zero (h := h) _ _
    | succ n => exact ih _ hp

theorem exec_after (p : Prog S ε α) (n : Nat) (s : σ) :
    (p.after h n s).1.exec h (p.after h n s).2 = p.exec h s := by
  induction p generalizing n s with
  | pure a => cases n <;> rfl
  | raise e => cases n <;> rfl
  | op o k ih =>
    cases n with
    | zero => rfl
    | succ n => exact ih _ n _

/-! ## In a wider world -/

section
variable {T : Signature} {τ : Type} {f : S.Op → T.Op} {back : ∀ o, T.Answer (f o) → S.Answer o}

/-- The same program with its operations among others. -/
def lift (f : S.Op → T.Op) (back : ∀ o, T.Answer (f o) → S.Answer o) : Prog S ε α → Prog T ε α
  | .pure a => .pure a
  | .raise e => .raise e
  | .op o k => .op (f o) fun x => (k (back o x)).lift f back

/-- The wider handler does to its part of the state what the other does. -/
def Handler.Extends (h' : Handler T τ) (h : Handler S σ) (back : ∀ o, T.Answer (f o) → S.Answer o)
    (view : τ → σ) : Prop :=
  ∀ o t, back o (h' (f o) t).1 = (h o (view t)).1 ∧ view (h' (f o) t).2 = (h o (view t)).2

variable {h' : Handler T τ} {view : τ → σ}

theorem Handler.Extends.cutOff (hext : h'.Extends h back view) (p : Prog S ε α) (n : Nat) (t : τ) :
    view ((p.lift f back).cutOff h' n t) = p.cutOff h n (view t) := by
  induction p generalizing n t with
  | pure a => cases n <;> rfl
  | raise e => cases n <;> rfl
  | op o k ih =>
    cases n with
    | zero => rfl
    | succ n =>
      have hop := hext o t
      change view (((k (back o (h' (f o) t).1)).lift f back).cutOff h' n (h' (f o) t).2) = _
      rw [ih, hop.1, hop.2]
      rfl

theorem Handler.Extends.exec (hext : h'.Extends h back view) (p : Prog S ε α) (t : τ) :
    ((p.lift f back).exec h' t).1 = (p.exec h (view t)).1 ∧
      view ((p.lift f back).exec h' t).2 = (p.exec h (view t)).2 := by
  induction p generalizing t with
  | pure a => exact ⟨rfl, rfl⟩
  | raise e => exact ⟨rfl, rfl⟩
  | op o k ih =>
    have hop := hext o t
    have hrest := ih (back o (h' (f o) t).1) (h' (f o) t).2
    refine ⟨hrest.1.trans ?_, hrest.2.trans ?_⟩
    · rw [hop.1, hop.2, exec_op]
    · rw [hop.1, hop.2, exec_op]

/-- What holds along the program holds along it among other operations. -/
theorem Upholds.lift (hext : h'.Extends h back view) {I : σ → Prop} {Q : Except ε α → σ → Prop}
    {p : Prog S ε α} {t : τ} (hp : Upholds h.world I Q p (view t)) :
    Upholds h'.world (fun t => I (view t)) (fun r t => Q r (view t)) (p.lift f back) t := by
  induction p generalizing t with
  | pure a => exact hp
  | raise e => exact hp
  | op o k ih =>
    refine ⟨hp.1, fun x t' hw => ih _ ?_⟩
    have hop := hext o t
    rw [show h' (f o) t = (x, t') from hw] at hop
    exact hp.2 _ _ (Prod.ext hop.1.symm hop.2.symm)

theorem Only.lift {N : S.Op → Prop} {N' : T.Op → Prop} (hN : ∀ o, N o → N' (f o)) {p : Prog S ε α}
    (hp : Only N p) : Only N' (p.lift f back) := by
  induction p with
  | pure a => trivial
  | raise e => trivial
  | op o k ih => exact ⟨hN o hp.1, fun x => ih _ (hp.2 _)⟩

end

end Prog
end Effect
