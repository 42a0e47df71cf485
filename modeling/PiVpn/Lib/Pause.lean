import PiVpn.Lib.Program

/-! Programs that share a state and switch only at the questions that wait: a program
runs alone up to such a question, and what is left of it is a program again. -/

namespace Effect.Prog

variable {S : Signature} {ε α β σ : Type}

/-- Run until a question that waits, or to the end. -/
def runUntil (waits : S.Op → Bool) (h : Handler S σ) : Prog S ε α → σ → Prog S ε α × σ
  | .pure a, s => (.pure a, s)
  | .raise e, s => (.raise e, s)
  | .op o k, s => if waits o then (.op o k, s) else runUntil waits h (k (h o s).1) (h o s).2

def ended : Prog S ε α → Bool
  | .pure _ => true
  | .raise _ => true
  | .op _ _ => false

variable {waits : S.Op → Bool} {h : Handler S σ}

@[simp] theorem runUntil_pure (a : α) (s : σ) :
    runUntil waits h (.pure a : Prog S ε α) s = (.pure a, s) := rfl

@[simp] theorem runUntil_raise (e : ε) (s : σ) :
    runUntil waits h (.raise e : Prog S ε α) s = (.raise e, s) := rfl

theorem runUntil_op {o : S.Op} (ho : waits o = false) (k : S.Answer o → Prog S ε α) (s : σ) :
    runUntil waits h (.op o k) s = runUntil waits h (k (h o s).1) (h o s).2 := by
  rw [runUntil, if_neg (by simp [ho])]

theorem runUntil_wait {o : S.Op} (ho : waits o = true) (k : S.Answer o → Prog S ε α) (s : σ) :
    runUntil waits h (.op o k) s = (.op o k, s) := by
  rw [runUntil, if_pos ho]

/-- Go on behind a first part, which has ended or waits. -/
def goOnBehind (waits : S.Op → Bool) (h : Handler S σ) (f : α → Prog S ε β) :
    Prog S ε α × σ → Prog S ε β × σ
  | (.pure a, s) => runUntil waits h (f a) s
  | (.raise e, s) => (.raise e, s)
  | (.op o k, s) => (.op o fun x => k x >>= f, s)

theorem runUntil_bind (p : Prog S ε α) (f : α → Prog S ε β) (s : σ) :
    runUntil waits h (p >>= f) s = goOnBehind waits h f (runUntil waits h p s) := by
  induction p generalizing s with
  | pure a => rfl
  | raise e => rfl
  | op o k ih =>
    rw [op_bind]
    cases ho : waits o with
    | true =>
      rw [runUntil_wait ho, runUntil_wait ho]
      rfl
    | false => rw [runUntil_op ho, runUntil_op ho, ih]

end Effect.Prog
