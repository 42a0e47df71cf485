import PiVpn.Lib.Pause
import PiVpn.Lib.Transition

/-! One process with many sessions. Each session is a program: it runs alone up to a question
that waits, and goes on once that is answered. So what the sessions share changes in turns, and
every turn is of one session or comes from outside. The process may be killed between two turns
or amid one, with a question half done. -/

namespace Effect

namespace Prog

variable {S : Signature} {ε ε' α β σ : Type} {waits : S.Op → Bool} {h : Handler S σ} {N : S.Op → Prop}

/-- A program that has ended or waits. -/
def Paused (waits : S.Op → Bool) : Prog S ε α → Prop
  | .op o _ => waits o = true
  | _ => True

theorem paused_runUntil (p : Prog S ε α) (s : σ) : (runUntil waits h p s).1.Paused waits := by
  induction p generalizing s with
  | pure a => trivial
  | raise e => trivial
  | op o k ih =>
    cases ho : waits o with
    | true =>
      rw [runUntil_wait ho]
      exact ho
    | false =>
      rw [runUntil_op ho]
      exact ih _ _

theorem attempt_op (o : S.Op) (k : S.Answer o → Prog S ε α) :
    (Prog.op o k).attempt = (.op o fun x => (k x).attempt : Prog S ε' _) := rfl

/-- Go on with the outcome of a part that has ended or waits. -/
def attemptBehind : Prog S ε α × σ → Prog S ε' (Except ε α) × σ
  | (p, s) => (p.attempt, s)

theorem runUntil_attempt (p : Prog S ε α) (s : σ) :
    runUntil waits h (p.attempt : Prog S ε' _) s = attemptBehind (runUntil waits h p s) := by
  induction p generalizing s with
  | pure a => rfl
  | raise e => rfl
  | op o k ih =>
    rw [attempt_op]
    cases ho : waits o with
    | true =>
      rw [runUntil_wait ho, runUntil_wait ho]
      rfl
    | false => rw [runUntil_op ho, runUntil_op ho, ih]

theorem Only.attempt {p : Prog S ε α} (hp : Only N p) : Only N (p.attempt : Prog S ε' _) := by
  induction p with
  | pure a => trivial
  | raise e => trivial
  | op o k ih => exact ⟨hp.1, fun x => ih x (hp.2 x)⟩

theorem Only.finally_ {body : Prog S ε α} {last : Prog S ε Unit} (hbody : Only N body) (hlast : Only N last) :
    Only N (body.finally_ last) := by
  refine Only.bind hbody.attempt fun r => Only.bind hlast fun _ => ?_
  cases r <;> trivial

theorem Only.runUntil {p : Prog S ε α} (hp : Only N p) (s : σ) : Only N (runUntil waits h p s).1 := by
  induction p generalizing s with
  | pure a => trivial
  | raise e => trivial
  | op o k ih =>
    cases ho : waits o with
    | true =>
      rw [runUntil_wait ho]
      exact hp
    | false =>
      rw [runUntil_op ho]
      exact ih _ (hp.2 _) _

theorem Only.runUntil_view {ν : Type} (view : σ → ν) (hview : ∀ o s, N o → view (h o s).2 = view s)
    {p : Prog S ε α} (hp : Only N p) (s : σ) : view (Prog.runUntil waits h p s).2 = view s := by
  induction p generalizing s with
  | pure a => rfl
  | raise e => rfl
  | op o k ih =>
    cases ho : waits o with
    | true => rw [runUntil_wait ho]
    | false =>
      rw [runUntil_op ho, ih _ (hp.2 _), hview _ _ hp.1]

/-! ## A run that is broken off -/

/-- The state where the run up to the next wait is broken off after `n` questions, the one after
them half done. -/
def brokenOff (waits : S.Op → Bool) (h : Handler S σ) (half : S.Op → σ → σ) : Nat → Prog S ε α → σ → σ
  | 0, .op o _, s => if waits o then s else half o s
  | n + 1, .op o k, s => if waits o then s else brokenOff waits h half n (k (h o s).1) (h o s).2
  | _, _, s => s

section brokenOff
variable {half : S.Op → σ → σ}

theorem brokenOff_wait {o : S.Op} {k : S.Answer o → Prog S ε α} (ho : waits o = true) (n : Nat) (s : σ) :
    brokenOff waits h half n (.op o k) s = s := by
  cases n <;> exact if_pos ho

theorem brokenOff_attempt (n : Nat) (p : Prog S ε α) (s : σ) :
    brokenOff waits h half n (p.attempt : Prog S ε' _) s = brokenOff waits h half n p s := by
  induction p generalizing n s with
  | pure a => cases n <;> rfl
  | raise e => cases n <;> rfl
  | op o k ih =>
    rw [attempt_op]
    cases n with
    | zero => rfl
    | succ n =>
      simp only [brokenOff]
      rw [ih]

/-- A run of two parts is broken off in the first one, or in the second after the first has ended. -/
theorem brokenOff_bind {P : σ → Prop} {p : Prog S ε α} {f : α → Prog S ε β} {s : σ}
    (hp : ∀ n, P (brokenOff waits h half n p s))
    (hf : ∀ a t, runUntil waits h p s = (.pure a, t) → ∀ n, P (brokenOff waits h half n (f a) t)) (n : Nat) :
    P (brokenOff waits h half n (p >>= f) s) := by
  induction p generalizing n s with
  | pure a => exact hf a s rfl n
  | raise e => cases n <;> exact hp 0
  | op o k ih =>
    cases ho : waits o with
    | true =>
      have hstop := hp 0
      rw [brokenOff_wait ho] at hstop
      change P (brokenOff waits h half n (.op o fun x => k x >>= f) s)
      rwa [brokenOff_wait ho]
    | false =>
      cases n with
      | zero => exact hp 0
      | succ n =>
        change P (if waits o then s else brokenOff waits h half n (k (h o s).1 >>= f) (h o s).2)
        rw [if_neg (ne_true_of_eq_false ho)]
        refine ih _ (fun n => ?_) (fun a t hrun => hf a t ((runUntil_op ho _ _).trans hrun)) n
        have hlater := hp (n + 1)
        rwa [brokenOff, if_neg (ne_true_of_eq_false ho)] at hlater

theorem exists_brokenOff_end {p : Prog S ε α} {s t : σ} {a : α} (hrun : runUntil waits h p s = (.pure a, t)) :
    ∃ n, brokenOff waits h half n p s = t := by
  induction p generalizing s with
  | pure b => exact ⟨0, (Prod.mk.inj hrun).2⟩
  | raise e => cases hrun
  | op o k ih =>
    cases ho : waits o with
    | true =>
      rw [runUntil_wait ho] at hrun
      cases hrun
    | false =>
      rw [runUntil_op ho] at hrun
      obtain ⟨n, hn⟩ := ih _ hrun
      refine ⟨n + 1, ?_⟩
      rwa [brokenOff, if_neg (ne_true_of_eq_false ho)]

theorem Only.brokenOff_view {ν : Type} (view : σ → ν) (hview : ∀ o s, N o → view (h o s).2 = view s)
    (hhalf : ∀ o s, N o → view (half o s) = view s) {p : Prog S ε α} (hp : Only N p) (n : Nat) (s : σ) :
    view (Prog.brokenOff waits h half n p s) = view s := by
  induction p generalizing n s with
  | pure a => cases n <;> rfl
  | raise e => cases n <;> rfl
  | op o k ih =>
    cases ho : waits o with
    | true => rw [brokenOff_wait ho]
    | false =>
      cases n with
      | zero =>
        rw [Prog.brokenOff, if_neg (ne_true_of_eq_false ho), hhalf _ _ hp.1]
      | succ n =>
        rw [Prog.brokenOff, if_neg (ne_true_of_eq_false ho), ih _ (hp.2 _), hview _ _ hp.1]

end brokenOff

/-! ## What a program holds while it runs -/

section holds
variable {ω : Type} (next : S.Op → ω → ω) (fits : S.Op → ω → Prop)

/-- Before each question the program holds what fits it, and `Q` of what it holds at the end. -/
def Holds (Q : Except ε α → ω → Prop) : Prog S ε α → ω → Prop
  | .pure a, w => Q (.ok a) w
  | .raise e, w => Q (.error e) w
  | .op o k, w => fits o w ∧ ∀ x, Holds Q (k x) (next o w)

variable {next fits} {Q : Except ε α → ω → Prop} {R : Except ε β → ω → Prop}

theorem Holds.mono {Q' : Except ε α → ω → Prop} {p : Prog S ε α} {w : ω} (hp : Holds next fits Q p w)
    (hq : ∀ r w, Q r w → Q' r w) : Holds next fits Q' p w := by
  induction p generalizing w with
  | pure a => exact hq _ _ hp
  | raise e => exact hq _ _ hp
  | op o k ih => exact ⟨hp.1, fun x => ih x (hp.2 x)⟩

theorem Holds.bind {p : Prog S ε α} {f : α → Prog S ε β} {w : ω}
    (hp : Holds next fits (fun r w => match r with
      | .ok a => Holds next fits R (f a) w
      | .error e => R (.error e) w) p w) : Holds next fits R (p >>= f) w := by
  induction p generalizing w with
  | pure a => exact hp
  | raise e => exact hp
  | op o k ih => exact ⟨hp.1, fun x => ih x (hp.2 x)⟩

theorem Holds.attempt {Q : Except ε' (Except ε α) → ω → Prop} {p : Prog S ε α} {w : ω}
    (hp : Holds next fits (fun r w => Q (.ok r) w) p w) : Holds next fits Q p.attempt w := by
  induction p generalizing w with
  | pure a => exact hp
  | raise e => exact hp
  | op o k ih => exact ⟨hp.1, fun x => ih x (hp.2 x)⟩

theorem Holds.finally_ {body : Prog S ε α} {last : Prog S ε Unit} {w : ω}
    (hbody : Holds next fits (fun r v => Holds next fits (fun r' u => match r' with
      | .ok _ => Q r u
      | .error e => Q (.error e) u) last v) body w) : Holds next fits Q (body.finally_ last) w := by
  refine Holds.bind (Holds.attempt (hbody.mono fun r v hlast => Holds.bind (hlast.mono fun r' u hend => ?_)))
  cases r' with
  | error e => exact hend
  | ok _ => cases r <;> exact hend

theorem Holds.of_only {p : Prog S ε α} {w : ω} (hp : Only N p) (hfits : ∀ o, N o → fits o w)
    (hnext : ∀ o, N o → next o w = w) : Holds next fits (fun _ v => v = w) p w := by
  induction p with
  | pure a => rfl
  | raise e => rfl
  | op o k ih =>
    refine ⟨hfits o hp.1, fun x => ?_⟩
    rw [hnext o hp.1]
    exact ih x (hp.2 x)

theorem Holds.runUntil {own : σ → ω} (hown : ∀ o s, own (h o s).2 = next o (own s)) {p : Prog S ε α} {s : σ}
    (hp : Holds next fits Q p (own s)) :
    Holds next fits Q (Prog.runUntil waits h p s).1 (own (Prog.runUntil waits h p s).2) := by
  induction p generalizing s with
  | pure a => exact hp
  | raise e => exact hp
  | op o k ih =>
    cases ho : waits o with
    | true =>
      rw [runUntil_wait ho]
      exact hp
    | false =>
      rw [runUntil_op ho]
      have hx := hp.2 (h o s).1
      rw [← hown] at hx
      exact ih _ hx

end holds

end Prog

/-! ## The sessions of a process -/

namespace Pool
open Prog Transition

structure Session (S : Signature) (ε α T : Type) where
  tag : T
  rest : Prog S ε α

structure Process (S : Signature) (ε α T σ : Type) where
  shared : σ
  sessions : List (Session S ε α T)

/-- A session comes in; the question one waits for is answered; something happens outside; the
process is killed, between two turns or amid the one that comes in or is answered: after some
questions of that turn, and with so much of the next one done. -/
inductive Event (S : Signature) (T σ : Type) where
  | enter (tag : T)
  | resume (i : Nat) (react : Handler S σ)
  | outside (change : σ → σ)
  | kill
  | killEntering (tag : T) (questions done : Nat)
  | killResuming (i : Nat) (react : Handler S σ) (questions done : Nat)

section
variable {S : Signature} {ε α T σ : Type} (waits : S.Op → Bool) (h : Nat → Handler S σ)
  (half : Nat → Nat → S.Op → σ → σ) (body : T → Prog S ε α)

/-- The `i`-th session runs until it waits again. -/
def turn (i : Nat) (p : Prog S ε α) (s : σ) : Prog S ε α × σ := p.runUntil waits (h i) s

/-- What a turn of the `i`-th session leaves that is broken off. -/
def broken (i questions done : Nat) (p : Prog S ε α) (s : σ) : σ :=
  p.brokenOff waits (h i) (half i done) questions s

def step : Event S T σ → Process S ε α T σ → Option (Process S ε α T σ)
  | .enter t, p =>
    let next := turn waits h p.sessions.length (body t) p.shared
    some ⟨next.2, p.sessions ++ [⟨t, next.1⟩]⟩
  | .resume i react, p =>
    match p.sessions[i]? with
    | some ⟨t, .op o k⟩ =>
      let answered := react o p.shared
      let next := turn waits h i (k answered.1) answered.2
      some ⟨next.2, p.sessions.set i ⟨t, next.1⟩⟩
    | _ => none
  | .outside change, p => some ⟨change p.shared, p.sessions⟩
  | .kill, p => some ⟨p.shared, []⟩
  | .killEntering t n m, p => some ⟨broken waits h half p.sessions.length n m (body t) p.shared, []⟩
  | .killResuming i react n m, p =>
    match p.sessions[i]? with
    | some ⟨_, .op o k⟩ =>
      let answered := react o p.shared
      some ⟨broken waits h half i n m (k answered.1) answered.2, []⟩
    | _ => none

variable {waits h half body} {p p' : Process S ε α T σ}

theorem step_resume {i : Nat} {react : Handler S σ}
    (hstep : step waits h half body (.resume i react) p = some p') :
    ∃ t o k, p.sessions[i]? = some ⟨t, .op o k⟩ ∧
      p' = ⟨(turn waits h i (k (react o p.shared).1) (react o p.shared).2).2,
        p.sessions.set i ⟨t, (turn waits h i (k (react o p.shared).1) (react o p.shared).2).1⟩⟩ := by
  rw [step] at hstep
  split at hstep
  · next t o k hi => exact ⟨t, o, k, hi, (Option.some.inj hstep).symm⟩
  · cases hstep

theorem step_killResuming {i n m : Nat} {react : Handler S σ}
    (hstep : step waits h half body (.killResuming i react n m) p = some p') :
    ∃ t o k, p.sessions[i]? = some ⟨t, .op o k⟩ ∧
      p' = ⟨broken waits h half i n m (k (react o p.shared).1) (react o p.shared).2, []⟩ := by
  rw [step] at hstep
  split at hstep
  · next t o k hi => exact ⟨t, o, k, hi, (Option.some.inj hstep).symm⟩
  · cases hstep

end

/-! ## Changes, one after another -/

section history
variable {S : Signature} {ε α T σ δ ν : Type} (waits : S.Op → Bool) (h : Nat → Handler S σ)
  (half : Nat → Nat → S.Op → σ → σ) (view : σ → ν) (apply : δ → ν → ν)

def applyAll (es : List δ) (v : ν) : ν := es.foldl (fun v e => apply e v) v

/-- One turn makes some of the changes that are owed, each in its place, and leaves others owed. -/
def Pays (Owes : List δ → Prog S ε α → Prop) (es : List δ) (p : Prog S ε α) (i : Nat) (s : σ) : Prop :=
  ∃ paid owed, (paid ++ owed).Sublist es ∧ view (turn waits h i p s).2 = applyAll apply paid (view s) ∧
    Owes owed (turn waits h i p s).1

/-- One turn that is broken off makes some of these changes. -/
def Leaves (es : List δ) (p : Prog S ε α) (i n m : Nat) (s : σ) : Prop :=
  ∃ paid, paid.Sublist es ∧ view (broken waits h half i n m p s) = applyAll apply paid (view s)

/-- In all its turns together a session makes the changes of its tag, at most; where its first
turn is broken off, it may make one of `torn`. -/
structure Contract (body : T → Prog S ε α) (changes : T → List δ) (torn : T → Nat → List δ)
    (Owes : List δ → Prog S ε α → Prop) : Prop where
  enter : ∀ t i s, Pays waits h view apply Owes (changes t) (body t) i s
  resume : ∀ es o k, Owes es (.op o k) → ∀ x i s, Pays waits h view apply Owes es (k x) i s
  entering : ∀ t i n m s, Leaves waits h half view apply (torn t m ++ changes t) (body t) i n m s
  resuming : ∀ es o k, Owes es (.op o k) → ∀ x i n m s, Leaves waits h half view apply es (k x) i n m s

/-- What comes from outside leaves the view as it is. -/
def Event.Spares : Event S T σ → Prop
  | .resume _ react | .killResuming _ react _ _ => ∀ o s, view (react o s).2 = view s
  | .outside change => ∀ s, view (change s) = view s
  | _ => True

/-- The changes that a session brings along. -/
def Event.brings (changes : T → List δ) (torn : T → Nat → List δ) : Event S T σ → List δ
  | .enter t => changes t
  | .killEntering t _ m => torn t m ++ changes t
  | .resume .. | .outside _ | .kill | .killResuming .. => []

/-- The changes that can come of a run. -/
def changesOf (changes : T → List δ) (torn : T → Nat → List δ) (events : List (Event S T σ)) : List δ :=
  events.flatMap (Event.brings changes torn)

variable {waits h half view apply} {body : T → Prog S ε α} {changes : T → List δ} {torn : T → Nat → List δ}
  {Owes : List δ → Prog S ε α → Prop}

/-- The changes that the session may make that takes this step. -/
def Event.allows (changes : T → List δ) (torn : T → Nat → List δ) (p : Process S ε α T σ) :
    Event S T σ → List δ
  | .enter t => changes t
  | .resume i _ | .killResuming i _ _ _ => (p.sessions[i]?).elim [] fun x => changes x.tag
  | .killEntering t _ m => torn t m ++ changes t
  | .outside _ | .kill => []

/-- What each session has made so far, with what is made in this step. -/
def Event.book (es : List δ) (done : List (List δ)) : Event S T σ → List (List δ)
  | .enter _ => done ++ [es]
  | .resume i _ => done.modify i (· ++ es)
  | .outside _ => done
  | .kill | .killEntering .. | .killResuming .. => []

/-- Step by step, the changes made: each by the session that takes the step, and no session
makes in all its turns together more than the changes of its tag. -/
def Changes (waits : S.Op → Bool) (h : Nat → Handler S σ) (half : Nat → Nat → S.Op → σ → σ) (view : σ → ν)
    (apply : δ → ν → ν) (body : T → Prog S ε α) (changes : T → List δ) (torn : T → Nat → List δ) :
    List (Event S T σ) → Process S ε α T σ → List (List δ) → List (List δ) → Prop
  | [], _, _, made => made = []
  | _ :: _, _, _, [] => False
  | e :: events, p, done, es :: made =>
    es.Sublist (e.allows changes torn p) ∧ ∀ q, step waits h half body e p = some q →
      view q.shared = applyAll apply es (view p.shared) ∧
      List.Forall₂ (fun made (x : Session S ε α T) => made.Sublist (changes x.tag)) (e.book es done) q.sessions ∧
      Changes waits h half view apply body changes torn events q (e.book es done) made

/-- Of each session, what it has made and what it may still make: together no more than its tag
allows, and with what the sessions before made no more than all tags allow. -/
def Account (Owes : List δ → Prog S ε α → Prop) (changes : T → List δ) (done : List (List δ))
    (paid total : List δ) (p : Process S ε α T σ) : Prop :=
  ∃ accounts : List (List δ × List δ), accounts.map Prod.fst = done ∧
    List.Forall₂ (fun a (x : Session S ε α T) => Owes a.2 x.rest ∧ (a.1 ++ a.2).Sublist (changes x.tag))
      accounts p.sessions ∧
    (paid ++ (accounts.map Prod.snd).flatten).Subperm total

theorem applyAll_append (es es' : List δ) (v : ν) :
    applyAll apply (es ++ es') v = applyAll apply es' (applyAll apply es v) := List.foldl_append

theorem pay_one {ι : Type} {R : List δ × List δ → ι → Prop} {Q : List δ → Prop}
    {accounts : List (List δ × List δ)} {xs : List ι} (hall : List.Forall₂ R accounts xs) {i : Nat} {x y : ι}
    (hi : xs[i]? = some x)
    (hpay : ∀ a, R a x → ∃ paid rest, (paid ++ rest).Sublist a.2 ∧ Q paid ∧ R (a.1 ++ paid, rest) y) :
    ∃ paid accounts', Q paid ∧ accounts'.map Prod.fst = (accounts.map Prod.fst).modify i (· ++ paid) ∧
      List.Forall₂ R accounts' (xs.set i y) ∧
      (paid ++ (accounts'.map Prod.snd).flatten).Subperm (accounts.map Prod.snd).flatten := by
  induction hall generalizing i with
  | nil => cases hi
  | @cons a x₀ accounts xs hx hrest ih =>
    cases i with
    | zero =>
      obtain rfl : x₀ = x := Option.some.inj hi
      obtain ⟨paid, rest, hsub, hq, hr⟩ := hpay a hx
      refine ⟨paid, (a.1 ++ paid, rest) :: accounts, hq, rfl, .cons hr hrest, ?_⟩
      rw [List.map_cons, List.map_cons, List.flatten_cons, List.flatten_cons, ← List.append_assoc]
      exact (hsub.append_right _).subperm
    | succ i =>
      obtain ⟨paid, accounts', hq, hdone, hall', hsub⟩ := ih hi
      refine ⟨paid, a :: accounts', hq, by rw [List.map_cons, hdone]; rfl, .cons hx hall', ?_⟩
      have hswap : (paid ++ (a.2 ++ (accounts'.map Prod.snd).flatten)).Perm
          (a.2 ++ (paid ++ (accounts'.map Prod.snd).flatten)) := by
        rw [← List.append_assoc, ← List.append_assoc]
        exact List.perm_append_comm.append_right _
      rw [List.map_cons, List.map_cons, List.flatten_cons, List.flatten_cons]
      exact hswap.subperm.trans ((List.subperm_append_left _).mpr hsub)

theorem account_of {ι : Type} {R : List δ × List δ → ι → Prop} {accounts : List (List δ × List δ)} {xs : List ι}
    (hall : List.Forall₂ R accounts xs) {i : Nat} {x : ι} (hi : xs[i]? = some x) : ∃ a ∈ accounts, R a x := by
  induction hall generalizing i with
  | nil => cases hi
  | cons hx hrest ih =>
    cases i with
    | zero => exact ⟨_, List.mem_cons_self, Option.some.inj hi ▸ hx⟩
    | succ i =>
      obtain ⟨a, ha, hR⟩ := ih hi
      exact ⟨a, List.mem_cons_of_mem _ ha, hR⟩

theorem Account.nil {s : σ} {paid total : List δ} (h : paid.Subperm total) :
    Account Owes changes [] paid total (⟨s, []⟩ : Process S ε α T σ) :=
  ⟨[], rfl, .nil, by rwa [List.map_nil, List.flatten_nil, List.append_nil]⟩

theorem Account.step (hc : Contract waits h half view apply body changes torn Owes) {done : List (List δ)}
    {paid total : List δ} {p p' : Process S ε α T σ} {e : Event S T σ}
    (ha : Account Owes changes done paid total p) (hspares : e.Spares view)
    (hstep : step waits h half body e p = some p') :
    ∃ es, es.Sublist (e.allows changes torn p) ∧ view p'.shared = applyAll apply es (view p.shared) ∧
      Account Owes changes (e.book es done) (paid ++ es) (total ++ e.brings changes torn) p' := by
  obtain ⟨accounts, rfl, hall, hsub⟩ := ha
  have hspent : paid.Subperm total := (List.sublist_append_left _ _).subperm.trans hsub
  cases e with
  | enter t =>
    obtain ⟨es, owed, hsub', hview, howes⟩ := hc.enter t p.sessions.length p.shared
    obtain rfl := Option.some.inj hstep
    refine ⟨es, (List.sublist_append_left _ _).trans hsub', hview, accounts ++ [(es, owed)], ?_,
      List.rel_append hall (.cons ⟨howes, hsub'⟩ .nil), ?_⟩
    · rw [List.map_append]
      rfl
    · have hswap : (es ++ ((accounts.map Prod.snd).flatten ++ owed)).Perm
          ((accounts.map Prod.snd).flatten ++ (es ++ owed)) := by
        rw [← List.append_assoc, ← List.append_assoc]
        exact List.perm_append_comm.append_right _
      have hshuffle : (paid ++ es ++ ((accounts ++ [(es, owed)]).map Prod.snd).flatten).Perm
          (paid ++ (accounts.map Prod.snd).flatten ++ (es ++ owed)) := by
        rw [List.map_append, List.flatten_append, List.map_singleton, List.flatten_singleton, List.append_assoc,
          List.append_assoc]
        exact hswap.append_left paid
      exact hshuffle.subperm.trans (hsub.append hsub'.subperm)
  | resume i react =>
    obtain ⟨t, o, k, hi, rfl⟩ := step_resume hstep
    have hpay := pay_one (Q := fun es => es.Sublist (changes t) ∧
        view (turn waits h i (k (react o p.shared).1) (react o p.shared).2).2 = applyAll apply es (view p.shared))
      (y := ⟨t, (turn waits h i (k (react o p.shared).1) (react o p.shared).2).1⟩) hall hi (fun a ha => by
        obtain ⟨es, rest, hsub', hview, howes⟩ :=
          hc.resume a.2 o k ha.1 (react o p.shared).1 i (react o p.shared).2
        rw [hspares] at hview
        have hmade : (a.1 ++ es ++ rest).Sublist (changes t) := by
          rw [List.append_assoc]
          exact (hsub'.append_left a.1).trans ha.2
        have hes : es.Sublist (changes t) :=
          ((List.sublist_append_right _ _).trans (List.sublist_append_left _ _)).trans hmade
        exact ⟨es, rest, hsub', ⟨hes, hview⟩, howes, hmade⟩)
    obtain ⟨es, accounts', ⟨hes, hview⟩, hdone, hall', hsub'⟩ := hpay
    refine ⟨es, ?_, hview, accounts', hdone, hall', ?_⟩
    · rwa [Event.allows, hi]
    · rw [Event.brings, List.append_nil, List.append_assoc]
      exact ((List.subperm_append_left _).mpr hsub').trans hsub
  | outside change =>
    obtain rfl := Option.some.inj hstep
    refine ⟨[], List.nil_sublist _, hspares _, accounts, rfl, hall, ?_⟩
    rw [Event.brings, List.append_nil, List.append_nil]
    exact hsub
  | kill =>
    obtain rfl := Option.some.inj hstep
    refine ⟨[], List.nil_sublist _, rfl, .nil ?_⟩
    rw [Event.brings, List.append_nil, List.append_nil]
    exact hspent
  | killEntering t n m =>
    obtain rfl := Option.some.inj hstep
    obtain ⟨es, hes, hview⟩ := hc.entering t p.sessions.length n m p.shared
    exact ⟨es, hes, hview, .nil (hspent.append hes.subperm)⟩
  | killResuming i react n m =>
    obtain ⟨t, o, k, hi, rfl⟩ := step_killResuming hstep
    obtain ⟨a, ha, howes, hmade⟩ := account_of hall hi
    obtain ⟨es, hes, hview⟩ := hc.resuming a.2 o k howes (react o p.shared).1 i n m (react o p.shared).2
    rw [hspares] at hview
    refine ⟨es, ?_, hview, .nil ?_⟩
    · rw [Event.allows, hi]
      exact hes.trans ((List.sublist_append_right _ _).trans hmade)
    · have howed : a.2.Sublist (accounts.map Prod.snd).flatten :=
        List.sublist_flatten_of_mem (List.mem_map_of_mem ha)
      rw [Event.brings, List.append_nil]
      exact ((List.subperm_append_left _).mpr (hes.trans howed).subperm).trans hsub

theorem Account.made {done : List (List δ)} {paid total : List δ} {p : Process S ε α T σ}
    (ha : Account Owes changes done paid total p) :
    List.Forall₂ (fun made (x : Session S ε α T) => made.Sublist (changes x.tag)) done p.sessions := by
  obtain ⟨accounts, rfl, hall, -⟩ := ha
  exact List.forall₂_map_left_iff.mpr (hall.imp fun a x hax => (List.sublist_append_left _ _).trans hax.2)

theorem Account.run (hc : Contract waits h half view apply body changes torn Owes)
    {events : List (Event S T σ)} {done : List (List δ)} {paid total : List δ} {p p' : Process S ε α T σ}
    (ha : Account Owes changes done paid total p) (hspares : ∀ e ∈ events, e.Spares view)
    (hrun : steps (Pool.step waits h half body) events p = some p') :
    ∃ made, Changes waits h half view apply body changes torn events p done made ∧
      (paid ++ made.flatten).Subperm (total ++ changesOf changes torn events) := by
  induction events generalizing done paid total p with
  | nil =>
    obtain ⟨accounts, -, -, hsub⟩ := ha
    refine ⟨[], rfl, ?_⟩
    rw [changesOf, List.flatMap_nil, List.append_nil, List.flatten_nil, List.append_nil]
    exact (List.sublist_append_left _ _).subperm.trans hsub
  | cons e events ih =>
    obtain ⟨q, hq, hrest⟩ := steps_cons.mp hrun
    obtain ⟨es, hes, hview, hnext⟩ := ha.step hc (hspares e List.mem_cons_self) hq
    obtain ⟨made, hmade, hlast⟩ := ih hnext (fun e he => hspares e (List.mem_cons_of_mem _ he)) hrest
    refine ⟨es :: made, ⟨hes, fun r hr => ?_⟩, ?_⟩
    · obtain rfl : q = r := Option.some.inj (hq.symm.trans hr)
      exact ⟨hview, hnext.made, hmade⟩
    · rw [changesOf, List.flatMap_cons, ← List.append_assoc, List.flatten_cons, ← List.append_assoc]
      exact hlast

/-- However the sessions take turns, each step makes changes of the session that takes it, no
session makes a change twice, and together they make no more than their tags allow. -/
theorem changes_of_run (hc : Contract waits h half view apply body changes torn Owes)
    {events : List (Event S T σ)} {p p' : Process S ε α T σ}
    (hrun : steps (Pool.step waits h half body) events p = some p')
    (hspares : ∀ e ∈ events, e.Spares view) (hidle : p.sessions = []) :
    ∃ made, Changes waits h half view apply body changes torn events p [] made ∧
      made.flatten.Subperm (changesOf changes torn events) := by
  have hstart : Account Owes changes [] [] [] p := ⟨[], rfl, by rw [hidle]; exact .nil, List.nil_subperm⟩
  exact hstart.run hc hspares hrun

theorem Changes.view_eq {events : List (Event S T σ)} {p p' : Process S ε α T σ} {done made : List (List δ)}
    (hmade : Changes waits h half view apply body changes torn events p done made)
    (hrun : steps (Pool.step waits h half body) events p = some p') :
    view p'.shared = applyAll apply made.flatten (view p.shared) := by
  induction events generalizing p done made with
  | nil =>
    obtain rfl := Option.some.inj hrun
    rw [show made = [] from hmade]
    rfl
  | cons e events ih =>
    cases made with
    | nil => exact hmade.elim
    | cons es made =>
      obtain ⟨q, hq, hrest⟩ := steps_cons.mp hrun
      obtain ⟨hview, -, hlater⟩ := hmade.2 q hq
      rw [List.flatten_cons, applyAll_append, ← hview]
      exact ih hlater hrest

end history

/-! ## What each session has of its own -/

section own
variable {S : Signature} {ε α T σ ω : Type} {waits : S.Op → Bool} {h : Nat → Handler S σ}
  {half : Nat → Nat → S.Op → σ → σ} {body : T → Prog S ε α} {next : S.Op → ω → ω}
  {fits : T → S.Op → ω → Prop} {Q : T → Except ε α → ω → Prop}

/-- A session's questions change what is its own, and nothing that is another's. -/
structure Apart (waits : S.Op → Bool) (h : Nat → Handler S σ) (own : Nat → σ → ω) (next : S.Op → ω → ω) :
    Prop where
  mine : ∀ i o s, own i (h i o s).2 = next o (own i s)
  others : ∀ i j o s, j ≠ i → own j (h i o s).2 = own j s
  waiting : ∀ o w, waits o = true → next o w = w

/-- Nothing from outside touches what is a session's own, and the process is not killed. -/
def Event.Leaves (own : Nat → σ → ω) : Event S T σ → Prop
  | .enter _ => True
  | .resume _ react => ∀ o s i, own i (react o s).2 = own i s
  | .outside change => ∀ s i, own i (change s) = own i s
  | .kill | .killEntering .. | .killResuming .. => False

/-- What each session has fits what is left of it; what is to be that of later ones is idle. -/
structure Held (waits : S.Op → Bool) (own : Nat → σ → ω) (next : S.Op → ω → ω) (fits : T → S.Op → ω → Prop)
    (Q : T → Except ε α → ω → Prop) (idle : ω) (p : Process S ε α T σ) : Prop where
  session : ∀ (i : Nat) x, p.sessions[i]? = some x →
    x.rest.Paused waits ∧ Holds next (fits x.tag) (Q x.tag) x.rest (own i p.shared)
  later : ∀ i, p.sessions.length ≤ i → own i p.shared = idle

theorem Held.step {own : Nat → σ → ω} {idle : ω} (hapart : Apart waits h own next)
    (hbody : ∀ t, Holds next (fits t) (Q t) (body t) idle) {p p' : Process S ε α T σ} {e : Event S T σ}
    (hp : Held waits own next fits Q idle p) (hleaves : e.Leaves own)
    (hstep : Pool.step waits h half body e p = some p') :
    Held waits own next fits Q idle p' := by
  have hothers : ∀ i j (q : Prog S ε α) s, j ≠ i → own j (turn waits h i q s).2 = own j s := by
    intro i j q s hne
    have honly : Only (fun _ => True) q := only_of_forall (fun _ => trivial) q
    exact honly.runUntil_view (own j) (fun o s _ => hapart.others i j o s hne) s
  cases e with
  | enter t =>
    obtain rfl := Option.some.inj hstep
    have hmine := (hp.later p.sessions.length le_rfl).symm ▸ hbody t
    have hnext : Holds next (fits t) (Q t) (turn waits h p.sessions.length (body t) p.shared).1
        (own p.sessions.length (turn waits h p.sessions.length (body t) p.shared).2) :=
      hmine.runUntil fun o s => hapart.mine _ o s
    refine ⟨fun i x hi => ?_, fun i hi => ?_⟩
    · rcases Nat.lt_trichotomy i p.sessions.length with hlt | rfl | hgt
      · rw [List.getElem?_append_left hlt] at hi
        dsimp only
        rw [hothers _ _ _ _ (Nat.ne_of_lt hlt)]
        exact hp.session i x hi
      · rw [List.getElem?_concat_length] at hi
        obtain rfl := Option.some.inj hi
        exact ⟨paused_runUntil _ _, hnext⟩
      · rw [List.getElem?_eq_none (by simpa using hgt)] at hi
        cases hi
    · rw [List.length_append, List.length_singleton] at hi
      dsimp only
      rw [hothers _ _ _ _ (by omega)]
      exact hp.later i (by omega)
  | resume i react =>
    obtain ⟨t, o, k, hi, rfl⟩ := step_resume hstep
    have hlt : i < p.sessions.length := (List.getElem?_eq_some_iff.mp hi).1
    refine ⟨fun j x hj => ?_, fun j hj => ?_⟩
    · rw [List.getElem?_set] at hj
      split at hj
      · next heq =>
        subst heq
        obtain rfl := Option.some.inj hj
        obtain ⟨hwait, hheld⟩ := hp.session i _ hi
        have hgo := hheld.2 (react o p.shared).1
        rw [hapart.waiting o _ hwait, ← hleaves] at hgo
        exact ⟨paused_runUntil _ _, hgo.runUntil (fun o s => hapart.mine _ o s)⟩
      · next hne =>
        dsimp only
        rw [hothers _ _ _ _ (Ne.symm hne), hleaves]
        exact hp.session j x hj
    · rw [List.length_set] at hj
      dsimp only
      rw [hothers _ _ _ _ (by omega), hleaves]
      exact hp.later j hj
  | outside change =>
    obtain rfl := Option.some.inj hstep
    refine ⟨fun i x hi => ?_, fun i hi => ?_⟩
    · dsimp only
      rw [hleaves]
      exact hp.session i x hi
    · dsimp only
      rw [hleaves]
      exact hp.later i hi
  | kill | killEntering | killResuming => exact hleaves.elim

theorem held_of_run {own : Nat → σ → ω} {idle : ω} (hapart : Apart waits h own next)
    (hbody : ∀ t, Holds next (fits t) (Q t) (body t) idle) {p p' : Process S ε α T σ}
    {events : List (Event S T σ)}
    (hp : Held waits own next fits Q idle p) (hleaves : ∀ e ∈ events, e.Leaves own)
    (hrun : steps (Pool.step waits h half body) events p = some p') : Held waits own next fits Q idle p' :=
  Along.invariant (P := fun e _ => e.Leaves own) (fun _ _ _ he hstep hq => hq.step hapart hbody he hstep)
    (.of_forall fun e he _ => hleaves e he) hrun hp

end own

end Pool
end Effect
