import PiVpn.Maintenance.Snapshots

/-! The check after a boot on the timeline of the application's start: the port is looked up
once, then polled, while the application may come up at any moment in between. -/

namespace Maintenance
open Text Effect Prog

/-! ## The application comes up -/

/-- The configured port, the moment from which the application listens and answers there, and
the moments of the operations of the check. -/
structure Boot where
  port : Nat
  start : Nat
  instant : Nat → Nat
  code : Nat → Text
  forward : Monotone instant
  healthy : ∀ n, healthCode (code n) = true

def Boot.up (b : Boot) (n : Nat) : Bool := b.start ≤ b.instant n

def noAnswer : Text := ['0', '0', '0']

/-- The port is listed, and a request to it answered, once the application is up; nobody else
answers. The check starts at the tick `t`. -/
def Boot.outcomes (b : Boot) (rest : Outcomes) (t : Nat) : Outcomes :=
  { rest with
    port := if b.up t then decimal b.port else []
    curl := fun n port => if b.up n ∧ port = decimal b.port then b.code n else noAnswer }

/-- The check has gone on to repair something. -/
def Drastic : Op → Prop
  | .restart => True
  | .aptInstall _ => True
  | .alert _ => True
  | .reboot => True
  | _ => False

/-- The check ends with the application healthy, and has done nothing about it. -/
def EndsHealthy (env : Outcomes) (d : Disk) : Prop :=
  ∀ o ∈ (cmdBootCheck : Cmd Unit).trace (handler env) d, ¬ Drastic o

/-! ## Polling -/

theorem execute_pollHealthy_cons (env : Outcomes) (port : Text) (n : Nat) (d : Disk) :
    execute env (pollHealthy port (n + 1)) d =
      if healthCode (orDefault (env.curl d.tick port) noAnswer) then (.ok true, { d with tick := d.tick + 1 })
      else execute env (pollHealthy port n) { d with tick := d.tick + 1 } := by
  rw [pollHealthy, execute_ask_bind]
  change execute env (if healthCode (orDefault (env.curl d.tick port) noAnswer) then _ else _) _ = _
  split <;> rfl

/-- A poll that finds the application up is the last; the others each take a tick. -/
theorem pollHealthy_found {env : Outcomes} {port : Text} {n : Nat} {d : Disk}
    (h : ∃ i < n, healthCode (orDefault (env.curl (d.tick + i) port) noAnswer) = true) :
    ∃ d', execute env (pollHealthy port n) d = (.ok true, d') := by
  induction n generalizing d with
  | zero =>
    obtain ⟨i, hi, -⟩ := h
    omega
  | succ n ih =>
    rw [execute_pollHealthy_cons]
    by_cases hnow : healthCode (orDefault (env.curl d.tick port) noAnswer) = true
    · exact ⟨_, if_pos hnow⟩
    · rw [if_neg hnow]
      apply ih
      obtain ⟨i, hi, hcode⟩ := h
      cases i with
      | zero => exact absurd hcode hnow
      | succ i => exact ⟨i, by omega, by rwa [show d.tick + 1 + i = d.tick + (i + 1) by omega]⟩

theorem pollHealthy_missed {env : Outcomes} {port : Text} {n : Nat} {d : Disk}
    (h : ∀ i, healthCode (orDefault (env.curl i port) noAnswer) = false) :
    ∃ d', execute env (pollHealthy port n) d = (.ok false, d') := by
  induction n generalizing d with
  | zero => exact ⟨d, rfl⟩
  | succ n ih =>
    rw [execute_pollHealthy_cons, h d.tick]
    exact ih

/-! ## The whole check -/

theorem decimal_injective : Function.Injective decimal := by
  intro m n h
  rw [← Nat.ofDigitChars_ten_toDigits (n := m), ← Nat.ofDigitChars_ten_toDigits (n := n)]
  exact congrArg (Nat.ofDigitChars 10 · 0) h

section
variable {b : Boot} {rest : Outcomes} {t n : Nat} {d d' : Disk}

theorem Boot.port_lookup (b : Boot) (rest : Outcomes) (t : Nat) :
    orDefault (b.outcomes rest t).port ['4', '4', '3'] = if b.up t then decimal b.port else ['4', '4', '3'] := by
  change orDefault (if b.up t then decimal b.port else []) _ = _
  split
  · exact if_neg (show decimal b.port ≠ [] from Nat.toDigits_ne_nil)
  · rfl

/-- A request is answered well if the application is up and it is its port. -/
theorem Boot.healthy_iff {port : Text} :
    healthCode (orDefault ((b.outcomes rest t).curl n port) noAnswer) = true ↔
      b.up n = true ∧ port = decimal b.port := by
  change healthCode (orDefault (if b.up n ∧ port = decimal b.port then b.code n else noAnswer) _) = true ↔ _
  by_cases hn : b.up n = true ∧ port = decimal b.port
  · -- a code that counts as healthy is not empty
    have hcode : b.code n ≠ [] := fun h => absurd (b.healthy n) (by rw [h]; decide)
    rw [if_pos hn, orDefault, if_neg hcode]
    exact iff_of_true (b.healthy n) hn
  · rw [if_neg hn]
    exact iff_of_false (by decide) hn

theorem only_confirmUpdate (pending : Text) : Only (¬ Drastic ·) (confirmUpdate pending) := by
  rw [confirmUpdate]
  split
  · exact Only.bind (only_ask not_false) fun _ => only_ask not_false
  · trivial

variable {env : Outcomes}

/-- The polls that follow the lookup decide. -/
theorem endsHealthy_iff {healthy : Bool}
    (hpoll : execute env (pollHealthy (orDefault env.port ['4', '4', '3']) 18) { d with tick := d.tick + 1 } =
      (.ok healthy, d')) : EndsHealthy env d ↔ healthy = true := by
  have hport : execute env (ask .port) d = (.ok env.port, { d with tick := d.tick + 1 }) := rfl
  have hpolls : ∀ o ∈ (pollHealthy (orDefault env.port ['4', '4', '3']) 18).trace (handler env)
      { d with tick := d.tick + 1 }, ¬ Drastic o :=
    (only_pollHealthy (fun _ => not_false) _ _).trace _
  rw [EndsHealthy, cmdBootCheck, forall_trace_bind hport, forall_trace_bind hpoll]
  cases healthy with
  | true =>
    refine iff_of_true ⟨(only_ask not_false).trace d, hpolls, ?_⟩ rfl
    apply Only.trace
    refine Only.bind (only_ask not_false) fun pending => Only.bind (only_confirmUpdate pending) fun _ => ?_
    split
    · exact only_log _ not_false
    · trivial
  | false =>
    -- the restart is the third operation after the polls
    refine iff_of_false (fun hall => ?_) Bool.false_ne_true
    exact hall.2.2 .restart (.tail _ (.tail _ (.head _))) trivial

end

/-- The port is looked up once. Where the application is not up yet, the polls go to 443,
whatever its port. -/
theorem bootCheck_healthy_iff (b : Boot) (rest : Outcomes) (d : Disk)
    (h : b.start ≤ b.instant (d.tick + 18)) :
    EndsHealthy (b.outcomes rest d.tick) d ↔ b.port = 443 ∨ b.up d.tick = true := by
  by_cases hpoll : orDefault (b.outcomes rest d.tick).port ['4', '4', '3'] = decimal b.port
  · -- the polls go to its port, the last of them after it has come up
    have hlast : b.up (d.tick + 18) = true := decide_eq_true h
    obtain ⟨d', hfound⟩ := @pollHealthy_found (b.outcomes rest d.tick) _ 18 { d with tick := d.tick + 1 }
      ⟨17, by omega, Boot.healthy_iff.mpr ⟨hlast, hpoll⟩⟩
    rw [endsHealthy_iff hfound]
    refine iff_of_true rfl ?_
    rw [b.port_lookup] at hpoll
    by_cases hup : b.up d.tick = true
    · exact .inr hup
    · rw [if_neg hup] at hpoll
      exact .inl (decimal_injective (show decimal 443 = decimal b.port from hpoll)).symm
  · obtain ⟨d', hmissed⟩ := pollHealthy_missed (n := 18) (d := { d with tick := d.tick + 1 })
      (fun i => Bool.eq_false_iff.mpr fun hi => hpoll (Boot.healthy_iff (n := i).mp hi).2)
    rw [endsHealthy_iff hmissed]
    refine iff_of_false Bool.false_ne_true ?_
    rintro (hport | hup)
    · rw [b.port_lookup, hport] at hpoll
      exact hpoll (by split <;> rfl)
    · rw [b.port_lookup, if_pos hup] at hpoll
      exact hpoll rfl

/-- The application comes up at the twentieth second; the polls are ten seconds apart. -/
def slowStart (port : Nat) : Boot where
  port := port
  start := 20
  instant n := 10 * (n - 1)
  code _ := ['2', '0', '0']
  forward _ _ hmn := Nat.mul_le_mul_left 10 (Nat.sub_le_sub_right hmn 1)
  healthy _ := rfl

/-- A boot with no update behind it. -/
def quietOutcomes : Outcomes :=
  ⟨[], fun _ _ => [], fun _ _ i c => (true, i, c), true, [], some [], id, fun i c => (true, i, c), false, false,
    true, []⟩

def quietDisk : Disk := ⟨[], [], [], [], [], [], [], 0⟩

theorem slow_start_ends_healthy :
    (slowStart 443).start ≤ (slowStart 443).instant (quietDisk.tick + 18) ∧
      EndsHealthy ((slowStart 443).outcomes quietOutcomes quietDisk.tick) quietDisk :=
  ⟨by decide, (bootCheck_healthy_iff (slowStart 443) quietOutcomes quietDisk (by decide)).mpr (.inl rfl)⟩

/-- On a high port the polls never reach the application. -/
theorem high_port_is_restarted : ¬ ∀ (b : Boot) (rest : Outcomes) (d : Disk),
    b.start ≤ b.instant (d.tick + 18) → EndsHealthy (b.outcomes rest d.tick) d := by
  intro hall
  have hrun := hall (slowStart 8443) quietOutcomes quietDisk (by decide)
  have hasked : ((cmdBootCheck : Cmd Unit).trace
      (handler ((slowStart 8443).outcomes quietOutcomes quietDisk.tick)) quietDisk)[21]? = some .restart := rfl
  exact hrun .restart (List.mem_of_getElem? hasked) trivial

end Maintenance
