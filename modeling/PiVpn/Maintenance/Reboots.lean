import PiVpn.Maintenance.Snapshots

/-! The guard against a reboot loop. A reboot leaves its mark in the two keys of the state
file, and only the next update on record takes it away while an update is pending. -/

namespace Maintenance
open Text Effect Prog

/-! ## What the history must look like -/

def Event.isReboot : Event → Bool
  | .rebooted _ => true
  | .recorded _ _ => false

/-- Where no update is put on record there is at most one reboot, and each reboot has a
pending update to blame. -/
structure NoRebootLoop (events : List Event) : Prop where
  once : ∀ stretch, stretch <:+: events → (∀ dir packages, .recorded dir packages ∉ stretch) →
    stretch.countP Event.isReboot ≤ 1
  blamed : ∀ pending, .rebooted pending ∈ events → pending ≠ []

/-- No update was put on record since the last reboot. -/
def JustRebooted (events : List Event) : Prop := ∃ before pending, events = before ++ [.rebooted pending]

theorem not_justRebooted_recorded (events : List Event) (dir : Text) (packages : Option (List Text)) :
    ¬ JustRebooted (events ++ [.recorded dir packages]) := by
  rintro ⟨before, pending, h⟩
  have hlast := (List.append_inj' h rfl).2
  simp at hlast

theorem infix_append_singleton {s es : List Event} {e : Event} (h : s <:+: es ++ [e]) :
    s <:+: es ∨ ∃ s', s = s' ++ [e] ∧ s' <:+ es := by
  rcases List.infix_concat_iff.mp h with h | h
  · rcases List.suffix_concat_iff.mp h with rfl | ⟨s', rfl, h'⟩
    · exact .inl (List.nil_infix)
    · exact .inr ⟨s', by simp, h'⟩
  · exact .inl h

theorem NoRebootLoop.recorded {events : List Event} (h : NoRebootLoop events) (dir : Text)
    (packages : Option (List Text)) : NoRebootLoop (events ++ [.recorded dir packages]) := by
  refine ⟨fun s hs hno => ?_, fun p hp => h.blamed p (by simpa using hp)⟩
  rcases infix_append_singleton hs with hs | ⟨s', rfl, -⟩
  · exact h.once s hs hno
  · exact absurd (by simp) (hno dir packages)

theorem NoRebootLoop.rebooted {events : List Event} (h : NoRebootLoop events)
    (hj : ¬ JustRebooted events) {pending : Text} (hp : pending ≠ []) :
    NoRebootLoop (events ++ [.rebooted pending]) := by
  refine ⟨fun s hs hno => ?_, fun p hmem => ?_⟩
  · rcases infix_append_singleton hs with hs | ⟨s', rfl, hs'⟩
    · exact h.once s hs hno
    · -- a longer stretch would end in a recording, which it does not hold
      cases s' using List.reverseRecOn with
      | nil => simp [Event.isReboot]
      | append_singleton s' e =>
        obtain ⟨before, hb⟩ := hs'
        cases e with
        | recorded dir packages => exact absurd (by simp) (hno dir packages)
        | rebooted p => exact absurd ⟨before ++ s', p, by rw [← hb, List.append_assoc]⟩ hj
  · rcases List.mem_append.mp hmem with hmem | hmem
    · exact h.blamed p hmem
    · obtain rfl : p = pending := by simpa using hmem
      exact hp

/-! ## The invariant -/

/-- After a reboot the attempt is on record, until no update is pending. -/
structure Safe (d : Disk) : Prop where
  history : NoRebootLoop d.events
  guarded : JustRebooted d.events → d.get attemptedKey = ['1'] ∨ d.get pendingKey = []

/-- The part of the disk the guard is about. -/
def Disk.SameGuard (d d' : Disk) : Prop := d'.state = d.state ∧ d'.events = d.events

theorem Disk.SameGuard.trans {d d' d'' : Disk} (h : d.SameGuard d') (h' : d'.SameGuard d'') :
    d.SameGuard d'' :=
  ⟨h'.1.trans h.1, h'.2.trans h.2⟩

theorem Disk.SameGuard.get {d d' : Disk} (h : d.SameGuard d') (key : String) :
    d'.get key = d.get key := by
  rw [Disk.get, Disk.get, h.1]

theorem Safe.of_sameGuard {d d' : Disk} (hd : Safe d) (h : d.SameGuard d') : Safe d' := by
  refine ⟨h.2 ▸ hd.history, fun hj => ?_⟩
  rw [h.get, h.get]
  exact hd.guarded (h.2 ▸ hj)

/-- The operations that have no hand in the guard. -/
def Op.Neutral : Op → Prop
  | .stateSet _ _ | .stateUnset _ | .reboot => False
  | _ => True

theorem handler_neutral (env : Outcomes) {o : Op} (d : Disk) (h : o.Neutral) :
    d.SameGuard (handler env o d).2 := by
  cases o with
  | stateSet | stateUnset | reboot => exact h.elim
  | mkdir dir =>
    simp only [handler, answer, Disk.mkdir]
    split <;> exact ⟨rfl, rfl⟩
  | _ => exact ⟨rfl, rfl⟩

theorem Safe.unset_pending {d : Disk} (h : Safe d) : Safe (d.unset pendingKey) :=
  ⟨h.history, fun _ => .inr (Disk.get_unset_self d _)⟩

theorem Safe.unset_attempted {d : Disk} (h : Safe d) (hp : d.get pendingKey = []) :
    Safe (d.unset attemptedKey) :=
  ⟨h.history, fun _ => .inr (by rw [Disk.get_unset_ne d (by decide), hp])⟩

theorem Safe.set_attempted {d : Disk} (h : Safe d) {v : Text}
    (hv : v = ['1'] ∨ ¬ JustRebooted d.events) : Safe (d.set attemptedKey v) := by
  refine ⟨h.history, fun hj => .inl ?_⟩
  rcases hv with rfl | hv
  · exact Disk.get_set_self d _ _
  · exact absurd hj hv

theorem Safe.set_pending {d : Disk} (h : Safe d) (dir : Text) :
    Safe ((d.set pendingKey dir).record dir) :=
  ⟨h.history.recorded _ _, fun hj => absurd hj (not_justRebooted_recorded _ _ _)⟩

/-! ## The commands keep it -/

/-- At every point of the run, and at its end. -/
abbrev KeepsSafe {α : Type} (env : Outcomes) (c : Cmd α) (d : Disk) : Prop :=
  Upholds (handler env).world Safe (fun _ d => Safe d) c d

variable {env : Outcomes} {α β : Type} {d : Disk}

theorem KeepsSafe.bind {c : Cmd α} {f : α → Cmd β} (h : KeepsSafe env c d)
    (hf : ∀ a d', Safe d' → KeepsSafe env (f a) d') : KeepsSafe env (c >>= f) d := by
  refine Upholds.bind (h.mono fun r d' hd' => ?_)
  rcases r with e | a
  · exact e.elim
  · exact hf a d' hd'

theorem keepsSafe_pure (a : α) (hd : Safe d) : KeepsSafe env (Prog.pure a) d := ⟨hd, hd⟩

/-- Operations that have no hand in the guard may stand anywhere before the rest. -/
theorem KeepsSafe.after_neutral {c : Cmd α} {f : α → Cmd β} (hc : Only Op.Neutral c) (hd : Safe d)
    (hf : ∀ a d', d.SameGuard d' → KeepsSafe env (f a) d') : KeepsSafe env (c >>= f) d := by
  have hframe : Upholds (handler env).world (d.SameGuard ·) (fun _ d' => d.SameGuard d') c d := by
    refine hc.upholds (fun o s x s' ho hs hw => ?_) ⟨rfl, rfl⟩
    have hn := handler_neutral env s ho
    rw [hw] at hn
    exact hs.trans hn
  refine Upholds.bind ((hframe.weaken fun s => hd.of_sameGuard).mono fun r d' hd' => ?_)
  rcases r with e | a
  · exact e.elim
  · exact hf a d' hd'

theorem keepsSafe_neutral {c : Cmd α} (hc : Only Op.Neutral c) (hd : Safe d) : KeepsSafe env c d := by
  refine hc.upholds (fun o s x s' ho hs hw => ?_) hd
  have hn := handler_neutral env s ho
  rw [hw] at hn
  exact hs.of_sameGuard hn

theorem KeepsSafe.after_get {f : Text → Cmd β} {key : String} (hd : Safe d)
    (hf : ∀ d', d.SameGuard d' → KeepsSafe env (f (d.get key)) d') :
    KeepsSafe env (stateGet key >>= f) d := by
  refine ⟨hd, fun x d' hw => ?_⟩
  obtain ⟨rfl, rfl⟩ := Prod.mk.inj hw
  exact hf _ ⟨rfl, rfl⟩

theorem KeepsSafe.after_op {o : Op} {f : o.Answer → Cmd β} (hd : Safe d)
    (hf : KeepsSafe env (f (handler env o d).1) (handler env o d).2) :
    KeepsSafe env (ask o >>= f) d := by
  refine ⟨hd, fun x d' hw => ?_⟩
  rw [hw] at hf
  exact hf

theorem Op.Outside.neutral {o : Op} (h : o.Outside) : o.Neutral := by
  cases o with
  | stateSet | stateUnset | reboot => exact h
  | _ => trivial

theorem keepsSafe_confirmUpdate (pending : Text) (hd : Safe d) :
    KeepsSafe env (confirmUpdate pending) d := by
  rw [confirmUpdate]
  split
  · refine KeepsSafe.after_op hd ?_
    have hu : Safe (d.unset pendingKey) := hd.unset_pending
    have hd₁ : Safe (handler env (.stateUnset pendingKey) d).2 := hu.of_sameGuard ⟨rfl, rfl⟩
    refine ⟨hd₁, fun x d' hw => ?_⟩
    obtain ⟨-, rfl⟩ := Prod.mk.inj hw
    have hu₂ := hu.unset_attempted (Disk.get_unset_self d _)
    exact keepsSafe_pure () (hu₂.of_sameGuard ⟨rfl, rfl⟩)
  · exact keepsSafe_pure () hd

/-- The reboot follows the attempt put on record, and there was none since the update. -/
theorem keepsSafe_rollback {pending : Text} (hd : Safe d) (hp : d.get pendingKey = pending)
    (hne : pending ≠ []) (ha : d.get attemptedKey ≠ ['1']) :
    KeepsSafe env (rollback pending) d := by
  have hj : ¬ JustRebooted d.events := fun hj =>
    (hd.guarded hj).elim ha fun h => hne (hp.symm.trans h)
  refine KeepsSafe.after_neutral (only_log _ trivial) hd fun _ d₁ h₁ =>
    KeepsSafe.after_neutral (only_ask trivial) (hd.of_sameGuard h₁) fun lines d₂ h₂ =>
    KeepsSafe.after_neutral ((only_rollbackPackages pending lines).mono fun _ => Op.Outside.neutral)
      (hd.of_sameGuard (h₁.trans h₂)) fun r d₃ h₃ => ?_
  have h : d.SameGuard d₃ := (h₁.trans h₂).trans h₃
  obtain ⟨reverted, unavailable⟩ := r
  have hd₃ : Safe d₃ := hd.of_sameGuard h
  refine KeepsSafe.after_op hd₃ (KeepsSafe.after_neutral (only_ask trivial) ?_ fun _ d₄ h₄ => ?_)
  · exact (hd₃.set_attempted (.inl rfl)).of_sameGuard ⟨rfl, rfl⟩
  have hset : (d₃.set attemptedKey ['1']).SameGuard d₄ := h₄
  have hd₄ : Safe d₄ := (hd₃.set_attempted (.inl rfl)).of_sameGuard hset
  split
  · refine KeepsSafe.after_neutral (only_log _ trivial) hd₄ fun _ d₅ h₅ => ?_
    have hset₅ : (d₃.set attemptedKey ['1']).SameGuard d₅  := hset.trans h₅
    have hd₅ : Safe d₅ := hd₄.of_sameGuard h₅
    have hpending : d₅.get pendingKey = pending := by
      rw [hset₅.get, Disk.get_set_ne _ _ (by decide), h.get, hp]
    have hattempted : d₅.get attemptedKey = ['1'] := by
      rw [hset₅.get, Disk.get_set_self]
    have hj₅ : ¬ JustRebooted d₅.events := by
      rw [hset₅.2]
      exact fun hj' => hj (h.2 ▸ hj')
    refine ⟨hd₅, fun x d₆ hw => ?_⟩
    obtain ⟨-, rfl⟩ := Prod.mk.inj hw
    refine keepsSafe_pure () ⟨hd₅.history.rebooted hj₅ (hpending ▸ hne), fun _ => .inl hattempted⟩
  · exact keepsSafe_neutral (only_log _ trivial) hd₄

theorem keepsSafe_cmdBootCheck (hd : Safe d) : KeepsSafe env cmdBootCheck d := by
  refine KeepsSafe.after_neutral (only_ask trivial) hd fun port d₁ h₁ =>
    KeepsSafe.after_neutral (only_pollHealthy (fun _ => trivial) _ _) (hd.of_sameGuard h₁) fun healthy d₂ h₂ =>
    KeepsSafe.after_get (hd.of_sameGuard (h₁.trans h₂)) fun d₃ h₃ => ?_
  have hd₃ : Safe d₃ := hd.of_sameGuard ((h₁.trans h₂).trans h₃)
  split
  · refine (keepsSafe_confirmUpdate _ hd₃).bind fun _ d₄ hd₄ => keepsSafe_neutral ?_ hd₄
    split
    · exact only_log _ trivial
    · trivial
  · refine KeepsSafe.after_neutral (only_log _ trivial) hd₃ fun _ d₄ h₄ =>
      KeepsSafe.after_neutral (only_ask trivial) (hd₃.of_sameGuard h₄) fun _ d₅ h₅ =>
      KeepsSafe.after_neutral (only_pollHealthy (fun _ => trivial) _ _) (hd₃.of_sameGuard (h₄.trans h₅))
        fun restartHealthy d₆ h₆ => ?_
    have h : d₃.SameGuard d₆ := (h₄.trans h₅).trans h₆
    have hd₆ : Safe d₆ := hd₃.of_sameGuard h
    split
    · exact KeepsSafe.after_neutral (only_log _ trivial) hd₆ fun _ d₇ h₇ =>
        keepsSafe_confirmUpdate _ (hd₆.of_sameGuard h₇)
    · refine KeepsSafe.after_get hd₆ fun d₇ h₇ => ?_
      have hd₇ : Safe d₇ := hd₆.of_sameGuard h₇
      split
      · next hdue =>
        refine KeepsSafe.after_neutral (only_ask trivial) hd₇ fun isFile d₈ h₈ => ?_
        have hpending : d₈.get pendingKey = d₂.get pendingKey :=
          (h₃.trans (h.trans (h₇.trans h₈))).get _
        have hattempted : d₈.get attemptedKey ≠ ['1'] := by
          rw [(h₇.trans h₈).get]
          exact hdue.2
        dsimp only
        split
        · exact keepsSafe_rollback (hd₇.of_sameGuard h₈) hpending hdue.1 hattempted
        · exact keepsSafe_neutral (Only.bind (only_ask trivial) fun _ => only_log _ trivial)
            (hd₇.of_sameGuard h₈)
      · change KeepsSafe env (ask (.alert _) >>= fun _ => giveUp) d₇
        exact keepsSafe_neutral (Only.bind (only_ask trivial) fun _ => only_log _ trivial) hd₇

theorem keepsSafe_takeSnapshot (dir : Text) (hd : Safe d) : KeepsSafe env (takeSnapshot dir) d := by
  refine KeepsSafe.after_neutral (only_ask trivial) hd fun _ d₁ h₁ =>
    KeepsSafe.after_neutral (only_ask trivial) (hd.of_sameGuard h₁) fun plan d₂ h₂ => ?_
  have hd₂ : Safe d₂ := hd.of_sameGuard (h₁.trans h₂)
  cases plan with
  | none =>
    exact keepsSafe_neutral (Only.bind (only_log _ trivial) fun _ => Only.bind (only_ask trivial) fun _ =>
      trivial) hd₂
  | some plan =>
    refine KeepsSafe.after_neutral (only_ask trivial) hd₂ fun _ d₃ h₃ => ?_
    have hd₃ : Safe d₃ := hd₂.of_sameGuard h₃
    dsimp only
    cases instNames plan with
    | nil => exact keepsSafe_neutral (Only.bind (only_ask trivial) fun _ => trivial) hd₃
    | cons pkg pkgs =>
      have hcopies : ∀ d, Only Op.Neutral (snapshotPackages d (pkg :: pkgs)) := fun d =>
        only_snapshotPackages (fun _ => trivial) (fun _ => trivial) (fun _ => trivial) _
      refine KeepsSafe.after_neutral (only_ask trivial) hd₃ fun _ d₄ h₄ => ?_
      refine KeepsSafe.after_neutral (hcopies _) (hd₃.of_sameGuard h₄) fun _ d₅ h₅ => ?_
      refine KeepsSafe.after_neutral (only_ask trivial) (hd₃.of_sameGuard (h₄.trans h₅)) fun _ d₆ h₆ => ?_
      -- with the update on record, clearing the attempt does no harm
      have hd₆ : Safe d₆ := hd₃.of_sameGuard ((h₄.trans h₅).trans h₆)
      have hrec := hd₆.set_pending dir
      refine KeepsSafe.after_op hd₆ (KeepsSafe.after_op (hrec.of_sameGuard ⟨rfl, rfl⟩) ?_)
      have hset := hrec.set_attempted (v := ['0'])
        (.inr (not_justRebooted_recorded d₆.events dir _))
      exact keepsSafe_neutral (Only.bind (only_log _ trivial) fun _ => trivial)
        (hset.of_sameGuard ⟨rfl, rfl⟩)

theorem keepsSafe_cmdOsUpdate (hd : Safe d) : KeepsSafe env cmdOsUpdate d := by
  refine KeepsSafe.after_neutral (only_ask trivial) hd fun updated d₁ h₁ => ?_
  have hd₁ : Safe d₁ := hd.of_sameGuard h₁
  split
  · refine KeepsSafe.after_neutral (only_ask trivial) hd₁ fun stamp d₂ h₂ =>
      (keepsSafe_takeSnapshot _ (hd₁.of_sameGuard h₂)).bind fun planned d₃ hd₃ => ?_
    split
    · exact keepsSafe_neutral (Only.bind (only_ask trivial) fun _ =>
        only_upgrade.mono fun _ => Op.Outside.neutral) hd₃
    · exact keepsSafe_pure 1 hd₃
  · exact keepsSafe_neutral (Only.bind (only_log _ trivial) fun _ => trivial) hd₁

/-! ## Whole histories -/

theorem KeepsSafe.runCmd {c : Cmd α} (h : KeepsSafe env c d) (powerLoss : Option ℕ) :
    Safe (runCmd env powerLoss c d) := by
  cases powerLoss with
  | none => exact h.exec
  | some n => exact h.cutOff n

theorem Occasion.run_safe (o : Occasion) (hd : Safe d) : Safe (o.run d) := by
  rw [Occasion.run]
  cases o.job with
  | bootCheck => exact (keepsSafe_cmdBootCheck hd).runCmd _
  | osUpdate => exact (keepsSafe_cmdOsUpdate hd).runCmd _

theorem runAll_safe (os : List Occasion) (hd : Safe d) : Safe (runAll os d) := by
  induction os generalizing d with
  | nil => exact hd
  | cons o os ih => exact ih (o.run_safe hd)

theorem safe_of_no_events (h : d.events = []) : Safe d := by
  refine ⟨h ▸ ⟨fun s hs _ => ?_, fun p hp => absurd hp (List.not_mem_nil)⟩, fun hj => ?_⟩
  · simp [List.infix_nil.mp hs]
  · obtain ⟨before, p, hb⟩ := hj
    simp [h] at hb

/-- However the commands turn out and wherever the power goes, the device does not reboot
again and again. -/
theorem no_reboot_loop (os : List Occasion) (d : Disk) :
    NoRebootLoop (runAll os { d with events := [] }).events :=
  (runAll_safe os (safe_of_no_events rfl)).history

end Maintenance
