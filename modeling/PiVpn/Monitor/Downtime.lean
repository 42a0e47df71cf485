import PiVpn.Lib.Transition
import PiVpn.Monitor.Heartbeat

/-! What the application reports as the last downtime, over ticks, restarts of its process
and reboots. The comparison of a boot is remembered by the process and by the state file;
it is made again where the first forgets it before the second has it. -/

namespace Monitor
open Transition

/-- The state file and the process; with the boot times so far, the figure that this boot
is due, and how often a tick took it for a new one. -/
structure World where
  file : State
  globals : Globals
  boot : Int
  boots : List Int
  settled : Option Json
  counted : Nat

inductive Event where
  | tick (synced : Bool) (now : Int) (saves : Bool)
  | restart
  | reboot (boot : Int)
  deriving DecidableEq

/-- The figure of a boot: the time since the instant saved last, where an earlier boot is
on record. -/
def dueFigure (iso : Iso) (now : Int) (s : State) : Json :=
  if isNull (Json.get s lastBootTime) then .null
  else match iso.read (Json.get s lastSeen) with
    | some seen => downtime now seen
    | none => .null

/-- This tick takes the boot for a new one. -/
def World.counts (w : World) : Bool := !w.globals.bootComparisonDone && isReboot w.boot w.file

/-- The history of a synced tick. -/
def World.observe (iso : Iso) (now : Int) (w : World) : World :=
  { w with
    settled := some (w.settled.getD (dueFigure iso now w.file)),
    counted := w.counted + w.counts.toNat }

def step (iso : Iso) (e : Event) (w : World) : Option World :=
  match e with
  | .tick false _ _ => some w
  | .tick true now saves =>
    match heartbeatTick iso now w.boot w.globals w.file with
    | none => some (w.observe iso now)
    | some (g, s) => some { w.observe iso now with globals := g, file := if saves then s else w.file }
  | .restart => some { w with globals := .initial }
  | .reboot boot => some ⟨w.file, .initial, boot, boot :: w.boots, none, 0⟩

/-- The process reports the figure of its boot, and no tick counted the boot twice. -/
def ReportsDowntime (w : World) : Prop :=
  (w.globals.bootComparisonDone = true → w.settled = some w.globals.lastDowntimeSeconds) ∧ w.counted ≤ 1

/-- Each boot has a time of its own. -/
def OwnBootTime (e : Event) (w : World) : Prop := ∀ boot, e = .reboot boot → boot ∉ w.boots

/-- The comparison is made, but the state file still holds an earlier boot. -/
def World.unsaved (w : World) : Bool :=
  w.globals.bootComparisonDone && (!isNull (Json.get w.file lastBootTime) &&
    !isInt (Json.get w.file lastBootTime) w.boot)

/-- The process does not restart before its comparison is saved. -/
def SavedBeforeRestart (e : Event) (w : World) : Prop := e = .restart → w.unsaved = false

variable {iso : Iso} {w w' : World} {e : Event}

/-! ## The invariant -/

/-- What the state file says about the boot. -/
structure Consistent (iso : Iso) (w : World) : Prop where
  seen : isNull (Json.get w.file lastBootTime) = false →
    ∃ b ∈ w.boots, ∃ t, Json.get w.file lastBootTime = .int b ∧
      Json.get w.file lastSeen = .str (iso.isoformat t)
  current : w.boot ∈ w.boots
  first : w.settled = none → w.globals.bootComparisonDone = false ∧ w.counted = 0 ∧
    isInt (Json.get w.file lastBootTime) w.boot = false
  reported : ∀ f, w.settled = some f → w.globals.bootComparisonDone = true →
    w.globals.lastDowntimeSeconds = f
  saved : ∀ f, w.settled = some f → isInt (Json.get w.file lastBootTime) w.boot = true →
    Json.get w.file lastDowntime = f
  unknown : ∀ f, w.settled = some f → isNull (Json.get w.file lastBootTime) = true → f = .null
  restarted : ∀ f, w.settled = some f → w.globals.bootComparisonDone = false →
    isInt (Json.get w.file lastBootTime) w.boot = true ∨ isNull (Json.get w.file lastBootTime) = true
  once : w.counted ≤ 1

theorem Consistent.reportsDowntime (h : Consistent iso w) : ReportsDowntime w := by
  refine ⟨fun hdone => ?_, h.once⟩
  cases hs : w.settled with
  | none => rw [(h.first hs).1] at hdone; cases hdone
  | some f => rw [h.reported f hs hdone]

theorem Consistent.current_of_isInt (h : Consistent iso w)
    (hb : isInt (Json.get w.file lastBootTime) w.boot = true) : w.settled ≠ none := by
  intro hs
  rw [(h.first hs).2.2] at hb
  cases hb

theorem get_compared (iso : Iso) (s : State) (boot now : Int) :
    Json.get (Dict.put (Dict.put s lastBootTime (.int boot)) lastSeen (.str (iso.isoformat now)))
        lastBootTime = .int boot ∧
      Json.get (Dict.put (Dict.put s lastBootTime (.int boot)) lastSeen (.str (iso.isoformat now)))
        lastSeen = .str (iso.isoformat now) ∧
      Json.get (Dict.put (Dict.put s lastBootTime (.int boot)) lastSeen (.str (iso.isoformat now)))
        lastDowntime = Json.get s lastDowntime := by
  refine ⟨?_, get_put_self _ _ _, ?_⟩
  · rw [get_put_ne _ _ (by decide), get_put_self]
  · rw [get_put_ne _ _ (by decide), get_put_ne _ _ (by decide)]

/-- The first comparison of a boot gives its figure, and a later one gives it again. -/
theorem Consistent.compareBoot (h : Consistent iso w) (now : Int)
    (hdone : w.globals.bootComparisonDone = false) :
    ∃ s, compareBoot iso now w.boot w.file = some (w.settled.getD (dueFigure iso now w.file), s) ∧
      Json.get s lastDowntime = w.settled.getD (dueFigure iso now w.file) ∧
      (isReboot w.boot w.file = true → w.settled = none) := by
  rw [Monitor.compareBoot]
  by_cases hnull : isNull (Json.get w.file lastBootTime) = true
  · have hfigure : w.settled.getD (dueFigure iso now w.file) = .null := by
      cases hs : w.settled with
      | none => rw [Option.getD_none, dueFigure, if_pos hnull]
      | some f => rw [Option.getD_some, h.unknown f hs hnull]
    rw [if_pos hnull, hfigure]
    refine ⟨_, rfl, get_put_self _ _ _, fun hr => ?_⟩
    rw [isReboot, hnull] at hr
    cases hr
  · rw [Bool.not_eq_true] at hnull
    obtain ⟨b, hb, t, hboot, hseen⟩ := h.seen hnull
    rw [if_neg (by simp [hnull])]
    have htruthy : Json.truthy (Json.get w.file lastSeen) = true := by
      rw [hseen]
      exact decide_eq_true (iso.nonempty t)
    have hread : iso.read (Json.get w.file lastSeen) = some t := by
      rw [hseen]
      exact iso.read_back t
    cases hsame : isInt (Json.get w.file lastBootTime) w.boot with
    | true =>
      have hnot : isReboot w.boot w.file = false := by rw [isReboot, hsame, hnull]; rfl
      rw [hnot]
      cases hs : w.settled with
      | none => exact absurd hs (h.current_of_isInt hsame)
      | some f =>
        have hf := h.saved f hs hsame
        exact ⟨w.file, by simp [hf], hf, by simp⟩
    | false =>
      have hyes : isReboot w.boot w.file = true := by rw [isReboot, hsame, hnull, htruthy]; rfl
      -- an earlier boot is on record, so the comparison of this one is still to come
      have hs : w.settled = none := by
        cases hs : w.settled with
        | none => rfl
        | some f =>
          rcases h.restarted f hs hdone with hr | hr
          · rw [hsame] at hr; cases hr
          · rw [hnull] at hr; cases hr
      have hdue : dueFigure iso now w.file = downtime now t := by
        rw [dueFigure, hnull, hread]
        rfl
      rw [hyes, hs, hread, Option.getD_none, hdue]
      exact ⟨_, rfl, get_put_self _ _ _, fun _ => rfl⟩

/-- A tick after the comparison moves the last instant on, if it saves at all. -/
theorem Consistent.tick_done (h : Consistent iso w) (now : Int) (saves : Bool)
    (hdone : w.globals.bootComparisonDone = true) :
    Consistent iso { w.observe iso now with
      file := if saves then Dict.put w.file lastSeen (.str (iso.isoformat now)) else w.file } := by
  have hcounts : w.counts = false := by rw [World.counts, hdone]; rfl
  obtain ⟨f, hf⟩ : ∃ f, w.settled = some f := by
    cases hs : w.settled with
    | none => rw [(h.first hs).1] at hdone; cases hdone
    | some f => exact ⟨f, rfl⟩
  -- the comparison is done, so there is nothing left to observe
  have hobserve : w.observe iso now = w := by
    have hsame : some (w.settled.getD (dueFigure iso now w.file)) = w.settled := by rw [hf]; rfl
    rw [World.observe, hcounts, hsame]
    rfl
  rw [hobserve]
  cases saves with
  | false => exact h
  | true =>
    have hboot : Json.get (Dict.put w.file lastSeen (.str (iso.isoformat now))) lastBootTime =
        Json.get w.file lastBootTime := get_put_ne _ _ (by decide)
    have hdown : Json.get (Dict.put w.file lastSeen (.str (iso.isoformat now))) lastDowntime =
        Json.get w.file lastDowntime := get_put_ne _ _ (by decide)
    refine ⟨?_, h.current, ?_, h.reported, ?_, ?_, ?_, h.once⟩
    · intro hn
      rw [if_pos rfl, hboot] at hn
      obtain ⟨b, hb, -, hbt, -⟩ := h.seen hn
      exact ⟨b, hb, now, hboot.trans hbt, get_put_self _ _ _⟩
    all_goals simp only [if_true, hboot, hdown]
    · exact h.first
    · exact h.saved
    · exact h.unknown
    · exact h.restarted

theorem Consistent.tick_compares (h : Consistent iso w) (now : Int) (saves : Bool)
    (hdone : w.globals.bootComparisonDone = false) {s : State}
    (hdown : Json.get s lastDowntime = w.settled.getD (dueFigure iso now w.file))
    (hnew : isReboot w.boot w.file = true → w.settled = none) :
    Consistent iso { w.observe iso now with
      globals := ⟨w.settled.getD (dueFigure iso now w.file), true⟩
      file := if saves then
        Dict.put (Dict.put s lastBootTime (.int w.boot)) lastSeen (.str (iso.isoformat now)) else w.file } := by
  have honce : w.counted + w.counts.toNat ≤ 1 := by
    rw [World.counts, hdone]
    cases hr : isReboot w.boot w.file with
    | true => rw [(h.first (hnew hr)).2.1]; rfl
    | false => exact h.once
  have hsettled : ∀ f, some (w.settled.getD (dueFigure iso now w.file)) = some f →
      w.settled.getD (dueFigure iso now w.file) = f := fun f hf => Option.some.inj hf
  cases saves with
  | true =>
    obtain ⟨hboot, hseen, hkeep⟩ := get_compared iso s w.boot now
    refine ⟨fun _ => ⟨w.boot, h.current, now, hboot, hseen⟩, h.current, ?_, ?_, ?_, ?_, ?_, honce⟩
    · simp [World.observe]
    · exact fun f hf _ => hsettled f hf
    · exact fun f hf _ => (hkeep.trans hdown).trans (hsettled f hf)
    · intro f hf hn
      rw [if_pos rfl, hboot] at hn
      cases hn
    · exact fun f hf hd => by cases hd
  -- a comparison that is not saved leaves the file with what an earlier one has settled
  | false =>
    refine ⟨h.seen, h.current, ?_, ?_, ?_, ?_, ?_, honce⟩
    · simp [World.observe]
    · exact fun f hf _ => hsettled f hf
    · intro f hf hb
      obtain ⟨f', hf'⟩ := Option.ne_none_iff_exists'.mp (h.current_of_isInt hb)
      have hsame := hsettled f hf
      rw [hf', Option.getD_some] at hsame
      exact (h.saved f' hf' hb).trans hsame
    · intro f hf hn
      change isNull (Json.get w.file lastBootTime) = true at hn
      have hsame := hsettled f hf
      cases hs : w.settled with
      | none =>
        rw [hs, Option.getD_none, dueFigure, if_pos hn] at hsame
        exact hsame.symm
      | some f' =>
        rw [hs, Option.getD_some] at hsame
        exact hsame ▸ h.unknown f' hs hn
    · exact fun f hf hd => by cases hd

theorem Consistent.step {w' : World} (h : Consistent iso w) (hown : OwnBootTime e w)
    (hsaved : SavedBeforeRestart e w) (hstep : Monitor.step iso e w = some w') : Consistent iso w' := by
  cases e with
  | tick synced now saves =>
    cases synced with
    | false => exact Option.some.inj hstep ▸ h
    | true =>
      rw [Monitor.step, heartbeatTick] at hstep
      cases hdone : w.globals.bootComparisonDone with
      | true =>
        rw [hdone] at hstep
        exact Option.some.inj hstep ▸ h.tick_done now saves hdone
      | false =>
        obtain ⟨s, hs, hdown, hnew⟩ := h.compareBoot now hdone
        rw [hdone, hs] at hstep
        exact Option.some.inj hstep ▸ h.tick_compares now saves hdone hdown hnew
  -- a restart forgets the figure unless it was saved
  | restart =>
    have hs := hsaved rfl
    refine Option.some.inj hstep ▸ ⟨h.seen, h.current, fun hn => ⟨rfl, (h.first hn).2⟩, ?_, h.saved,
      h.unknown, fun f hf _ => ?_, h.once⟩
    · exact fun f hf hd => by cases hd
    · cases hdone : w.globals.bootComparisonDone with
      | false => exact h.restarted f hf hdone
      | true =>
        rw [World.unsaved, hdone] at hs
        simp only [Bool.true_and, Bool.and_eq_false_iff, Bool.not_eq_false'] at hs
        exact hs.symm
  | reboot boot =>
    have hfresh := hown boot rfl
    refine Option.some.inj hstep ▸ ⟨fun hn => ?_, List.mem_cons_self, fun _ => ⟨rfl, rfl, ?_⟩, ?_, ?_, ?_, ?_,
      Nat.zero_le 1⟩
    · obtain ⟨b, hb, t, hbt, hseen⟩ := h.seen hn
      exact ⟨b, List.mem_cons_of_mem _ hb, t, hbt, hseen⟩
    · -- the boot on record is an earlier one
      cases hn : isNull (Json.get w.file lastBootTime) with
      | true =>
        cases hj : Json.get w.file lastBootTime with
        | null => rfl
        | _ => rw [hj] at hn; cases hn
      | false =>
        obtain ⟨b, hb, -, hbt, -⟩ := h.seen hn
        rw [hbt]
        exact decide_eq_false fun heq : b = boot => hfresh (heq ▸ hb)
    all_goals exact fun f hf => by cases hf

/-! ## Whole runs -/

/-- A device before its first synced tick, with no entry of the application in the file. -/
structure World.Fresh (w : World) : Prop where
  file : ∀ key ∈ appKeys, Json.get w.file key = .null
  globals : w.globals = .initial
  boots : w.boots = [w.boot]
  settled : w.settled = none
  counted : w.counted = 0

theorem World.Fresh.consistent (h : w.Fresh) : Consistent iso w := by
  have hboot : Json.get w.file lastBootTime = .null := h.file _ (by decide)
  refine ⟨fun hn => ?_, by rw [h.boots]; exact List.mem_singleton_self _,
    fun _ => ⟨by rw [h.globals]; rfl, h.counted, by rw [hboot]; rfl⟩, ?_, ?_, ?_, ?_,
    by rw [h.counted]; exact Nat.zero_le 1⟩
  · rw [hboot] at hn
    cases hn
  all_goals exact fun f hf => by rw [h.settled] at hf; cases hf

/-- Where every comparison is saved before the process restarts, the process reports the
downtime of its boot, and reports it for the whole boot. -/
theorem runs_report_downtime {es : List Event} (hfresh : w.Fresh)
    (hown : Along (step iso) OwnBootTime es w) (hsaved : Along (step iso) SavedBeforeRestart es w)
    (hrun : steps (step iso) es w = some w') : ReportsDowntime w' :=
  ((hown.and hsaved).invariant (fun _ _ _ he hstep hc => Consistent.step hc he.1 he.2 hstep) hrun
    hfresh.consistent).reportsDowntime

def sampleWorld : World where
  file := [("pending_update_backup", .str "")]
  globals := .initial
  boot := 1704067100
  boots := [1704067100]
  settled := none
  counted := 0

theorem sampleWorld_fresh : sampleWorld.Fresh := by
  refine ⟨fun key hkey => ?_, rfl, rfl, rfl, rfl⟩
  fin_cases hkey <;> rfl

instance (e : Event) (w : World) : Decidable (SavedBeforeRestart e w) :=
  inferInstanceAs (Decidable (_ → _))

instance (e : Event) (w : World) : Decidable (OwnBootTime e w) :=
  match e with
  | .reboot boot => decidable_of_iff (boot ∉ w.boots)
      ⟨fun h b hb => by cases hb; exact h, fun h => h boot rfl⟩
  | .tick _ _ _ => .isTrue fun _ h => by cases h
  | .restart => .isTrue fun _ h => by cases h

/-- The device was off for an hour; the process restarts after the comparison is saved. -/
def sampleEvents : List Event :=
  [.tick true 1704067200000000 true, .reboot 1704070700, .tick false 0 true,
    .tick true 1704070800000000 true, .restart, .tick true 1704070860000000 true]

theorem sample_run_reports_downtime :
    ∃ w, steps (step sampleIso) sampleEvents sampleWorld = some w ∧
      isInt w.globals.lastDowntimeSeconds 3600000000 = true ∧ ReportsDowntime w := by
  have hrun : ∃ w, steps (step sampleIso) sampleEvents sampleWorld = some w ∧
      isInt w.globals.lastDowntimeSeconds 3600000000 = true := ⟨_, rfl, by decide +kernel⟩
  obtain ⟨w, hw, hfigure⟩ := hrun
  exact ⟨w, hw, hfigure, runs_report_downtime sampleWorld_fresh (by decide +kernel)
    (by decide +kernel) hw⟩

/-- The comparison fails to save, the next tick saves, and the process restarts: it counts
the boot once more, and reports a minute in place of the hour. -/
theorem unsaved_comparison_counts_twice :
    ¬ ∀ (iso : Iso) (w w' : World) (es : List Event), w.Fresh → Along (step iso) OwnBootTime es w →
      steps (step iso) es w = some w' → ReportsDowntime w' := by
  intro h
  let es : List Event := [.tick true 1704067200000000 true, .reboot 1704070700,
    .tick true 1704070800000000 false, .tick true 1704070860000000 true, .restart,
    .tick true 1704070920000000 true]
  have hrun : ∃ w, steps (step sampleIso) es sampleWorld = some w ∧ w.counted = 2 :=
    ⟨_, rfl, by decide +kernel⟩
  obtain ⟨w, hw, hcounted⟩ := hrun
  have hreports := (h sampleIso sampleWorld w es sampleWorld_fresh (by decide +kernel) hw).2
  rw [hcounted] at hreports
  exact absurd hreports (by decide)

end Monitor
