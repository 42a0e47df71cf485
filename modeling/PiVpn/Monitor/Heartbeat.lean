import PiVpn.Lib.Dict
import PiVpn.Python.Json

/-! The heartbeat of the application: what one tick makes of the state file and of the
globals of its module. -/

namespace Monitor

/-- `state.json`. -/
abbrev State := List (String × Json)

/-- Instants, in microseconds, as `datetime` prints and reads them. -/
structure Iso where
  isoformat : Int → String
  fromisoformat : String → Option Int
  nonempty : ∀ t, isoformat t ≠ ""
  read_back : ∀ t, fromisoformat (isoformat t) = some t

/-- The globals of the module; `None` is the null. -/
structure Globals where
  lastDowntimeSeconds : Json
  bootComparisonDone : Bool

def Globals.initial : Globals := ⟨.null, false⟩

def lastSeen : String := "last_seen"
def lastBootTime : String := "last_boot_time"
def lastDowntime : String := "last_downtime_seconds"

/-- The keys of the application. -/
def appKeys : List String := [lastSeen, lastBootTime, lastDowntime]

def isNull : Json → Bool
  | .null => true
  | _ => false

def isInt (x : Json) (n : Int) : Bool :=
  match x with
  | .int m => m = n
  | _ => false

/-- `datetime.fromisoformat` takes a text only. -/
def Iso.read (iso : Iso) : Json → Option Int
  | .str s => iso.fromisoformat s
  | _ => none

/-- A boot other than the one on record. -/
def isReboot (boot : Int) (s : State) : Bool :=
  !isNull (Json.get s lastBootTime) && (!isInt (Json.get s lastBootTime) boot && Json.truthy (Json.get s lastSeen))

/-- `max((now - last_seen).total_seconds(), 0)`. -/
def downtime (now seen : Int) : Json := .int (max (now - seen) 0)

/-- The comparison that each process makes once: the figure it reports from then on, and
the state; nothing where the last instant cannot be read. -/
def compareBoot (iso : Iso) (now boot : Int) (s : State) : Option (Json × State) :=
  if isNull (Json.get s lastBootTime) then
    some (.null, Dict.put s lastDowntime .null)
  else if isReboot boot s then
    (iso.read (Json.get s lastSeen)).map fun seen =>
      (downtime now seen, Dict.put s lastDowntime (downtime now seen))
  else some (Json.get s lastDowntime, s)

/-- `_heartbeat_tick` after the clock is right, up to the save; nothing where it raises. -/
def heartbeatTick (iso : Iso) (now boot : Int) (g : Globals) (s : State) : Option (Globals × State) :=
  if g.bootComparisonDone then
    some (g, Dict.put s lastSeen (.str (iso.isoformat now)))
  else
    (compareBoot iso now boot s).map fun r =>
      (⟨r.1, true⟩, Dict.put (Dict.put r.2 lastBootTime (.int boot)) lastSeen (.str (iso.isoformat now)))

variable {iso : Iso} {now boot : Int} {g g' : Globals} {s s' : State}

theorem get_put (s : State) (key k : String) (v : Json) :
    Json.get (Dict.put s key v) k = if k = key then v else Json.get s k := by
  rw [Json.get, Dict.lookup_put]
  split <;> rfl

@[simp] theorem get_put_self (s : State) (key : String) (v : Json) :
    Json.get (Dict.put s key v) key = v := by
  rw [get_put, if_pos rfl]

theorem get_put_ne (s : State) {key k : String} (v : Json) (h : k ≠ key) :
    Json.get (Dict.put s key v) k = Json.get s k := by
  rw [get_put, if_neg h]

theorem heartbeatTick_others (h : heartbeatTick iso now boot g s = some (g', s')) {k : String}
    (hk : k ∉ appKeys) : s'.lookup k = s.lookup k := by
  have hseen : k ≠ lastSeen := fun he => hk (he ▸ by decide)
  have hboot : k ≠ lastBootTime := fun he => hk (he ▸ by decide)
  have hdown : k ≠ lastDowntime := fun he => hk (he ▸ by decide)
  rw [heartbeatTick] at h
  split at h
  · obtain ⟨-, rfl⟩ := Prod.mk.inj (Option.some.inj h)
    exact Dict.lookup_put_ne _ _ hseen
  · obtain ⟨⟨x, s₁⟩, hcompare, heq⟩ := Option.map_eq_some_iff.mp h
    obtain ⟨-, rfl⟩ := Prod.mk.inj heq
    rw [Dict.lookup_put_ne _ _ hseen, Dict.lookup_put_ne _ _ hboot]
    rw [compareBoot] at hcompare
    split at hcompare
    · obtain ⟨-, rfl⟩ := Prod.mk.inj (Option.some.inj hcompare)
      exact Dict.lookup_put_ne _ _ hdown
    · split at hcompare
      · obtain ⟨seen, -, heq⟩ := Option.map_eq_some_iff.mp hcompare
        obtain ⟨-, rfl⟩ := Prod.mk.inj heq
        exact Dict.lookup_put_ne _ _ hdown
      · obtain ⟨-, rfl⟩ := Prod.mk.inj (Option.some.inj hcompare)
        rfl

/-! ## Some instants -/

def isoTable : List (Int × String) :=
  [(1704067200000000, "2024-01-01T00:00:00+00:00"), (1704070800000000, "2024-01-01T01:00:00+00:00"),
    (1704070860000000, "2024-01-01T01:01:00+00:00"), (1704070920000000, "2024-01-01T01:02:00+00:00")]

/-- Any way to print the instants outside the table. -/
def unary (t : Int) : String :=
  String.ofList ((if t < 0 then 'n' else 'p') :: List.replicate t.natAbs '1')

def ofUnary (s : String) : Option Int :=
  match s.toList with
  | 'n' :: ds => some (-ds.length)
  | 'p' :: ds => some ds.length
  | _ => none

theorem ofUnary_unary (t : Int) : ofUnary (unary t) = some t := by
  rw [ofUnary, unary, String.toList_ofList]
  by_cases ht : t < 0
  · simp only [if_pos ht, List.length_replicate]
    congr 1
    omega
  · simp only [if_neg ht, List.length_replicate]
    congr 1
    omega

/-- The printed forms of the table are told apart from each other, and from the others. -/
theorem isoTable_read : ∀ e ∈ isoTable, e.2.toList.head? = some '2' ∧
    (isoTable.find? (·.2 = e.2)).map Prod.fst = some e.1 := by decide +kernel

theorem isoTable_unary (t : Int) : isoTable.find? (·.2 = unary t) = none := by
  refine List.find?_eq_none.mpr fun e he heq => ?_
  have hhead := (isoTable_read e he).1
  rw [of_decide_eq_true heq, unary, String.toList_ofList] at hhead
  split at hhead <;> exact absurd hhead (by simp)

def sampleIso : Iso where
  isoformat t := (isoTable.lookup t).getD (unary t)
  fromisoformat s := ((isoTable.find? (·.2 = s)).map Prod.fst).or (ofUnary s)
  nonempty t := by
    cases h : isoTable.lookup t with
    | none =>
      have hread := ofUnary_unary t
      intro hempty
      rw [Option.getD_none] at hempty
      rw [hempty] at hread
      cases hread
    | some s =>
      have hhead := (isoTable_read _ (Dict.mem_of_lookup h)).1
      rintro rfl
      simp at hhead
  read_back t := by
    cases h : isoTable.lookup t with
    | none => rw [Option.getD_none, isoTable_unary, ofUnary_unary]; rfl
    | some s => rw [Option.getD_some, (isoTable_read _ (Dict.mem_of_lookup h)).2]; rfl

end Monitor
