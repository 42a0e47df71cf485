import PiVpn.Lib.Dict
import PiVpn.Lib.Text

/-! The sensors the telemetry agent announces and the readings it sends for them. -/

namespace Monitor
open Text

/-! ## Names -/

/-- What Python provides: lower case, and numbers with their rounding. -/
structure Builtins (N : Type) where
  lower : Text → Text
  round : N → Nat → N

/-- `[a-z0-9_]`. -/
def isIdChar (c : Char) : Bool := c.isLower || c.isDigit || c = '_'

/-- `re.sub(r"[^a-z0-9_]+", "_", value)`; the flag is up inside a run. -/
def subRuns : Bool → Text → Text
  | _, [] => []
  | inRun, c :: value =>
    if isIdChar c then c :: subRuns false value
    else if inRun then subRuns true value
    else '_' :: subRuns true value

/-- `_slug`. -/
def Builtins.slug {N : Type} (py : Builtins N) (value : Text) : Text :=
  ((subRuns false (py.lower value)).rdropWhile (· = '_')).dropWhile (· = '_')

theorem subRuns_chars (inRun : Bool) (value : Text) : ∀ c ∈ subRuns inRun value, isIdChar c = true := by
  induction value generalizing inRun with
  | nil => exact fun _ hc => absurd hc List.not_mem_nil
  | cons x value ih =>
    rw [subRuns]
    split
    · next hx => exact List.forall_mem_cons.mpr ⟨hx, ih false⟩
    · split
      · exact ih true
      · exact List.forall_mem_cons.mpr ⟨rfl, ih true⟩

theorem Builtins.slug_chars {N : Type} (py : Builtins N) (value : Text) :
    ∀ c ∈ py.slug value, isIdChar c = true := by
  intro c hc
  apply subRuns_chars false (py.lower value)
  exact (List.rdropWhile_prefix _ _).subset ((List.dropWhile_suffix _).subset hc)

inductive Direction where
  | sent
  | recv
  deriving DecidableEq

def Direction.word : Direction → Text
  | .sent => "sent".toList
  | .recv => "recv".toList

def Direction.label : Direction → Text
  | .sent => "transmitted".toList
  | .recv => "received".toList

/-- The four quantities of an interface. -/
inductive Quantity where
  | bytes (direction : Direction)
  | rate (direction : Direction)
  deriving DecidableEq

def Quantity.suffix : Quantity → Text
  | .bytes direction => "_bytes_".toList ++ direction.word
  | .rate direction => '_' :: (direction.word ++ "_rate".toList)

section
variable {N : Type} (py : Builtins N)

def ifaceKey (iface : Text) (q : Quantity) : Text := py.slug iface ++ q.suffix

/-! ## Discovery -/

structure Sensor where
  name : Text
  valueTemplate : Text
  availabilityTemplate : Text
  availabilityTopic : Option Text
  stateClass : Option String
  unit : Option String
  deviceClass : Option String
  icon : Option String
  uniqueId : Option Text

def valueTemplate (key : Text) : Text := "\x7b\x7b value_json.".toList ++ (key ++ " \x7d\x7d".toList)

def availabilityTemplate (key : Text) : Text :=
  "\x7b\x7b 'online' if value_json.".toList ++ (key ++ " is not none else 'offline' \x7d\x7d".toList)

/-- `_sensor`. -/
def sensor (name key : Text) (unit deviceClass stateClass icon : Option String) : Sensor where
  name := name
  valueTemplate := valueTemplate key
  availabilityTemplate := availabilityTemplate key
  availabilityTopic := none
  stateClass := stateClass
  unit := unit
  deviceClass := deviceClass
  icon := icon
  uniqueId := none

def deviceSensor (name key : String) (unit deviceClass stateClass icon : Option String) : Text × Sensor :=
  (key.toList, sensor name.toList key.toList unit deviceClass stateClass icon)

/-- The sensors of the device as a whole. -/
def deviceSensors : List (Text × Sensor) :=
  [deviceSensor "CPU temperature" "cpu_temp_c" "°C" "temperature" "measurement" none,
    deviceSensor "CPU usage" "cpu_percent" "%" none "measurement" "mdi:cpu-64-bit",
    deviceSensor "Memory usage" "memory_percent" "%" none "measurement" "mdi:memory",
    deviceSensor "Memory used" "memory_used_mb" "MB" "data_size" "measurement" none,
    deviceSensor "Disk usage" "disk_percent" "%" none "measurement" "mdi:harddisk",
    deviceSensor "Disk free" "disk_free_gb" "GB" "data_size" "measurement" none,
    deviceSensor "Uptime" "uptime_seconds" "s" "duration" "measurement" none,
    deviceSensor "Last boot" "last_boot" none "timestamp" none none,
    deviceSensor "Last downtime" "last_downtime_seconds" "s" "duration" none none]

def bytesSensor (iface : Text) (direction : Direction) : Sensor :=
  sensor (iface ++ ' ' :: direction.label) (ifaceKey py iface (.bytes direction))
    "B" "data_size" "total_increasing" none

def rateSensor (iface : Text) (direction : Direction) : Sensor :=
  sensor (iface ++ ' ' :: (direction.label ++ " rate".toList)) (ifaceKey py iface (.rate direction))
    "B/s" "data_rate" "measurement" none

/-- `_components`. -/
def components (interfaces : List Text) : List (Text × Sensor) :=
  interfaces.foldl (fun d iface =>
    [Direction.sent, Direction.recv].foldl (fun d direction =>
      Dict.put (Dict.put d (ifaceKey py iface (.bytes direction)) (bytesSensor py iface direction))
        (ifaceKey py iface (.rate direction)) (rateSensor py iface direction)) d) deviceSensors

def uniqueId (deviceId key : Text) : Text := deviceId ++ '_' :: key

def availabilityTopic (deviceId : Text) : Text :=
  "pi-telemetry/".toList ++ (deviceId ++ "/availability".toList)

/-- The components of `_discovery_payload`. -/
def discoveryComponents (deviceId : Text) (interfaces : List Text) : List (Text × Sensor) :=
  (components py interfaces).map fun e =>
    (e.1, { e.2 with
      uniqueId := uniqueId deviceId e.1
      availabilityTopic := availabilityTopic deviceId })

/-! ## Readings -/

inductive Value (N : Type) where
  | number (x : N)
  | text (t : Text)

/-- The counters of one interface in a sample. -/
structure Counters (N : Type) where
  bytesSent : N
  bytesRecv : N
  bytesSentPerSec : N
  bytesRecvPerSec : N

/-- What `collect` reads of the device as a whole. -/
structure Device (N : Type) where
  cpuTemp : Option N
  cpuPercent : N
  memoryPercent : N
  memoryUsedMb : N
  diskPercent : N
  diskFreeGb : N
  uptime : Option N
  boot : Option Text
  lastDowntime : Option (Value N)

/-- `_round`. -/
def roundTo (value : Option N) (digits : Nat) : Option (Value N) :=
  value.map fun x => .number (py.round x digits)

def deviceReadings (device : Device N) : List (Text × Option (Value N)) :=
  [("cpu_temp_c".toList, roundTo py device.cpuTemp 1),
    ("cpu_percent".toList, some (.number device.cpuPercent)),
    ("memory_percent".toList, some (.number device.memoryPercent)),
    ("memory_used_mb".toList, roundTo py (some device.memoryUsedMb) 1),
    ("disk_percent".toList, some (.number device.diskPercent)),
    ("disk_free_gb".toList, roundTo py (some device.diskFreeGb) 2),
    ("uptime_seconds".toList, roundTo py device.uptime 0),
    ("last_boot".toList, device.boot.map .text),
    ("last_downtime_seconds".toList, device.lastDowntime)]

/-- What is sent of a quantity: nothing where the interface is absent. -/
def reading (counters : Option (Counters N)) : Quantity → Option (Value N)
  | .bytes .sent => counters.map fun c => .number c.bytesSent
  | .bytes .recv => counters.map fun c => .number c.bytesRecv
  | .rate .sent => roundTo py (counters.map Counters.bytesSentPerSec) 1
  | .rate .recv => roundTo py (counters.map Counters.bytesRecvPerSec) 1

/-- `collect`. -/
def collect (device : Device N) (sample : List (Text × Counters N)) (interfaces : List Text) :
    List (Text × Option (Value N)) :=
  interfaces.foldl (fun payload iface =>
    let counters := sample.lookup iface
    [Quantity.bytes .sent, .bytes .recv, .rate .sent, .rate .recv].foldl (fun payload q =>
      Dict.put payload (ifaceKey py iface q) (reading py counters q)) payload) (deviceReadings py device)

/-! ## Keys -/

/-- No suffix ends in another, and no key of the device ends in one. -/
theorem suffix_eq_of_isSuffix : ∀ q r : Quantity, q.suffix <:+ r.suffix → q = r := by
  rintro (⟨_ | _⟩ | ⟨_ | _⟩) (⟨_ | _⟩ | ⟨_ | _⟩) <;> decide +kernel

def deviceKeys : List Text := deviceSensors.map Prod.fst

theorem deviceReadings_keys (device : Device N) : (deviceReadings py device).map Prod.fst = deviceKeys := rfl

theorem suffix_not_device : ∀ q : Quantity, ∀ key ∈ deviceKeys, ¬ q.suffix <:+ key := by
  rintro (⟨_ | _⟩ | ⟨_ | _⟩) <;> decide +kernel

variable {py} {i j : Text} {q r : Quantity}

theorem ifaceKey_eq_iff : ifaceKey py i q = ifaceKey py j r ↔ py.slug i = py.slug j ∧ q = r := by
  constructor
  · intro h
    -- both suffixes end the same key, so one of them ends the other
    have hr : r.suffix <:+ ifaceKey py i q := h ▸ List.suffix_append _ _
    have hqr : q = r := by
      rcases List.suffix_or_suffix_of_suffix (List.suffix_append _ _) hr with hqr | hrq
      · exact suffix_eq_of_isSuffix q r hqr
      · exact (suffix_eq_of_isSuffix r q hrq).symm
    subst hqr
    exact ⟨List.append_cancel_right h, rfl⟩
  · rintro ⟨hslug, rfl⟩
    rw [ifaceKey, ifaceKey, hslug]

theorem ifaceKey_not_device {key : Text} (hkey : key ∈ deviceKeys) : ifaceKey py i q ≠ key := by
  rintro rfl
  exact suffix_not_device q _ hkey (List.suffix_append _ _)

theorem uniqueId_injective (deviceId : Text) : Function.Injective (uniqueId deviceId) := by
  intro key key' h
  exact (List.cons.inj (List.append_cancel_left h)).2

/-! ## Both folds write one entry a key -/

variable (py) in
def ifaceSensor (iface : Text) : Quantity → Sensor
  | .bytes direction => bytesSensor py iface direction
  | .rate direction => rateSensor py iface direction

def quantities : List Quantity := [.bytes .sent, .bytes .recv, .rate .sent, .rate .recv]

theorem mem_quantities : ∀ q, q ∈ quantities := by
  rintro (⟨_ | _⟩ | ⟨_ | _⟩) <;> decide

variable (py) in
def entries {α : Type} (f : Text → Quantity → α) (order : List Quantity) (interfaces : List Text) :
    List (Text × α) :=
  interfaces.flatMap fun iface => order.map fun q => (ifaceKey py iface q, f iface q)

theorem components_eq (interfaces : List Text) :
    components py interfaces = Dict.putAll deviceSensors
      (entries py (ifaceSensor py) [.bytes .sent, .rate .sent, .bytes .recv, .rate .recv] interfaces) := by
  rw [Dict.putAll, entries, List.foldl_flatMap]
  rfl

theorem collect_eq (device : Device N) (sample : List (Text × Counters N)) (interfaces : List Text) :
    collect py device sample interfaces = Dict.putAll (deviceReadings py device)
      (entries py (fun iface => reading py (sample.lookup iface)) quantities interfaces) := by
  rw [Dict.putAll, entries, List.foldl_flatMap]
  rfl

theorem mem_keys_entries {α : Type} {f : Text → Quantity → α} {order : List Quantity} {interfaces : List Text}
    (horder : ∀ q, q ∈ order) {key : Text} :
    key ∈ (entries py f order interfaces).map Prod.fst ↔ ∃ i ∈ interfaces, ∃ q, ifaceKey py i q = key := by
  simp [entries, List.map_flatMap, horder]

theorem mem_announced (q : Quantity) : q ∈ [Quantity.bytes .sent, .rate .sent, .bytes .recv, .rate .recv] := by
  rcases q with ⟨_ | _⟩ | ⟨_ | _⟩ <;> decide

/-- What is announced is sent, and the other way round. -/
theorem mem_discovery_iff_mem_collect (deviceId : Text) (device : Device N) (sample : List (Text × Counters N))
    (interfaces : List Text) (key : Text) :
    key ∈ (discoveryComponents py deviceId interfaces).map Prod.fst ↔
      key ∈ (collect py device sample interfaces).map Prod.fst := by
  have hkeys : (discoveryComponents py deviceId interfaces).map Prod.fst =
      (components py interfaces).map Prod.fst := List.map_map
  rw [hkeys, components_eq, collect_eq, Dict.mem_keys_putAll, Dict.mem_keys_putAll,
    mem_keys_entries mem_announced, mem_keys_entries mem_quantities, deviceReadings_keys, deviceKeys]

theorem lookup_entries {α : Type} {f : Text → Quantity → α} {order : List Quantity} {interfaces : List Text}
    {d : List (Text × α)} (hslugs : (interfaces.map py.slug).Nodup) (hi : i ∈ interfaces) (hq : q ∈ order) :
    (Dict.putAll d (entries py f order interfaces)).lookup (ifaceKey py i q) = some (f i q) := by
  apply Dict.lookup_putAll_of_mem
  · exact List.mem_flatMap.mpr ⟨i, hi, List.mem_map_of_mem hq⟩
  · intro u hu
    obtain ⟨j, hj, hu⟩ := List.mem_flatMap.mp hu
    obtain ⟨r, -, he⟩ := List.mem_map.mp hu
    obtain ⟨hkey, rfl⟩ := Prod.mk.inj he
    obtain ⟨hslug, rfl⟩ := ifaceKey_eq_iff.mp hkey
    rw [List.inj_on_of_nodup_map hslugs hj hi hslug]

/-! ## Every interface its own sensors -/

variable (py) in
/-- A component of this name reads the value from what is sent. -/
structure Shows (deviceId : Text) (device : Device N) (sample : List (Text × Counters N))
    (interfaces : List Text) (key name : Text) (value : Option (Value N)) : Prop where
  announced : ∃ component, (discoveryComponents py deviceId interfaces).lookup key = some component ∧
    component.name = name ∧
    component.valueTemplate = "\x7b\x7b value_json.".toList ++ (key ++ " \x7d\x7d".toList) ∧
    component.uniqueId = some (uniqueId deviceId key)
  sent : (collect py device sample interfaces).lookup key = some value

variable (py) in
/-- The four sensors of an interface show its own bytes and rates, and nothing where it is
not in the sample. -/
structure OwnSensors (deviceId : Text) (device : Device N) (sample : List (Text × Counters N))
    (interfaces : List Text) (iface : Text) : Prop where
  bytesSent : Shows py deviceId device sample interfaces (ifaceKey py iface (.bytes .sent))
    (iface ++ " transmitted".toList) ((sample.lookup iface).map fun c => .number c.bytesSent)
  bytesRecv : Shows py deviceId device sample interfaces (ifaceKey py iface (.bytes .recv))
    (iface ++ " received".toList) ((sample.lookup iface).map fun c => .number c.bytesRecv)
  sentRate : Shows py deviceId device sample interfaces (ifaceKey py iface (.rate .sent))
    (iface ++ " transmitted rate".toList)
    ((sample.lookup iface).map fun c => .number (py.round c.bytesSentPerSec 1))
  recvRate : Shows py deviceId device sample interfaces (ifaceKey py iface (.rate .recv))
    (iface ++ " received rate".toList)
    ((sample.lookup iface).map fun c => .number (py.round c.bytesRecvPerSec 1))

variable (py) in
structure ItsOwnSensors (deviceId : Text) (device : Device N) (sample : List (Text × Counters N))
    (interfaces : List Text) : Prop where
  own : ∀ i ∈ interfaces, OwnSensors py deviceId device sample interfaces i
  four : ∀ i ∈ interfaces, ∀ q r, ifaceKey py i q = ifaceKey py i r → q = r
  apart : ∀ i ∈ interfaces, ∀ j ∈ interfaces, i ≠ j → ∀ q r, ifaceKey py i q ≠ ifaceKey py j r ∧
    uniqueId deviceId (ifaceKey py i q) ≠ uniqueId deviceId (ifaceKey py j r)
  device : ∀ i ∈ interfaces, ∀ q, ∀ key ∈ deviceKeys, ifaceKey py i q ≠ key ∧
    uniqueId deviceId (ifaceKey py i q) ≠ uniqueId deviceId key

variable {deviceId : Text} {device : Device N} {sample : List (Text × Counters N)} {interfaces : List Text}

theorem shows_of_slugs (hslugs : (interfaces.map py.slug).Nodup) (hi : i ∈ interfaces) (q : Quantity) :
    Shows py deviceId device sample interfaces (ifaceKey py i q) (ifaceSensor py i q).name
      (reading py (sample.lookup i) q) := by
  have hcomponent : (components py interfaces).lookup (ifaceKey py i q) = some (ifaceSensor py i q) := by
    rw [components_eq]
    exact lookup_entries hslugs hi (mem_announced q)
  have hannounced := Dict.lookup_map (components py interfaces) (fun key component => { component with
    uniqueId := uniqueId deviceId key
    availabilityTopic := availabilityTopic deviceId }) (ifaceKey py i q)
  rw [hcomponent] at hannounced
  refine ⟨⟨_, hannounced, rfl, ?_, rfl⟩, ?_⟩
  · cases q <;> rfl
  · rw [collect_eq]
    exact lookup_entries hslugs hi (mem_quantities q)

theorem ownSensors_of_slugs (hslugs : (interfaces.map py.slug).Nodup) (hi : i ∈ interfaces) :
    OwnSensors py deviceId device sample interfaces i where
  bytesSent := shows_of_slugs hslugs hi (.bytes .sent)
  bytesRecv := shows_of_slugs hslugs hi (.bytes .recv)
  sentRate := by
    have hrate := @shows_of_slugs N py i deviceId device sample interfaces hslugs hi (.rate .sent)
    rwa [reading, roundTo, Option.map_map] at hrate
  recvRate := by
    have hrate := @shows_of_slugs N py i deviceId device sample interfaces hslugs hi (.rate .recv)
    rwa [reading, roundTo, Option.map_map] at hrate

/-- Interfaces whose slugs differ have sensors of their own, and no others have. -/
theorem itsOwnSensors_iff (py : Builtins N) (deviceId : Text) (device : Device N)
    (sample : List (Text × Counters N)) (interfaces : List Text) (hdistinct : interfaces.Nodup) :
    ItsOwnSensors py deviceId device sample interfaces ↔ (interfaces.map py.slug).Nodup := by
  constructor
  · intro h
    refine List.Nodup.map_on (fun i hi j hj hslug => ?_) hdistinct
    by_contra hij
    exact (h.apart i hi j hj hij (.bytes .sent) (.bytes .sent)).1 (ifaceKey_eq_iff.mpr ⟨hslug, rfl⟩)
  · intro hslugs
    have hapart : ∀ i ∈ interfaces, ∀ j ∈ interfaces, i ≠ j → ∀ q r, ifaceKey py i q ≠ ifaceKey py j r := by
      intro i hi j hj hij q r hkey
      exact hij (List.inj_on_of_nodup_map hslugs hi hj (ifaceKey_eq_iff.mp hkey).1)
    exact {
      own := fun i hi => ownSensors_of_slugs hslugs hi
      four := fun i _ q r hkey => (ifaceKey_eq_iff.mp hkey).2
      apart := fun i hi j hj hij q r =>
        ⟨hapart i hi j hj hij q r, (uniqueId_injective deviceId).ne (hapart i hi j hj hij q r)⟩
      device := fun i _ q key hkey =>
        ⟨ifaceKey_not_device hkey, (uniqueId_injective deviceId).ne (ifaceKey_not_device hkey)⟩ }

end

/-- `str.lower` on names of ASCII letters, and whole numbers. -/
def plainBuiltins : Builtins Nat := ⟨List.map Char.toLower, fun x _ => x⟩

def idleDevice : Device Nat := ⟨none, 0, 0, 0, 0, 0, none, none, none⟩

theorem home_interfaces_have_their_own :
    ["wlan0".toList, "Syd-Home".toList].Nodup ∧
      ItsOwnSensors plainBuiltins "test-pi".toList idleDevice [("wlan0".toList, ⟨1, 2, 3, 4⟩)]
        ["wlan0".toList, "Syd-Home".toList] :=
  ⟨by decide +kernel, (itsOwnSensors_iff plainBuiltins "test-pi".toList idleDevice
    [("wlan0".toList, ⟨1, 2, 3, 4⟩)] ["wlan0".toList, "Syd-Home".toList] (by decide +kernel)).mpr
      (by decide +kernel)⟩

/-- Two tunnels whose names differ in a dash have one set of sensors between them. -/
theorem dash_and_underscore_share : ¬ ∀ (device : Device Nat) (sample : List (Text × Counters Nat))
    (interfaces : List Text), interfaces.Nodup →
      ItsOwnSensors plainBuiltins "test-pi".toList device sample interfaces := by
  intro hall
  have hown := hall idleDevice [] ["wg-a".toList, "wg_a".toList] (by decide +kernel)
  have hkey : ifaceKey plainBuiltins "wg-a".toList (.bytes .sent) =
      ifaceKey plainBuiltins "wg_a".toList (.bytes .sent) := by decide +kernel
  exact (hown.apart "wg-a".toList (by decide +kernel) "wg_a".toList (by decide +kernel)
    (by decide +kernel) (.bytes .sent) (.bytes .sent)).1 hkey

end Monitor
