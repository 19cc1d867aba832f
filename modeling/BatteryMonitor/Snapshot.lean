import BatteryMonitor.Value.Equality

/-!
# Published snapshots

The status of one battery as it is published.  `Snapshot.toRecord` is the record that the store gets:
the optional members are there only when there is something to say, so that two snapshots with the same
record may still differ (`Snapshot.same`).
-/

namespace BatteryMonitor

/-- How good a battery is, or how sure that is. -/
inductive Rating where
  | poor
  | fair
  | good
  deriving DecidableEq, Repr

namespace Rating

/-- The word for a rating. -/
def word : Rating → String
  | poor => "Poor"
  | fair => "Fair"
  | good => "Good"

/-- The rating of a word. -/
def ofValue (v : Value) : Except Fault Rating :=
  if v.isText poor.word then .ok poor
  else if v.isText fair.word then .ok fair
  else if v.isText good.word then .ok good
  else .error .badValue

end Rating

/-! ### Words of the record -/

/-- The power source of a battery on external power. -/
def acPower : String := "AC Power"

/-- The power source of a battery on its own. -/
def batteryPower : String := "Battery Power"

/-- The name of a battery that has none. -/
def unnamed : String := "Unnamed"

/-- The minutes when no trustworthy estimate is possible. -/
def indeterminate : Int := -1

/-- The status of one battery. -/
structure Snapshot where
  isPresent : Value
  powerSourceState : Value
  currentCapacity : Value
  maxCapacity : Value
  isCharging : Value
  timeToEmpty : Value
  timeToFullCharge : Value
  name : Value := .text unnamed
  transportType : Value := .text "Internal"
  health : Option Rating := none
  healthConfidence : Option Rating := none
  failure : Value := .null
  chargeStatus : Value := .null
  batteryProvidesTimeRemaining : Value := .bool false
  waitingForEstimates : Value := .bool false

namespace Snapshot

/-- Two snapshots are the same field by field. -/
def same (a b : Snapshot) : Bool :=
  a.isPresent.same b.isPresent && a.powerSourceState.same b.powerSourceState &&
  a.currentCapacity.same b.currentCapacity && a.maxCapacity.same b.maxCapacity &&
  a.isCharging.same b.isCharging && a.timeToEmpty.same b.timeToEmpty &&
  a.timeToFullCharge.same b.timeToFullCharge && a.name.same b.name &&
  a.transportType.same b.transportType && a.health == b.health &&
  a.healthConfidence == b.healthConfidence && a.failure.same b.failure &&
  a.chargeStatus.same b.chargeStatus &&
  a.batteryProvidesTimeRemaining.same b.batteryProvidesTimeRemaining &&
  a.waitingForEstimates.same b.waitingForEstimates

/-- A member that is there on a condition. -/
def optional (present : Bool) (key : String) (v : Value) : Table Value :=
  if present then [(.text key, v)] else []

/-- A rating that is there if it is known. -/
def rated (key : String) : Option Rating → Table Value
  | some rating => [(.text key, .text rating.word)]
  | none => []

/-- The record that is handed to the store. -/
def toRecord (s : Snapshot) : Table Value :=
  ([("Transport Type", s.transportType), ("Power Source State", s.powerSourceState),
    ("Is Present", s.isPresent), ("Current Capacity", s.currentCapacity),
    ("Max Capacity", s.maxCapacity), ("Is Charging", s.isCharging),
    ("Time to Empty", s.timeToEmpty), ("Time to Full Charge", s.timeToFullCharge),
    ("Name", s.name)] : Table Value) ++
  rated "BatteryHealth" s.health ++
  rated "HealthConfidence" s.healthConfidence ++
  optional (!s.failure.isNull) "Failure" s.failure ++
  optional (!s.chargeStatus.isNull) "ChargeStatus" s.chargeStatus ++
  optional s.batteryProvidesTimeRemaining.truth "Battery Provides Time Remaining" (.bool true) ++
  optional s.waitingForEstimates.truth "Waiting For Time Remaining Estimates" (.bool true)

/-! ### Snapshots from their fields -/

/-- The names of the fields, those that have no default first. -/
def fieldNames : List String :=
  ["is_present", "power_source_state", "current_capacity", "max_capacity", "is_charging",
    "time_to_empty", "time_to_full_charge", "name", "transport_type", "health",
    "health_confidence", "failure", "charge_status", "battery_provides_time_remaining",
    "waiting_for_estimates"]

/-- A rating that may be unknown. -/
def ratingOf : Option Value → Except Fault (Option Rating)
  | none | some .null => .ok none
  | some v => do return some (← Rating.ofValue v)

/-- The snapshot with the given fields: every field without a default has to be there, and no other name
than theirs. -/
def ofTable (t : Table Value) : Except Fault Snapshot := do
  let field? (name : String) := t.find? (.text name)
  let required (name : String) : Except Fault Value :=
    match field? name with
    | some v => .ok v
    | none => .error .wrongType
  let health ← ratingOf (field? "health")
  let healthConfidence ← ratingOf (field? "health_confidence")
  if t.any fun (k, _) => !fieldNames.any fun name => k.same (.text name) then .error .wrongType
  return {
    isPresent := ← required "is_present"
    powerSourceState := ← required "power_source_state"
    currentCapacity := ← required "current_capacity"
    maxCapacity := ← required "max_capacity"
    isCharging := ← required "is_charging"
    timeToEmpty := ← required "time_to_empty"
    timeToFullCharge := ← required "time_to_full_charge"
    name := (field? "name").getD (.text unnamed)
    transportType := (field? "transport_type").getD (.text "Internal")
    health
    healthConfidence
    failure := (field? "failure").getD .null
    chargeStatus := (field? "charge_status").getD .null
    batteryProvidesTimeRemaining := (field? "battery_provides_time_remaining").getD (.bool false)
    waitingForEstimates := (field? "waiting_for_estimates").getD (.bool false) }

end Snapshot

end BatteryMonitor
