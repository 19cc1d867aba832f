import BatteryMonitor.Value.Equality

/-!
# Battery readings

One poll worth of raw telemetry for one battery.  Capacities are in mAh and currents in mA, positive
while charging and negative while discharging.  A reading comes from outside, so every field may hold
any value; what a field is meant to hold is said beside it.
-/

namespace BatteryMonitor

/-- Raw telemetry of one battery. -/
structure Reading where
  /-- whether there is a battery -/
  isPresent : Value := .bool true
  /-- whether external power is connected -/
  externalConnected : Value := .bool false
  isCharging : Value := .bool false
  currentCapacity : Value := .int 0
  maxCapacity : Value := .int 0
  /-- the capacity when new, if known -/
  designCapacity : Value := .null
  cycleCount : Value := .int 0
  /-- the current averaged over the last minute or so -/
  avgAmperage : Value := .int 0
  instantAmperage : Value := .int 0
  /-- whether the instantaneous current is known -/
  hasInstantAmperage : Value := .bool false
  /-- the minutes that the battery itself estimates, if it does -/
  firmwareTimeRemaining : Value := .null
  errorCondition : Value := .null
  failure : Value := .null
  chargeStatus : Value := .null
  name : Value := .null
  /-- how long after a wake or a change of the power source the average is meaningless, in seconds -/
  invalidWakeSecs : Value := .int 0
  /-- the key to publish under, if not the one of the index -/
  storeKey : Value := .null

namespace Reading

/-- The reading with one field written; names of no field are ignored. -/
def setField (r : Reading) (name : String) (v : Value) : Reading :=
  match name with
  | "is_present" => { r with isPresent := v }
  | "external_connected" => { r with externalConnected := v }
  | "is_charging" => { r with isCharging := v }
  | "current_capacity" => { r with currentCapacity := v }
  | "max_capacity" => { r with maxCapacity := v }
  | "design_capacity" => { r with designCapacity := v }
  | "cycle_count" => { r with cycleCount := v }
  | "avg_amperage" => { r with avgAmperage := v }
  | "instant_amperage" => { r with instantAmperage := v }
  | "has_instant_amperage" => { r with hasInstantAmperage := v }
  | "firmware_time_remaining" => { r with firmwareTimeRemaining := v }
  | "error_condition" => { r with errorCondition := v }
  | "failure" => { r with failure := v }
  | "charge_status" => { r with chargeStatus := v }
  | "name" => { r with name := v }
  | "invalid_wake_secs" => { r with invalidWakeSecs := v }
  | "store_key" => { r with storeKey := v }
  | _ => r

/-- The reading that an object describes: its fields by their names, the others at their defaults. -/
def ofValue : Value → Except Fault Reading
  | .object members => .ok <| members.foldl (fun r (k, v) =>
      match k with
      | .text (.whole name) => r.setField name v
      | _ => r) {}
  | _ => .error .notRecord

/-- The readings that a list of objects describes. -/
def ofValues : List Value → Except Fault (List Reading)
  | [] => .ok []
  | v :: vs => do
    let r ← ofValue v
    let rs ← ofValues vs
    return r :: rs

/-- All fields by their names. -/
def toTable (r : Reading) : Table Value :=
  [("is_present", r.isPresent), ("external_connected", r.externalConnected),
    ("is_charging", r.isCharging), ("current_capacity", r.currentCapacity),
    ("max_capacity", r.maxCapacity), ("design_capacity", r.designCapacity),
    ("cycle_count", r.cycleCount), ("avg_amperage", r.avgAmperage),
    ("instant_amperage", r.instantAmperage), ("has_instant_amperage", r.hasInstantAmperage),
    ("firmware_time_remaining", r.firmwareTimeRemaining), ("error_condition", r.errorCondition),
    ("failure", r.failure), ("charge_status", r.chargeStatus), ("name", r.name),
    ("invalid_wake_secs", r.invalidWakeSecs), ("store_key", r.storeKey)]

end Reading

end BatteryMonitor
