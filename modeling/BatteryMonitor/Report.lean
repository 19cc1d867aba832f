import BatteryMonitor.Estimate
import BatteryMonitor.Health
import BatteryMonitor.Value.Display

/-!
# From a reading to a snapshot

A reading, the minutes estimated for it and the conditions make the snapshot that is published
(`Reading.report`).  Capacities become percent of the full capacity, rounded half away from zero; a
battery that charges is never shown at 100%, since it goes on charging past that point to relearn its
capacity.
-/

namespace BatteryMonitor

/-- What is kept for one battery from reading to reading. -/
structure BatteryState where
  timeRemaining : Value := .int indeterminate
  /-- the battery needs replacement until its ratio recovers -/
  latched : Bool := false
  lastPublished : Option Snapshot := none

/-- The integer nearest to a number, a half away from zero. -/
def Number.roundAway (n : Number) : Except Fault Int := do
  let size ← n.abs.toDouble
  let magnitude ← (size.add 0.5).floor
  let sign ← n.toDouble
  return if sign.isNegative then -magnitude else magnitude

namespace Reading

/-- The charge in percent and its maximum; a maximum of zero tells a bad battery or a bad reading. -/
def capacityPercentages (r : Reading) : Except Fault (Int × Int) :=
  if r.maxCapacity.equalsInt 0 then .ok (0, 0)
  else do
    let product ← (← r.currentCapacity.number).mul (.double 100)
    let quotient ← product.div (← r.maxCapacity.number)
    let charge ← (Number.double quotient).roundAway
    return (if charge = 100 && r.isCharging.truth then 99 else charge, 100)

/-- Whether the battery is charging, and its times to empty and to full charge. -/
def timeFields (r : Reading) (minutes : Value) : Bool × Value × Value :=
  if !r.isPresent.truth then (false, .int 0, .int 0)
  else if minutes.equalsInt indeterminate then
    (r.isCharging.truth, .int indeterminate, .int indeterminate)
  else if r.isCharging.truth then (true, .int 0, minutes)
  else if r.externalConnected.truth then (false, .int 0, .int 0)
  else (false, minutes, .int 0)

/-- The snapshot of a reading, and the latch after it. -/
def report (r : Reading) (state : BatteryState) (c : Conditions) (now : Binary64) :
    Except Fault (Snapshot × Bool) := do
  let (current, maximum) ← r.capacityPercentages
  let (charging, toEmpty, toFull) := r.timeFields state.timeRemaining
  let (health, latched) ← r.classify state.latched
  return ({
    isPresent := .bool r.isPresent.truth
    powerSourceState := .text (if r.externalConnected.truth then acPower else batteryPower)
    currentCapacity := .int current
    maxCapacity := .int maximum
    isCharging := .bool charging
    timeToEmpty := toEmpty
    timeToFullCharge := toFull
    name := if r.name.truth then r.name else .text unnamed
    health := health.rating
    healthConfidence := health.confidence
    failure := r.failure
    chargeStatus := r.chargeStatus
    batteryProvidesTimeRemaining := c.useFirmware
    waitingForEstimates := .bool (c.isIgnoring now) }, latched)

/-- The key of a battery that names none of its own. -/
def defaultKey (index : Text) : Value :=
  .text (index.prepend "InternalBattery-")

/-- The key that a reading is published under. -/
def effectiveKey (index : Int) (r : Reading) : Value :=
  if r.storeKey.truth then r.storeKey else defaultKey (String.ofList (Decimal.signedDigits index))

/-- The key that a reading is published under, for an index that may be any value on display. -/
def keyFor (index : Value) (r : Reading) : Except Fault Value :=
  if r.storeKey.truth then .ok r.storeKey else do return defaultKey (← index.display)

end Reading

end BatteryMonitor
