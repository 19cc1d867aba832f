import BatteryMonitor.Conditions
import BatteryMonitor.Snapshot
import BatteryMonitor.Value.Arithmetic

/-!
# Time remaining

The minutes until a battery is empty, or full while it charges.  An estimate is `indeterminate` when the
average current is zero, when it is not within a factor of two of the instantaneous one, while estimates
are suppressed, and when its sign disagrees with the charge state; otherwise it is at most ten hours.
-/

namespace BatteryMonitor

/-- The most minutes that are ever estimated. -/
def maxMinutes : Int := 600

namespace Reading

/-- The least and the largest average current that can be trusted, without sign. -/
def amperageBounds (r : Reading) : Except Fault (Binary64 × Binary64) :=
  if r.hasInstantAmperage.truth then do
    let instant := (← r.instantAmperage.number).abs
    let size ← instant.toDouble
    return (size.mul 0.5, size.mul 2)
  else .ok (5, 15000)

/-- The battery reports an estimate of its own and the hardware supports that. -/
def isTrusted (r : Reading) (supported : Value) : Bool :=
  supported.truth && !r.firmwareTimeRemaining.isNull

/-- `factor * capacity / average`, without its fraction. -/
def minutesFor (factor : Int) (capacity average : Number) : Except Fault Int := do
  let product ← Number.mul (.int factor) capacity
  let quotient ← product.div average
  quotient.truncate

/-- The minutes that the capacities and the average current give. -/
def calculatedMinutes (r : Reading) : Except Fault Int :=
  if r.isCharging.truth then do
    let missing ← (← r.maxCapacity.number).sub (← r.currentCapacity.number)
    minutesFor 60 missing (← r.avgAmperage.number)
  else do
    minutesFor (-60) (← r.currentCapacity.number) (← r.avgAmperage.number)

/-- The minutes before they are checked. -/
def rawMinutes (r : Reading) (c : Conditions) : Except Fault Int :=
  if c.useFirmware.truth then
    if r.firmwareTimeRemaining.isNull then .ok indeterminate
    else r.firmwareTimeRemaining.toInteger
  else r.calculatedMinutes

/-- The minutes as they are published. -/
def clampMinutes (minutes : Int) : Int :=
  if minutes < 0 then indeterminate else min minutes maxMinutes

/-- The estimate for a reading. -/
def estimate (r : Reading) (c : Conditions) (now : Binary64) : Except Fault Int := do
  let (lower, upper) ← r.amperageBounds
  if r.avgAmperage.equalsInt 0 then return indeterminate
  let size := (← r.avgAmperage.number).abs.value
  if size.lt lower.value || upper.value.lt size || c.isIgnoring now then return indeterminate
  return clampMinutes (← r.rawMinutes c)

end Reading

end BatteryMonitor
