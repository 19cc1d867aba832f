import BatteryMonitor.Value.Arithmetic

/-!
# The discharge curve

The state of charge of a pack of three lithium cells, read off its voltage.  The curve is given by points
(`Curve.points`); between two of them the charge is interpolated, above the first it is full and below
the last it is empty.
-/

namespace BatteryMonitor

/-- A voltage and the percent of charge at it. -/
structure CurvePoint where
  voltage : Binary64
  percent : Int

namespace Curve

/-- The points of the curve, from full to empty, closer together where it is flat. -/
def points : List CurvePoint :=
  [⟨12.60, 100⟩, ⟨12.50, 95⟩, ⟨12.40, 90⟩, ⟨12.30, 85⟩, ⟨12.20, 80⟩, ⟨12.00, 75⟩, ⟨11.90, 70⟩,
    ⟨11.80, 65⟩, ⟨11.70, 60⟩, ⟨11.60, 55⟩, ⟨11.50, 50⟩, ⟨11.40, 45⟩, ⟨11.30, 40⟩, ⟨11.20, 35⟩,
    ⟨11.10, 30⟩, ⟨11.00, 25⟩, ⟨10.80, 20⟩, ⟨10.60, 15⟩, ⟨10.40, 10⟩, ⟨10.20, 7⟩, ⟨10.00, 5⟩,
    ⟨9.80, 3⟩, ⟨9.60, 2⟩, ⟨9.40, 1⟩, ⟨9.00, 0⟩]

/-- The voltage from which on the pack is full. -/
def fullVoltage : Binary64 := 12.60

/-- The voltage up to which the pack is empty. -/
def emptyVoltage : Binary64 := 9.00

/-- The charge at a voltage between two points. -/
def interpolate (high low : CurvePoint) (voltage : Number) : Except Fault Binary64 := do
  let above ← voltage.sub (.double low.voltage)
  let ratio ← above.div (.double (high.voltage.sub low.voltage))
  return (Binary64.ofInt low.percent).add (ratio.mul (.ofInt (high.percent - low.percent)))

/-- The charge on the first segment that holds a voltage, zero if none does. -/
def scan (voltage : Number) : List CurvePoint → Except Fault Binary64
  | high :: low :: rest =>
    if low.voltage.value.le voltage.value && voltage.value.le high.voltage.value then
      interpolate high low voltage
    else scan voltage (low :: rest)
  | _ => .ok 0

/-- The charge in percent at a voltage. -/
def percent (voltage : Number) : Except Fault Binary64 :=
  if fullVoltage.value.le voltage.value then .ok 100
  else if voltage.value.le emptyVoltage.value then .ok 0
  else scan voltage points

end Curve

end BatteryMonitor
