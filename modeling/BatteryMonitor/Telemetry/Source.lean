import BatteryMonitor.Telemetry.Shunt
import BatteryMonitor.Telemetry.SnapshotFile

/-!
# Telemetry sources

Where readings come from: a sensor, a file, or a list held in memory.  A source tells after a reading
whether its batteries come with estimates of their own.
-/

namespace BatteryMonitor

/-- A source of readings held in memory. -/
structure Listing where
  readings : List Reading := []
  /-- why nothing can be read, if nothing can -/
  failure : Option String := none
  /-- what the source says of estimates, if it does -/
  providesEstimates : Option Value := none

/-- Where readings come from. -/
inductive Source where
  | listing (l : Listing)
  | file (f : SnapshotFile)
  | shunt (s : Shunt) (sensor : Sensor)

namespace Source

/-- Whether the batteries come with estimates of their own. -/
def providesEstimates : Source → Value
  | listing l => l.providesEstimates.getD (.bool false)
  | file f => .bool f.providesEstimates
  | shunt .. => .bool false

/-- The source with another sensor, if it has one. -/
def replaceSensor (sensor : Sensor) : Source → Source
  | shunt s _ => shunt s sensor
  | s => s

/-- Reads once. -/
def read (d : Disk) : Source → Except Fault (List Reading) × Source
  | listing l =>
    match l.failure with
    | some reason => (.error (.telemetry (.other reason)), listing l)
    | none => (.ok l.readings, listing l)
  | file f =>
    let (result, f) := f.read d
    (result, file f)
  | shunt s sensor =>
    let (result, s) := s.read sensor
    (result, shunt s sensor)

end Source

end BatteryMonitor
