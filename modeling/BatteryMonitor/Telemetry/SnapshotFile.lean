import BatteryMonitor.Disk.Basic
import BatteryMonitor.Json.Reader
import BatteryMonitor.Reading

/-!
# Batteries described by a file

A JSON file with a list of readings stands in for hardware, or an object with the list under `batteries`
and a flag that tells whether the readings come with estimates of the batteries.  The file is read anew
every time; a file with a plain list says nothing about the flag, which then stays as it was.
-/

namespace BatteryMonitor

/-- A source of readings from a file. -/
structure SnapshotFile where
  path : Path
  /-- the batteries of the file come with estimates of their own -/
  providesEstimates : Bool := false

namespace SnapshotFile

/-- The items of a list. -/
def items (s : SnapshotFile) : Value → Except Fault (List Value)
  | .list items => .ok items
  | _ => .error (.telemetry (.notList s.path.text))

/-- The batteries that a text describes, and the source after it. -/
def readValue (s : SnapshotFile) : Value → Except Fault (List Reading) × SnapshotFile
  | .object members =>
    let flag := (Table.getD members "provides_time_estimates" (.bool false)).truth
    (s.items (Table.getD members "batteries" (.list [])) >>= Reading.ofValues,
      { s with providesEstimates := flag })
  | v => (s.items v >>= Reading.ofValues, s)

/-- Reads the file once. -/
def read (s : SnapshotFile) (d : Disk) : Except Fault (List Reading) × SnapshotFile :=
  match d.read s.path >>= Json.parseBytes with
  | .ok v => s.readValue v
  | .error .tooDeep => (.error .tooDeep, s)
  | .error _ => (.error (.telemetry (.unreadable s.path.text)), s)

end SnapshotFile

end BatteryMonitor
