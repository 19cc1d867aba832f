import BatteryMonitor.CommandLine.Outcome
import BatteryMonitor.Settings
import BatteryMonitor.Status
import BatteryMonitor.Store

/-!
# The display program

Prints the records of a state file, in the order of their keys.  The lines of a record are written when all
of them were made, so a record that cannot be shown ends the program behind the lines of those before it, and
a line that is torn ends it behind the lines before it.
-/

namespace BatteryMonitor.CommandLine.Display

/-- The line when there is no record. -/
def nothingKnown : String := "> N/A"

/-- The outcome with the lines of records written. -/
def sayAll (o : Outcome) : List (Key × Value) → Outcome
  | [] => o
  | (_, record) :: rest =>
    match Status.members record >>= Status.formatRecord with
    | .error fault => { o with ending := .stopped fault }
    | .ok lines =>
      match o.sayLines lines with
      | .ok o => sayAll o rest
      | .error stopped => stopped

/-- The state file: the one that is named, or that of the settings. -/
def stateFile (site : Site) (d : Disk) : List String → Except Fault Path
  | named :: _ => .ok (.ofString named)
  | [] => do Path.ofValue (← Settings.load site d none).stateFile

/-- Runs the program. -/
def run (site : Site) (d : Disk) (arguments : List String) : Outcome :=
  let state := do
    let file ← stateFile site d arguments
    Json.sortMembers (← d.loadState file)
  match state with
  | .error fault => .stopping fault
  | .ok [] => Outcome.say {} nothingKnown
  | .ok records => sayAll {} records

end BatteryMonitor.CommandLine.Display
