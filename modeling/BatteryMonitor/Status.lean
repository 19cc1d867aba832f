import BatteryMonitor.Snapshot
import BatteryMonitor.Value.Arithmetic
import BatteryMonitor.Value.Display

/-!
# Records for people

The lines that a published record is shown with: the charge, the time remaining, the health unless it is
good, and a failure.  Records come from a file that others may write, so a member may be missing or hold
anything; what cannot be shown is a fault.  A line is a text, which is torn if a member is that it shows.
-/

namespace BatteryMonitor.Status

/-- Minutes as hours and minutes. -/
def formatMinutes (minutes : Value) : Except Fault String := do
  let total ← minutes.toInteger
  let hours := total.fdiv 60
  let rest ← displayInteger (total.fmod 60)
  if 0 < hours then return (← displayInteger hours) ++ "h " ++ rest ++ "m"
  else return rest ++ "m"

/-- The members of a record. -/
def members : Value → Except Fault (Table Value)
  | .object members => .ok members
  | _ => .error .notRecord

/-- The time to the full charge of a battery that is charging. -/
def formatCharging (record : Table Value) : Except Fault String := do
  let minutes := record.getD "Time to Full Charge" (.int (-1))
  if ← (Value.int 0).less minutes then return (← formatMinutes minutes) ++ " to full"
  else if ← minutes.less (.int 0) then return "Calculating..."
  else return "Charging..."

/-- The time remaining of a battery that is not charging. -/
def formatDischarging (record : Table Value) : Except Fault String := do
  let minutes := record.getD "Time to Empty" (.int (-1))
  if ← (Value.int 0).less minutes then return (← formatMinutes minutes) ++ " remaining"
  else if ← minutes.less (.int 0) then return "Calculating..."
  else if (record.getD "Power Source State" .null).isText acPower then return "Charged"
  else return ""

/-- The time of a record. -/
def formatTime (record : Table Value) : Except Fault String :=
  if !(record.getD "Is Present" (.bool false)).truth then .ok ""
  else if (record.getD "Is Charging" .null).truth then formatCharging record
  else formatDischarging record

/-- A line below the first. -/
def indented (text : Text) : Text :=
  text.prepend "$\x7bcolor4\x7d  "

/-- The line for the time, unless there is nothing to say. -/
def timeLines (time : String) : List Text :=
  if time = "" then [] else [indented time]

/-- The line for the health, unless it is good or unknown. -/
def healthLines (record : Table Value) : Except Fault (List Text) := do
  let health := record.getD "BatteryHealth" .null
  if health.truth && !health.isText Rating.good.word then
    return [indented ((← health.display).prepend "Health: ")]
  else return []

/-- The line for a failure, if there is one. -/
def failureLines (record : Table Value) : Except Fault (List Text) := do
  let failure := record.getD "Failure" .null
  if failure.truth then return [indented (← failure.display)] else return []

/-- The lines of a record. -/
def formatRecord (record : Table Value) : Except Fault (List Text) :=
  if !(record.getD "Is Present" (.bool false)).truth then .ok ["> --"]
  else do
    let mark := if (record.getD "Is Charging" .null).truth then " CHG" else ""
    let charge ← (record.getD "Current Capacity" (.int 0)).display
    let time ← formatTime record
    let health ← healthLines record
    let failure ← failureLines record
    return [(charge.prepend "> ").append ("%" ++ mark)] ++ timeLines time ++ health ++ failure

end BatteryMonitor.Status
