import BatteryMonitor.Reading

/-!
# The conditions of an estimate

What all stages of a pipeline run share: until when estimates are suppressed, whether the estimate of
the battery itself is trusted, and what was last seen of the primary battery.  Conditions change only
within a run.

Estimates are suppressed while the clock is before `Conditions.invalidUntil`; closing the window
(`Conditions.closeWindow`) ends that even if the clock is not there yet.
-/

namespace BatteryMonitor

/-- What the stages of a pipeline run share. -/
structure Conditions where
  /-- whether the hardware supports estimates of the batteries -/
  supported : Value := .bool false
  /-- the end of the suppression window, in seconds -/
  invalidUntil : Binary64 := 0
  /-- whether the estimate of the battery itself is used -/
  useFirmware : Value := .bool false
  /-- whether the primary battery was last seen on external power -/
  lastExternal : Bool := false
  /-- whether the primary battery was last seen present -/
  lastPresent : Bool := false
  /-- the timer that will close the window -/
  pendingTimer : Option Nat := none

namespace Conditions

/-- Estimates are suppressed. -/
def isIgnoring (c : Conditions) (now : Binary64) : Bool :=
  now.value.lt c.invalidUntil.value

/-- The conditions with the window closed now. -/
def closeWindow (c : Conditions) (now : Binary64) : Conditions :=
  if now.value.lt c.invalidUntil.value then { c with invalidUntil := now } else c

end Conditions

end BatteryMonitor
