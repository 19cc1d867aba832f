import BatteryMonitor.Value.Arithmetic

/-!
# Timers that a pipeline asks for

A pipeline run has the time from a clock and arms one-shot timers on it.  What a timer is for is data
(`Alarm`): whoever owns the timers looks at the alarm of one that is due and does what it says.
-/

namespace BatteryMonitor

/-- What a timer is for. -/
inductive Alarm where
  /-- the suppression window is over -/
  | windowOver
  /-- the clock has settled after a wake from sleep -/
  | wakeSettled
  deriving DecidableEq, Repr

/-- A clock with timers on it.  Arming may fail, which may leave a trace all the same. -/
class Scheduler (τ : Type) where
  /-- the time in seconds -/
  now : τ → Binary64
  /-- a timer armed after a delay in seconds, with its handle -/
  schedule : Value → Alarm → τ → Except Fault Nat × τ
  /-- a timer taken back; one that is gone already does no harm -/
  cancel : Nat → τ → τ

end BatteryMonitor
