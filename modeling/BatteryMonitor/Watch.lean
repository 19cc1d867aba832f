import BatteryMonitor.Estimate
import BatteryMonitor.Timers.Agenda

/-!
# Watching the primary battery

Plugging in, unplugging and waking from sleep all leave the average current meaningless for a while.  When
one of those happens, estimates are suppressed for the period that the primary battery asks for, and a
timer is armed for its end (`Watch.suppress`); a timer that was armed before is taken back, so that there
is at most one and it belongs to the window that is open.

Whether the primary battery's own estimate is trusted is decided when it is inserted and stays so until
the next insertion.
-/

namespace BatteryMonitor

/-- The conditions, the primary battery and the timers. -/
structure Watch (τ : Type) where
  conditions : Conditions := {}
  /-- the first reading of the last list, if there was one -/
  primary : Option Reading := none
  timers : τ

instance {τ : Type} [HasAgenda τ] : HasAgenda (Watch τ) where
  now w := HasAgenda.now w.timers
  agenda w := HasAgenda.agenda w.timers
  setAgenda agenda w := { w with timers := HasAgenda.setAgenda agenda w.timers }

namespace Watch

variable {τ : Type} [Scheduler τ]

/-- Operations on a watch: what was done before a fault stays done. -/
abbrev M (τ : Type) := ExceptT Fault (StateM (Watch τ))

/-- The time on the clock. -/
def now (w : Watch τ) : Binary64 :=
  Scheduler.now w.timers

/-- Estimates are suppressed. -/
def isIgnoring (w : Watch τ) : Bool :=
  w.conditions.isIgnoring w.now

/-- Changes the conditions. -/
def adjust (f : Conditions → Conditions) : M τ Unit :=
  modify fun w => { w with conditions := f w.conditions }

/-- Arms a timer. -/
def arm (delay : Value) (alarm : Alarm) : M τ Nat := do
  let w ← get
  let (result, timers) := Scheduler.schedule delay alarm w.timers
  set { w with timers }
  match result with
  | .ok handle => return handle
  | .error fault => throw fault

/-- Takes the timer of the window back. -/
def disarm : M τ Unit :=
  modify fun w =>
    match w.conditions.pendingTimer with
    | some handle =>
      { w with
        timers := Scheduler.cancel handle w.timers
        conditions := { w.conditions with pendingTimer := none } }
    | none => w

/-- Suppresses estimates for the period that the primary battery asks for. -/
def suppress : M τ Unit := do
  let w ← get
  match w.primary with
  | none => return
  | some primary =>
    match primary.invalidWakeSecs.toDouble with
    | .error fault => throw fault
    | .ok delay =>
      adjust fun c => { c with invalidUntil := w.now.add delay }
      disarm
      let handle ← arm (.float delay) .windowOver
      adjust fun c => { c with pendingTimer := some handle }

/-- The timer of the window has run: the window is closed, even if the clock is a bit behind. -/
def windowOver : M τ Unit := do
  let w ← get
  adjust fun c => { c with pendingTimer := none }.closeWindow w.now

/-- Looks for a change of the power source and for an insertion of the primary battery. -/
def batteriesChanged : List Reading → M τ Unit
  | [] => modify fun w =>
      { w with primary := none, conditions := { w.conditions with lastPresent := false } }
  | primary :: _ => do
    modify fun w => { w with primary := some primary }
    let external := primary.externalConnected.truth
    if external != (← get).conditions.lastExternal then suppress
    adjust fun c => { c with lastExternal := external }
    let present := primary.isPresent.truth
    if present && !(← get).conditions.lastPresent then
      adjust fun c => { c with useFirmware := .bool (primary.isTrusted c.supported) }
    adjust fun c => { c with lastPresent := present }

end Watch

end BatteryMonitor
