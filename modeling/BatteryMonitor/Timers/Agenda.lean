import BatteryMonitor.Timers.Scheduler

/-!
# Timers that run when they are told to

An agenda keeps timers with their deadlines and lets none of them run by itself: whoever drives it lets a
timer run whatever its deadline (`Agenda.fire`), or all of those that are due (`Agenda.runDue`).  A
timer is taken off before it runs.  Handles count from one and are never used again.

What a timer does may change the agenda, so the agenda is a part of the state that alarms are handled in
(`HasAgenda`).  A `Bench` is an agenda with a clock that is set by hand.
-/

namespace BatteryMonitor

/-- A timer that has not run yet. -/
structure Appointment where
  handle : Nat
  /-- the time in seconds from which on the timer is due -/
  deadline : Binary64
  alarm : Alarm
  deriving DecidableEq

/-- Timers and their history. -/
structure Agenda where
  /-- how many handles have been given out -/
  issued : Nat := 0
  /-- the timers that have not run, by handle -/
  pending : List Appointment := []
  /-- the handles that have been taken back, in order -/
  cancelled : List Nat := []

namespace Agenda

/-- The agenda with a timer armed at a time. -/
def schedule (now : Binary64) (delay : Value) (alarm : Alarm) (a : Agenda) :
    Except Fault Nat × Agenda :=
  let handle := a.issued + 1
  let deadline := do
    let n ← delay.number
    (Number.double now).add n
  match deadline with
  | .ok (.double deadline) =>
    (.ok handle, { a with issued := handle, pending := a.pending ++ [⟨handle, deadline, alarm⟩] })
  | .ok (.int _) => (.error .wrongType, { a with issued := handle })
  | .error fault => (.error fault, { a with issued := handle })

/-- The agenda without a timer. -/
def remove (handle : Nat) (a : Agenda) : Agenda :=
  { a with pending := a.pending.filter (·.handle != handle) }

/-- The agenda with a timer taken back. -/
def cancel (handle : Nat) (a : Agenda) : Agenda :=
  { a.remove handle with cancelled := a.cancelled ++ [handle] }

/-- The alarm of a timer that has not run, and the agenda without the timer. -/
def take? (handle : Nat) (a : Agenda) : Option (Alarm × Agenda) :=
  (a.pending.find? (·.handle == handle)).map fun t => (t.alarm, a.remove handle)

/-- The handles of the timers that are due, by deadline and then by handle. -/
def due (now : Binary64) (a : Agenda) : List Nat :=
  let ready := a.pending.filter fun t => t.deadline.value.le now.value
  (ready.mergeSort fun s t => !t.deadline.value.lt s.deadline.value).map (·.handle)

end Agenda

/-- A state that has an agenda and a clock in it. -/
class HasAgenda (σ : Type) where
  now : σ → Binary64
  agenda : σ → Agenda
  setAgenda : Agenda → σ → σ

namespace Agenda

/-! ### Running -/

variable {σ : Type} [HasAgenda σ] (handleAlarm : Alarm → ExceptT Fault (StateM σ) Unit)

/-- Lets a timer run; tells whether it had not run or been taken back yet. -/
def fire (handle : Nat) : ExceptT Fault (StateM σ) Bool := do
  let s ← get
  match (HasAgenda.agenda s).take? handle with
  | none => return false
  | some (alarm, agenda) =>
    set (HasAgenda.setAgenda agenda s)
    handleAlarm alarm
    return true

/-- Lets timers run one after the other, up to the first fault.  That one of them takes another back, whose
turn has not come yet, is a fault too. -/
def fireAll : List Nat → ExceptT Fault (StateM σ) Unit
  | [] => return
  | handle :: rest => do
    unless ← fire handleAlarm handle do throw .missingEntry
    fireAll rest

/-- Lets the timers run that are due now; tells how many there were. -/
def runDue : ExceptT Fault (StateM σ) Nat := do
  let s ← get
  let handles := (HasAgenda.agenda s).due (HasAgenda.now s)
  fireAll handleAlarm handles
  return handles.length

end Agenda

/-- Timers and a clock that is set by hand. -/
structure Bench where
  clock : Binary64 := 0
  agenda : Agenda := {}

instance : Scheduler Bench where
  now := Bench.clock
  schedule delay alarm b :=
    let (result, agenda) := b.agenda.schedule b.clock delay alarm
    (result, { b with agenda })
  cancel handle b := { b with agenda := b.agenda.cancel handle }

instance : HasAgenda Bench where
  now := Bench.clock
  agenda := Bench.agenda
  setAgenda agenda b := { b with agenda }

end BatteryMonitor
