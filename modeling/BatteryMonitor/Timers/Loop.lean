import BatteryMonitor.Timers.Scheduler

/-!
# A main loop

A loop keeps sources in the order in which they were attached; each calls its action whenever its
deadline is reached.  Time is counted in whole milliseconds and moves only when it is told to
(`Loop.advance`): from one deadline to the next, and at each of them every source that is due is called
once.  An action that returns true keeps its source for another interval, any other is detached; a
fault in an action goes no further than the list of faults and detaches the source.

An action may change the loop itself, so the loop is a part of the state that actions work on
(`HasLoop`).
-/

namespace BatteryMonitor

/-- A source of calls. -/
structure LoopSource (α : Type) where
  id : Nat
  /-- milliseconds between calls -/
  interval : Nat
  deadline : Nat
  action : α

/-- Sources and the time, in milliseconds. -/
structure Loop (α : Type) where
  now : Nat := 1000000
  issued : Nat := 0
  sources : List (LoopSource α) := []
  /-- the faults of actions, in order -/
  faults : List Fault := []

/-- A state that has a loop in it. -/
class HasLoop (σ : Type) (α : outParam Type) where
  loop : σ → Loop α
  setLoop : Loop α → σ → σ

namespace Loop

variable {α : Type}

/-- The largest interval. -/
def maxInterval : Int := 4294967295

/-- The time in seconds. -/
def seconds (l : Loop α) : Binary64 :=
  (Binary64.ofInt l.now).div 1000

/-- The loop with a source attached. -/
def attach (interval : Nat) (action : α) (l : Loop α) : Nat × Loop α :=
  let id := l.issued + 1
  (id, { l with issued := id, sources := l.sources ++ [⟨id, interval, l.now + interval, action⟩] })

/-- A number of units as milliseconds. -/
def intervalOf (unit : Nat) : Value → Except Fault Nat
  | .int n => inRange n
  | .bool b => inRange (if b then 1 else 0)
  | _ => .error .wrongType
where
  /-- A number of units in the range of intervals. -/
  inRange (n : Int) : Except Fault Nat :=
    if 0 ≤ n ∧ n ≤ maxInterval then .ok (n.toNat * unit) else .error .tooLarge

/-- The loop with a source attached whose interval is a number of units. -/
def add (unit : Nat) (interval : Value) (action : α) (l : Loop α) : Except Fault Nat × Loop α :=
  match intervalOf unit interval with
  | .ok ms =>
    let (id, l) := l.attach ms action
    (.ok id, l)
  | .error fault => (.error fault, l)

/-- The loop without a source. -/
def detach (id : Nat) (l : Loop α) : Loop α :=
  { l with sources := l.sources.filter (·.id != id) }

/-- The loop with a source put off by its interval. -/
def putOff (id : Nat) (l : Loop α) : Loop α :=
  { l with sources := l.sources.map fun s =>
      if s.id = id then { s with deadline := l.now + s.interval } else s }

/-- The source with a given id. -/
def find? (id : Nat) (l : Loop α) : Option (LoopSource α) :=
  l.sources.find? (·.id == id)

/-- The ids of the sources that are due, in the order of attachment. -/
def due (l : Loop α) : List Nat :=
  (l.sources.filter (·.deadline ≤ l.now)).map (·.id)

/-- The first deadline that is not after a limit. -/
def nextDeadline? (limit : Nat) (l : Loop α) : Option Nat :=
  ((l.sources.map (·.deadline)).filter (· ≤ limit)).min?

/-! ### Delays of one-shot timers -/

/-- A delay in seconds as whole milliseconds, none of them negative.  A text counts as many times as there
are milliseconds in a second, before it is read. -/
def milliseconds (delay : Value) : Except Fault Int := do
  let ms ← match delay with
    | .text (.whole s) => (Value.text (String.join (List.replicate 1000 s))).toInteger
    | .text (.torn _) => throw .badValue
    | v => do
      match ← (← v.number).mul (.int 1000) with
      | .int n => pure n
      | .double x => x.truncate
  return max 0 ms

/-- The loop with an action to be called once after a delay in seconds. -/
def schedule (delay : Value) (action : α) (l : Loop α) : Except Fault Nat × Loop α :=
  match milliseconds delay with
  | .ok ms => l.add 1 (.int ms) action
  | .error fault => (.error fault, l)

/-! ### Running -/

section Running

variable {σ : Type} [HasLoop σ α] (perform : α → ExceptT Fault (StateM σ) Bool)

/-- Changes the loop of a state. -/
def change (f : Loop α → Loop α) : StateM σ Unit :=
  modify fun s => HasLoop.setLoop (f (HasLoop.loop s)) s

/-- The result of an action whose fault goes no further. -/
def guarded (act : ExceptT Fault (StateM σ) Bool) : StateM σ Bool := do
  match ← act.run with
  | .ok again => return again
  | .error fault =>
    change fun l => { l with faults := l.faults ++ [fault] }
    return false

/-- Calls a source, if it is still attached; tells how many calls that was. -/
def callSource (id : Nat) : StateM σ Nat := do
  match (HasLoop.loop (← get)).find? id with
  | none => return 0
  | some source =>
    if ← guarded (perform source.action) then change (putOff id) else change (detach id)
    return 1

/-- Calls the sources with the given ids. -/
def callAll : List Nat → StateM σ Nat
  | [] => return 0
  | id :: ids => do
    let first ← callSource perform id
    let rest ← callAll ids
    return first + rest

/-- Calls sources until none is due up to a limit, in a bounded number of rounds. -/
def runUntil (limit : Nat) : Nat → StateM σ Nat
  | 0 => return 0
  | rounds + 1 => do
    match (HasLoop.loop (← get)).nextDeadline? limit with
    | none => return 0
    | some deadline =>
      change fun l => { l with now := max l.now deadline }
      let calls ← callAll perform (HasLoop.loop (← get)).due
      let more ← runUntil limit rounds
      return calls + more

/-- Lets time pass; tells how many calls were made.  At one instant there are few rounds, since an action
attaches no source that is due at once and attaches another. -/
def advance (ms : Nat) : StateM σ Nat := do
  let limit := (HasLoop.loop (← get)).now + ms
  let calls ← runUntil perform limit (4 * (ms + 2))
  change fun l => { l with now := limit }
  return calls

end Running

end Loop

end BatteryMonitor
