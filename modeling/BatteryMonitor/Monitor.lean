import BatteryMonitor.Report
import BatteryMonitor.Store
import BatteryMonitor.Watch

/-!
# The monitor

The monitor turns lists of readings into published records.  Every run of the pipeline goes through all
batteries twice: first their times remaining are estimated, then their snapshots are built and those that
changed are written to the store.  Operations run to completion one after the other; one that stops with
a fault leaves what it did before.

For each battery of the list the monitor keeps a state by its index and the key that it was last
published under.  When the list shrinks the states beyond its end are dropped with their records; when
the key of an index changes the record under the old key is removed first.
-/

namespace BatteryMonitor

/-! ### Populating and publishing -/

/-- The states with the estimates of their readings, up to the first fault. -/
def populate (c : Conditions) (now : Binary64) :
    List Reading → List BatteryState → Option Fault × List BatteryState
  | r :: rs, s :: ss =>
    match r.estimate c now with
    | .ok minutes =>
      let (fault, rest) := populate c now rs ss
      (fault, { s with timeRemaining := .int minutes } :: rest)
    | .error fault => (some fault, s :: ss)
  | _, ss => (none, ss)

/-- Writes a snapshot under a key unless it is the one that was last published; tells whether the store
was touched. -/
def Store.publish (key : Value) (state : BatteryState) (snapshot : Snapshot) : Store.M Bool :=
  match state.lastPublished with
  | some last =>
    if last.same snapshot then return false
    else do
      Store.setValue key (.object snapshot.toRecord)
      return true
  | none => do
    Store.setValue key (.object snapshot.toRecord)
    return true

/-- The monitor of a set of batteries. -/
structure Monitor (τ : Type) where
  watch : Watch τ
  store : Store
  /-- the last list of readings -/
  readings : List Reading := []
  /-- what is kept for each index, in the order in which the indices came -/
  states : List (Nat × BatteryState) := []
  /-- the key that each index was last published under -/
  keys : List (Nat × Value) := []

instance {τ : Type} [HasAgenda τ] : HasAgenda (Monitor τ) where
  now m := HasAgenda.now m.watch
  agenda m := HasAgenda.agenda m.watch
  setAgenda agenda m := { m with watch := HasAgenda.setAgenda agenda m.watch }

namespace Monitor

variable {τ : Type} [Scheduler τ]

/-- Operations on a monitor: what was done before a fault stays done. -/
abbrev M (τ : Type) := ExceptT Fault (StateM (Monitor τ))

/-- An operation on the watch of a monitor. -/
def onWatch {α : Type} (act : Watch.M τ α) : M τ α := do
  let m ← get
  let (result, watch) := act.run.run m.watch
  set { m with watch }
  match result with
  | .ok a => return a
  | .error fault => throw fault

/-- An operation on the store of a monitor. -/
def onStore {α : Type} (act : Store.M α) : M τ α := do
  let m ← get
  let (result, store) := act.run.run m.store
  set { m with store }
  match result with
  | .ok a => return a
  | .error fault => throw fault

/-- The state of an index. -/
def state? (m : Monitor τ) (index : Nat) : Option BatteryState :=
  m.states.lookup index

/-- The list with the entry of an index written in its place. -/
def setAt {α : Type} (index : Nat) (a : α) : List (Nat × α) → List (Nat × α)
  | [] => [(index, a)]
  | (i, b) :: rest => if i = index then (i, a) :: rest else (i, b) :: setAt index a rest

/-- The list without the entry of an index. -/
def eraseAt {α : Type} (index : Nat) (entries : List (Nat × α)) : List (Nat × α) :=
  entries.filter (·.1 != index)

/-- Writes the state of an index. -/
def setState (index : Nat) (state : BatteryState) : M τ Unit :=
  modify fun m => { m with states := setAt index state m.states }

/-- Drops the state and the record of an index. -/
def dropBattery (index : Nat) : M τ Unit := do
  let key := (← get).keys.lookup index
  modify fun m =>
    { m with states := eraseAt index m.states, keys := eraseAt index m.keys }
  match key with
  | some key => unless key.isNull do onStore (Store.removeValue key)
  | none => return

/-- Keeps a state for exactly the indices of the list. -/
def syncStates : M τ Unit := do
  let count := (← get).readings.length
  for (index, _) in (← get).states do
    if count ≤ index then dropBattery index
  for index in List.range count do
    if ((← get).state? index).isNone then setState index {}

/-- The states of the batteries in the list, in order. -/
def currentStates (m : Monitor τ) : List Nat → Except Fault (List BatteryState)
  | [] => .ok []
  | index :: rest => do
    match m.state? index with
    | some state => return state :: (← currentStates m rest)
    | none => throw .missingEntry

/-- Writes the states of the first batteries. -/
def setStates (states : List BatteryState) : M τ Unit :=
  modify fun m =>
    { m with states := states.zipIdx.foldl (fun all (state, index) => setAt index state all) m.states }

/-- Estimates the times remaining. -/
def estimateAll : M τ Unit := do
  let m ← get
  match m.currentStates (List.range m.readings.length) with
  | .error fault => throw fault
  | .ok states =>
    let (fault, states) := populate m.watch.conditions m.watch.now m.readings states
    setStates states
    match fault with
    | some fault => throw fault
    | none => return

/-- Removes the record that an index was published under before its key changed. -/
def moveKey (index : Nat) (key : Value) : M τ Unit := do
  match (← get).keys.lookup index with
  | some old =>
    if !old.isNull && !old.equal key then
      onStore (Store.removeValue old)
      match (← get).state? index with
      | some state => setState index { state with lastPublished := none }
      | none => return
  | none => return

/-- Builds and publishes the snapshot of a battery. -/
def publishOne (index : Nat) (r : Reading) : M τ Unit := do
  let m ← get
  match m.state? index with
  | none => throw .missingEntry
  | some state =>
    match r.report state m.watch.conditions m.watch.now with
    | .error fault => throw fault
    | .ok (snapshot, latched) =>
      setState index { state with latched }
      let key := r.effectiveKey index
      moveKey index key
      modify fun m => { m with keys := setAt index key m.keys }
      match (← get).state? index with
      | none => throw .missingEntry
      | some state =>
        if ← onStore (Store.publish key state snapshot) then
          setState index { state with lastPublished := some snapshot }

/-- Runs the pipeline on the last readings. -/
def run : M τ Unit := do
  estimateAll
  for (r, index) in (← get).readings.zipIdx do
    publishOne index r

/-! ### Operations -/

/-- Runs the pipeline again, if there are batteries. -/
def refresh : M τ Unit := do
  if (← get).readings.isEmpty then return
  run

/-- A new list of readings has come. -/
def batteriesChanged (readings : List Reading) : M τ Unit := do
  modify fun m => { m with readings }
  syncStates
  onWatch (Watch.batteriesChanged readings)
  refresh

/-- The first list of readings, if telemetry found any battery. -/
def prime : Option (List Reading) → M τ Unit
  | some (r :: rs) => batteriesChanged (r :: rs)
  | _ => return

/-- The system woke from sleep. -/
def systemDidWake : M τ Unit := do
  if (← get).readings.isEmpty then return
  onWatch Watch.suppress
  run

/-- The timer of the suppression window has run. -/
def windowOver : M τ Unit := do
  onWatch Watch.windowOver
  refresh

/-- A timer has run. -/
def handle : Alarm → M τ Unit
  | .windowOver => windowOver
  | .wakeSettled => systemDidWake

/-- The minutes that are known for an index. -/
def timeRemaining (m : Monitor τ) (index : Value) : Except Fault (Option Value) := do
  let key ← index.key
  return (m.states.find? fun (i, _) => (Key.int i).same key).map (·.2.timeRemaining)

end Monitor

end BatteryMonitor
