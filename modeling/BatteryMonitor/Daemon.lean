import BatteryMonitor.ChargeControl
import BatteryMonitor.Monitor
import BatteryMonitor.Telemetry.Source
import BatteryMonitor.Timers.Agenda
import BatteryMonitor.Timers.Loop

/-!
# The daemon

The daemon drives a monitor from a main loop: it polls a telemetry source at an interval, and when the
system bus tells that a sleep is over it wakes the monitor after a delay in which the clock settles.
Trouble of the telemetry source is put up with: there is no reading then, and the next poll tries again.

There is at most one poll in the loop; setting the interval replaces it.
-/

namespace BatteryMonitor

/-- What the daemon's loop calls. -/
inductive Task where
  | poll
  | alarm (alarm : Alarm)
  deriving DecidableEq

/-- The daemon's timers: on its loop, or on an agenda that keeps the loop's time. -/
structure Clockwork where
  loop : Loop Task := {}
  agenda : Option Agenda := none

instance : Scheduler Clockwork where
  now c := c.loop.seconds
  schedule delay alarm c :=
    match c.agenda with
    | some agenda =>
      let (result, agenda) := agenda.schedule c.loop.seconds delay alarm
      (result, { c with agenda := some agenda })
    | none =>
      let (result, loop) := c.loop.schedule delay (.alarm alarm)
      (result, { c with loop })
  cancel handle c :=
    match c.agenda with
    | some agenda => { c with agenda := some (agenda.cancel handle) }
    | none => { c with loop := c.loop.detach handle }

/-- The system bus. -/
structure Bus where
  /-- there is a bus -/
  isThere : Bool := false
  issued : Nat := 0
  /-- those who listen for sleep and wake -/
  listeners : List Nat := []
  /-- how many have stopped listening -/
  unsubscribed : Nat := 0

namespace Bus

/-- What listening for sleep and wake names on the bus: who speaks, the interface, the signal, the object,
no argument, no flags. -/
def request : List (Option String) :=
  [some "org.freedesktop.login1", some "org.freedesktop.login1.Manager", some "PrepareForSleep",
    some "/org/freedesktop/login1", none, some "none"]

/-- The bus with one more listener. -/
def listen (b : Bus) : Nat × Bus :=
  (b.issued + 1, { b with issued := b.issued + 1, listeners := b.listeners ++ [b.issued + 1] })

/-- The bus without a listener. -/
def stop (listener : Nat) (b : Bus) : Bus :=
  if b.listeners.contains listener then
    { b with
      listeners := b.listeners.filter (· != listener)
      unsubscribed := b.unsubscribed + 1 }
  else b

end Bus

/-- A monitor that is driven from a main loop. -/
structure Daemon where
  source : Source
  /-- seconds between polls -/
  pollInterval : Value
  /-- seconds that the clock needs to settle after a wake -/
  wakeDelay : Value
  monitor : Monitor Clockwork
  /-- the poll in the loop -/
  pollSource : Option Nat := none
  bus : Bus := {}
  /-- the bus has been reached -/
  connected : Bool := false
  /-- the daemon's own listener on the bus -/
  listener : Option Nat := none
  /-- how often the loop was told to quit -/
  quits : Nat := 0

namespace Daemon

/-- Operations on a daemon: what was done before a fault stays done. -/
abbrev M := ExceptT Fault (StateM Daemon)

/-- A daemon that has not been started. -/
def create (source : Source) (store : Store) (pollInterval wakeDelay : Value) (bus : Bus)
    (timers : Clockwork) : Daemon where
  source
  pollInterval
  wakeDelay
  monitor := {
    watch := { conditions := { supported := source.providesEstimates }, timers }
    store }
  bus

/-- The daemon's loop. -/
def loop (d : Daemon) : Loop Task :=
  d.monitor.watch.timers.loop

/-- The daemon with another loop. -/
def setLoop (loop : Loop Task) (d : Daemon) : Daemon :=
  { d with monitor.watch.timers.loop := loop }

instance : HasLoop Daemon Task := ⟨loop, setLoop⟩

instance : HasAgenda Daemon where
  now d := d.loop.seconds
  agenda d := d.monitor.watch.timers.agenda.getD {}
  setAgenda agenda d := { d with monitor.watch.timers.agenda := some agenda }

/-- The files that the daemon works on. -/
def disk (d : Daemon) : Disk :=
  d.monitor.store.disk

/-- Changes the files. -/
def setDisk (disk : Disk) (d : Daemon) : Daemon :=
  { d with monitor.store.disk := disk }

/-- The daemon with another sensor, if it reads one. -/
def replaceSensor (sensor : Sensor) (d : Daemon) : Daemon :=
  { d with source := d.source.replaceSensor sensor }

/-- An operation on the monitor. -/
def onMonitor {α : Type} (act : Monitor.M Clockwork α) : M α := do
  let d ← get
  let (result, monitor) := act.run.run d.monitor
  set { d with monitor }
  match result with
  | .ok a => return a
  | .error fault => throw fault

/-- Reads the source; trouble of the source is no reading. -/
def readSource : M (Option (List Reading)) := do
  let d ← get
  let (result, source) := d.source.read d.disk
  set { d with source }
  match result with
  | .ok readings =>
    onMonitor (Monitor.onWatch (Watch.adjust fun c =>
      { c with supported := source.providesEstimates }))
    return some readings
  | .error (.telemetry _) => return none
  | .error fault => throw fault

/-- Replaces the poll in the loop. -/
def schedulePoll : M Unit := do
  match (← get).pollSource with
  | some id => modify fun d => d.setLoop (d.loop.detach id)
  | none => pure ()
  let d ← get
  let (result, loop) := d.loop.add 1000 d.pollInterval .poll
  set (d.setLoop loop)
  match result with
  | .ok id => modify fun d => { d with pollSource := some id }
  | .error fault => throw fault

/-- Polls once; polling goes on. -/
def update : M Bool := do
  match ← readSource with
  | some readings => onMonitor (Monitor.batteriesChanged readings)
  | none => pure ()
  return true

/-- Sets the interval between polls. -/
def setPollInterval (seconds : Value) : M Unit := do
  modify fun d => { d with pollInterval := seconds }
  schedulePoll

/-- Listens for sleep and wake, if there is a bus. -/
def watchSleep : M Unit :=
  modify fun d =>
    if d.bus.isThere then
      let (listener, bus) := d.bus.listen
      { d with bus, connected := true, listener := some listener }
    else d

/-- Publishes the first readings, starts polling and listens on the bus. -/
def start : M Unit := do
  let readings ← readSource
  onMonitor (Monitor.prime readings)
  schedulePoll
  watchSleep

/-- Stops listening and quits the loop. -/
def quit : M Unit :=
  modify fun d =>
    let bus := match d.connected, d.listener with
      | true, some listener => d.bus.stop listener
      | _, _ => d.bus
    { d with bus, quits := d.quits + 1 }

/-- The bus tells that the system goes to sleep, or that it woke. -/
def prepareForSleep : List Value → M Unit
  | [going] => do
    if going.truth then return
    let d ← get
    let (result, timers) := Scheduler.schedule d.wakeDelay Alarm.wakeSettled d.monitor.watch.timers
    set { d with monitor.watch.timers := timers }
    match result with
    | .ok _ => return
    | .error fault => throw fault
  | _ => throw .badValue

/-- Does what a source of the loop is for. -/
def perform : Task → M Bool
  | .poll => update
  | .alarm alarm => do
    onMonitor (Monitor.handle alarm)
    return false

/-- Tells every listener on the bus. -/
def tellListeners (going : Value) : StateM Daemon Unit := do
  for _ in (← get).bus.listeners do
    discard <| Loop.guarded (do prepareForSleep [going]; return true)

/-- The daemon as the one who polls for a charge controller. -/
def clientPoll (controller : Controller) (seconds : Value) : M ReturnCode := do
  let d ← get
  let poll (seconds : Value) : Controlled.M Daemon Unit := do
    let s ← get
    let (result, rest) := (setPollInterval seconds).run.run s.rest
    set { s with rest }
    Client.ofExcept result
  let act : Controlled.M Daemon ReturnCode :=
    Client.setPollingInterval (some (Controlled.owner (some poll))) seconds
  let (result, s) := act.run.run { controller, disk := d.disk, rest := d }
  set s.rest
  Client.ofExcept result

end Daemon

end BatteryMonitor
