import BatteryMonitor.CommandLine.Outcome
import BatteryMonitor.Daemon
import BatteryMonitor.Process
import BatteryMonitor.Settings

/-!
# The service program

Runs the daemon as the only one on its machine.  The program goes through three stages: it prepares a service
(`Service.prepare`), which takes the pid file as its last step; it starts the daemon and lets it follow what
happens on the machine (`Service.start`, `Service.handle`) until a signal makes it quit; and at the
end, even if starting failed, it gives the pid file back (`Service.finish`).

Between the first two stages it says that it begins, and where.  A path that is torn cannot be said; then the
program stops there, and leaves the pid file behind (`Service.hasBegun`).

A signal whose handler fails, or does not ask for more, is not handled again.
-/

namespace BatteryMonitor.CommandLine

/-- The signals that are handled. -/
inductive Signal where
  /-- read the settings again -/
  | hangUp
  | terminate
  | interrupt
  deriving DecidableEq

/-- What the program finds when it is run. -/
structure Machine where
  site : Site
  processes : Processes := {}
  disk : Disk := {}
  sensor : Sensor := {}
  bus : Bus := {}

/-- A daemon that holds the pid file. -/
structure Service where
  daemon : Daemon
  site : Site
  processes : Processes
  /-- the settings file that was named, if one was -/
  settingsFile : Option Value
  outcome : Outcome
  /-- the signals that still have a handler -/
  handled : List Signal := [.hangUp, .terminate, .interrupt]

/-- Something that happens on the machine while the daemon runs. -/
inductive Event where
  /-- time passes, in milliseconds -/
  | lapse (ms : Nat)
  /-- the bus tells that the system goes to sleep, or that it woke -/
  | sleep (going : Value)
  | signal (signal : Signal)
  /-- the sensor answers otherwise from now on -/
  | sensor (sensor : Sensor)
  /-- the disk is changed by others -/
  | disk (change : Disk → Disk)

namespace Service

/-- What the program takes. -/
def form : Form where
  program := "powersourced"
  usage := "usage: powersourced [-h] [--config CONFIG] [--fake PATH] [-v]"
  help := "\noptions:\n" ++
    "  -h, --help       show this help message and exit\n" ++
    "  --config CONFIG  JSON settings file\n" ++
    "  --fake PATH      read fake batteries from a JSON snapshot file\n" ++
    "  -v, --verbose    debug logging\n"
  switches := [⟨["-h", "--help"], .help⟩, ⟨["--config"], .takeValue⟩, ⟨["--fake"], .takeValue⟩,
    ⟨["-v", "--verbose"], .turnOn⟩]
  words := []

/-! ### Preparing -/

/-- The outcome when another process holds the pid file. -/
def alreadyRunning : Outcome := .failing "Power source daemon already running"

/-- The settings of the file that was named, or of the site's own. -/
def loadSettings (site : Site) (d : Disk) : Option Value → Except Fault Settings
  | none => Settings.load site d none
  | some named => do Settings.load site d (some (← Path.ofValue named))

/-- The source of readings: the snapshot file that was named, or the sensor, which is set up by the
settings; also tells the steps of that. -/
def openSource (m : Machine) (settings : Settings) (named : Option Value) :
    Except Fault Source × List SensorCall :=
  let file := named.getD .null
  if file.truth then (do return .file { path := ← Path.ofValue file }, [])
  else
    let (result, calls) := Shunt.openSensor m.sensor
      [settings.shuntOhms, settings.i2cAddress, settings.i2cBus]
      [("capacity_mah", settings.nominalCapacity)]
    (do return .shunt (← result) m.sensor, calls)

/-- What is said when the service begins. -/
def greeting (own : Int) (stateFile : Text) : Outcome :=
  let started := "Power source daemon started (PID " ++ String.ofList (Decimal.signedDigits own) ++ ")"
  match Outcome.sayLines {} [started, stateFile.prepend "Publishing to "] with
  | .ok outcome => outcome
  | .error stopped => stopped

/-- The service of a source, if the pid file can be taken for it. -/
def take (m : Machine) (settings : Settings) (settingsFile : Option Value) (source : Source) :
    Except Outcome Service :=
  match settings.stateFile with
  | .text stateFile =>
    match Store.onFile m.disk (.ofText stateFile),
        PidFile.acquire m.processes m.disk m.site.pidFile with
    | .error fault, _ => .error (.stopping fault)
    | .ok _, .error fault => .error (.stopping fault)
    | .ok _, .ok (false, _) => .error alreadyRunning
    | .ok store, .ok (true, disk) =>
      let daemon := Daemon.create source { store with disk } settings.pollInterval
        settings.wakeResyncDelay m.bus {}
      .ok {
        daemon
        site := m.site
        processes := m.processes
        settingsFile
        outcome := greeting m.processes.own stateFile }
  | _ => .error (.stopping .wrongType)

/-- The service that arguments ask for, or why there is none; also tells the steps of setting the sensor
up. -/
def prepare (m : Machine) (p : Parsed) : Except Outcome Service × List SensorCall :=
  let settingsFile := p.switch? "--config"
  match PidFile.owner m.processes m.disk m.site.pidFile with
  | .error fault => (.error (.stopping fault), [])
  | .ok (some _) => (.error alreadyRunning, [])
  | .ok none =>
    match loadSettings m.site m.disk settingsFile with
    | .error fault => (.error (.stopping fault), [])
    | .ok settings =>
      let (result, calls) := openSource m settings (p.switch? "--fake")
      match result with
      | .error (.telemetry trouble) =>
        (.error (.failing ("Error initializing telemetry: " ++ trouble.message)), calls)
      | .error fault => (.error (.stopping fault), calls)
      | .ok source => (take m settings settingsFile source, calls)

/-! ### Running -/

/-- Operations on a service. -/
abbrev M := StateM Service

/-- The files of the machine. -/
def disk (s : Service) : Disk :=
  s.daemon.disk

/-- An operation on the daemon. -/
def onDaemon {α : Type} (act : StateM Daemon α) : M α :=
  modifyGet fun s =>
    let (a, daemon) := act.run s.daemon
    (a, { s with daemon })

/-- All was said that is said when the service begins. -/
def hasBegun (s : Service) : Bool :=
  s.outcome.ending = .finished 0

/-- The loop has not been told to quit. -/
def isRunning (s : Service) : Bool :=
  s.daemon.quits = 0

/-- Starts the daemon; a fault is what it could not start for. -/
def start : M (Option Fault) := do
  match ← onDaemon Daemon.start.run with
  | .ok _ => return none
  | .error fault => return some fault

/-- Reads the settings again, for the interval between polls. -/
def reload (site : Site) (settingsFile : Option Value) : Daemon.M Bool := do
  match loadSettings site (← get).disk settingsFile with
  | .error fault => throw fault
  | .ok settings =>
    Daemon.setPollInterval settings.pollInterval
    return true

/-- What the handler of a signal does; tells whether it goes on handling. -/
def respond (s : Service) : Signal → Daemon.M Bool
  | .hangUp => reload s.site s.settingsFile
  | .terminate | .interrupt => do
    Daemon.quit
    return false

/-- A signal arrives. -/
def deliver (signal : Signal) : M Unit := do
  let s ← get
  if s.handled.contains signal then
    unless ← onDaemon (Loop.guarded (s.respond signal)) do
      modify fun s => { s with handled := s.handled.filter (· != signal) }

/-- Something happens; tells how many calls the loop made, if time passed. -/
def handle : Event → M (Option Nat)
  | .lapse ms => do return some (← onDaemon (Loop.advance Daemon.perform ms))
  | .sleep going => do
    onDaemon (Daemon.tellListeners going)
    return none
  | .signal signal => do
    deliver signal
    return none
  | .sensor sensor => do
    onDaemon (modify (Daemon.replaceSensor sensor))
    return none
  | .disk change => do
    onDaemon (modify fun d => d.setDisk (change d.disk))
    return none

/-- Follows what happens until the loop is told to quit. -/
def follow : List Event → M Unit
  | [] => return
  | event :: events => do
    if (← get).isRunning then
      discard <| handle event
      follow events

/-! ### Ending -/

/-- Gives the pid file back and ends: with the fault, if there was one, unless giving the file back fails
too. -/
def finish (fault : Option Fault) : M Unit :=
  modify fun s =>
    match PidFile.release s.processes s.disk s.site.pidFile with
    | .ok disk =>
      { s with
        daemon := s.daemon.setDisk disk
        outcome.ending := (fault.map Ending.stopped).getD (.finished 0) }
    | .error fault => { s with outcome.ending := .stopped fault }

/-- The whole life of a prepared service: what happens, and a signal to terminate behind it. -/
def live (events : List Event) : M Unit := do
  match ← start with
  | some fault => finish (some fault)
  | none =>
    follow (events ++ [.signal .terminate])
    finish none

/-- Runs the program while things happen on the machine. -/
def run (m : Machine) (arguments : List String) (events : List Event) : Outcome × Disk :=
  match form.parse arguments with
  | .error leave => (form.leave leave, m.disk)
  | .ok p =>
    match (prepare m p).1 with
    | .error outcome => (outcome, m.disk)
    | .ok s =>
      let s := if s.hasBegun then ((live events).run s).2 else s
      (s.outcome, s.disk)

end Service

end BatteryMonitor.CommandLine
