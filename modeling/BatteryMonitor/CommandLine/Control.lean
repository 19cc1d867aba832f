import BatteryMonitor.ChargeControl
import BatteryMonitor.CommandLine.Outcome
import BatteryMonitor.Settings
import BatteryMonitor.Value.Display

/-!
# The control program

One command for the charge controller: a restriction and a level.  The file of the controller is the one that
is named, or that of the settings.  The user has to be the administrator.
-/

namespace BatteryMonitor.CommandLine.Control

/-- The command that disables the inflow. -/
def inflow : String := "inflow"

/-- The command that inhibits charging. -/
def inhibit : String := "inhibit"

/-- What the program takes. -/
def form : Form where
  program := "powersource-ctl"
  usage := "usage: powersource-ctl [-h] [--path PATH] \x7binflow,inhibit\x7d level"
  help := "\nPrivileged battery control commands.\n\n" ++
    "positional arguments:\n" ++
    "  \x7binflow,inhibit\x7d  inflow: disable AC inflow, inhibit: inhibit charging\n" ++
    "  level             1 to enable, 0 to return to normal\n\n" ++
    "options:\n" ++
    "  -h, --help        show this help message and exit\n" ++
    "  --path PATH       charge_behaviour file to write\n"
  switches := [⟨["-h", "--help"], .help⟩, ⟨["--path"], .takeValue⟩]
  words := [⟨"command", .oneOf [inflow, inhibit]⟩, ⟨"level", .integer⟩]

/-- The file of the controller. -/
def controlFile (site : Site) (d : Disk) (p : Parsed) : Except Fault Path :=
  match p.switch? "--path" with
  | some named =>
    if named.truth then Path.ofValue named
    else do Path.ofValue (← Settings.load site d none).chargeBehaviourPath
  | none => do Path.ofValue (← Settings.load site d none).chargeBehaviourPath

/-- Passes the command to a controller. -/
def command (isAdmin : Bool) (name level : Value) (controller : Controller) (d : Disk) :
    Except Fault ReturnCode × Disk :=
  let owner : Option (Owner (Controlled.M Unit)) := some (Controlled.owner none)
  let act :=
    if name.isText inflow then Client.disableInflow owner isAdmin level
    else Client.inhibitCharging owner isAdmin level
  let (result, s) := act.run.run { controller, disk := d, rest := () }
  (result, s.disk)

/-- What is said of a command and its return code. -/
def report (name level : String) (code : ReturnCode) : Outcome :=
  let said := name ++ " " ++ level ++ ": "
  match code with
  | .success => Outcome.say {} (said ++ "ok")
  | code => .failing (said ++ code.words)

/-- Carries out what the arguments say. -/
def perform (site : Site) (d : Disk) (isAdmin : Bool) (p : Parsed) : Outcome × Disk :=
  match controlFile site d p with
  | .error fault => (.stopping fault, d)
  | .ok path =>
    let name := p.word "command"
    let level := p.word "level"
    let (result, d) := command isAdmin name level { path } d
    let outcome := do return report (← name.printed) (← level.printed) (← result)
    match outcome with
    | .ok outcome => (outcome, d)
    | .error fault => (.stopping fault, d)

/-- Runs the program. -/
def run (site : Site) (d : Disk) (isAdmin : Bool) (arguments : List String) : Outcome × Disk :=
  match form.parse arguments with
  | .error leave => (form.leave leave, d)
  | .ok p => perform site d isAdmin p

end BatteryMonitor.CommandLine.Control
