import BatteryMonitor.CommandLine.Control
import BatteryMonitor.CommandLine.Display
import BatteryMonitor.CommandLine.Service

/-!
# The executable

One executable holds the three programs; its first argument chooses `status`, `control` or `daemon`, the
others are the program's own.  What the programs do is said by `Display.run`, `Control.run` and
`Service`; this module brings files from the machine onto a disk, carries files back, and lets time pass.
-/

namespace BatteryMonitor

open CommandLine

namespace Host

/-- The disk with a file of the machine on it.  What is there but cannot be read counts as a directory. -/
def bring (d : Disk) (p : Path) : IO Disk := do
  let d := (d.makeDirectories p.parent).toOption.getD d
  match d.locate p with
  | .error _ => return d
  | .ok place =>
    try
      let content ← IO.FS.readBinFile p.text
      return d.put place (.file content)
    catch e =>
      match e with
      | .noFileOrDirectory .. => return d.drop place
      | _ => return d.put place .directory

/-- The disk with files of the machine on it. -/
def bringAll (paths : List Path) (d : Disk) : IO Disk :=
  paths.foldlM bring d

/-- An attempt at something on the machine; tells whether it succeeded. -/
def attempt (act : IO Unit) : IO Bool := do
  try
    act
    return true
  catch _ => return false

/-- Writes a file of a disk onto the machine, in place. -/
def carry (d : Disk) (p : Path) : IO Bool :=
  match d.read p with
  | .ok content => attempt (IO.FS.writeBinFile p.text content)
  | .error _ => return true

/-- Makes a file of the machine what it is on a disk, written beside it first. -/
def replace (d : Disk) (p : Path) : IO Bool :=
  match d.read p with
  | .ok content => attempt do
    let draft := (p.withEnding ".tmp").text
    IO.FS.createDirAll p.parent.text
    IO.FS.writeBinFile draft content
    IO.FS.rename draft p.text
  | .error _ => attempt (IO.FS.removeFile p.text)

/-- Where the programs find their files. -/
def site : IO Site := do
  let home := (← IO.getEnv "HOME").getD "/"
  let settings := (← IO.getEnv "POWERSOURCED_CONFIG").getD (home ++ "/.config/powersourced/settings.json")
  return {
    settingsFile := .ofString settings
    stateFile := home ++ "/.local/share/powersourced/power_sources.json"
    pidFile := .ofString "/tmp/powersourced.pid" }

/-- The first number in a text behind a label. -/
def numberBehind (label text : String) (skipped : Nat) : Int :=
  match (text.splitOn label).drop 1 with
  | rest :: _ =>
    let fields := (rest.map fun c => if c.isWhitespace then ' ' else c).splitOn " "
    (((fields.filter (· != "")).drop skipped).head?.bind Numeral.integer?).getD (-1)
  | [] => -1

/-- A line of the system's account of this process. -/
def processNumber (label : String) (skipped : Nat) : IO Int := do
  try
    return numberBehind label (← IO.FS.readFile "/proc/self/status") skipped
  catch _ => return -1

/-- The process runs with administrator privilege. -/
def isAdmin : IO Bool := do
  return (← processNumber "Uid:" 1) = 0

/-- The processes of the machine, as far as the one in the pid file goes. -/
def processes (d : Disk) (pidFile : Path) : IO Processes := do
  let own ← processNumber "Pid:" 0
  match PidFile.holder? d pidFile with
  | none => return { own }
  | some pid =>
    let account := "/proc/" ++ String.ofList (Decimal.signedDigits pid) ++ "/status"
    let lives ← attempt (discard <| IO.FS.readFile account)
    return { own, alive := if lives then [pid] else [] }

/-- Writes what a program wrote, and ends as it ended. -/
def deliver (o : Outcome) : IO UInt32 := do
  IO.print o.output
  IO.eprint o.errors
  match o.ending with
  | .finished status | .left status => return status.toUInt32
  | .stopped fault =>
    IO.eprintln (match fault with
      | .telemetry trouble => trouble.message
      | _ => "stopped: a value or a file is not what it has to be")
    return 1

/-! ### The programs -/

/-- The display program. -/
def display (arguments : List String) : IO UInt32 := do
  let site ← site
  let d ← bring {} site.settingsFile
  let d ← bringAll (((Display.stateFile site d arguments).toOption).toList) d
  deliver (Display.run site d arguments)

/-- The control program.  If the file cannot be written the command runs again on a disk that is full. -/
def control (arguments : List String) : IO UInt32 := do
  let site ← site
  let isAdmin ← isAdmin
  let d ← bring {} site.settingsFile
  let file := match Control.form.parse arguments with
    | .ok p => ((Control.controlFile site d p).toOption).toList
    | .error _ => []
  let d ← bringAll file d
  let (outcome, after) := Control.run site d isAdmin arguments
  let carried ← if outcome = (Control.run site { d with full := true } isAdmin arguments).1 then
    pure true
  else
    file.allM (carry after)
  if carried then deliver outcome
  else deliver (Control.run site { d with full := true } isAdmin arguments).1

/-- Lets a service follow the machine for ever. -/
partial def follow (files : List Path) (stateFile : Path) (last : Nat) (s : Service) : IO UInt32 := do
  IO.sleep 100
  let now ← IO.monoMsNow
  let disk ← bringAll files s.disk
  let act : Service.M Unit := do
    discard <| Service.handle (.disk fun _ => disk)
    discard <| Service.handle (.lapse (now - last))
  let (_, next) := act.run s
  unless (next.disk.read stateFile).toOption = (s.disk.read stateFile).toOption do
    discard <| replace next.disk stateFile
  follow files stateFile now next

/-- The service program. -/
def service (arguments : List String) : IO UInt32 := do
  let site ← site
  match Service.form.parse arguments with
  | .error leave => deliver (Service.form.leave leave)
  | .ok p =>
    let named := ["--config", "--fake"].filterMap fun switch =>
      (p.switch? switch).bind fun v => (Path.ofValue v).toOption
    let files := site.settingsFile :: named
    let d ← bringAll (site.pidFile :: files) {}
    let stateFile := (do
      Path.ofValue (← Service.loadSettings site d (p.switch? "--config")).stateFile).toOption
    let d ← bringAll stateFile.toList d
    let sensor : Sensor := { initError := some "no sensor on this machine" }
    let machine : Machine := { site, processes := ← processes d site.pidFile, disk := d, sensor }
    match (Service.prepare machine p).1 with
    | .error outcome => deliver outcome
    | .ok s =>
      unless ← replace s.disk site.pidFile do
        return ← deliver (.failing "The pid file cannot be written")
      unless s.hasBegun do
        return ← deliver s.outcome
      IO.print s.outcome.output
      (← IO.getStdout).flush
      let (fault, s) := Service.start.run s
      discard <| stateFile.toList.allM (replace s.disk)
      match fault with
      | none => follow files (stateFile.getD site.pidFile) (← IO.monoMsNow) s
      | some fault =>
        let (_, s) := (Service.finish (some fault)).run s
        discard <| replace s.disk site.pidFile
        deliver { s.outcome with output := "" }

end Host

end BatteryMonitor

open BatteryMonitor in
/-- Runs the program that the first argument names. -/
def main : List String → IO UInt32
  | "status" :: arguments => Host.display arguments
  | "control" :: arguments => Host.control arguments
  | "daemon" :: arguments => Host.service arguments
  | _ => do
    IO.eprintln "usage: status [FILE] | control ... | daemon ..."
    return 2
