import BatteryMonitor.Disk.Basic
import BatteryMonitor.Json.Reader

/-!
# Settings

The settings of the programs, each with a default, overridden by the members of a JSON file that bear their
names.  A file that is missing or is no JSON text leaves all defaults in force.
-/

namespace BatteryMonitor

/-- Where the programs find their files. -/
structure Site where
  /-- the settings file that is read when no other is named -/
  settingsFile : Path
  /-- the state file when the settings name no other -/
  stateFile : String
  /-- the file that guards the daemon's single instance -/
  pidFile : Path

/-- The settings of the programs. -/
structure Settings where
  /-- seconds between polls -/
  pollInterval : Value := .int 5
  /-- seconds that the clock needs to settle after a wake -/
  wakeResyncDelay : Value := .int 1
  stateFile : Value
  /-- the capacity of the full pack in mAh -/
  nominalCapacity : Value := .int 3400
  /-- the resistance of the shunt -/
  shuntOhms : Value := .float 0.1
  i2cAddress : Value := .int 0x41
  i2cBus : Value := .int 1
  /-- the kernel's file that controls charging -/
  chargeBehaviourPath : Value := .text "/sys/class/power_supply/BAT0/charge_behaviour"

namespace Settings

/-- The settings that are in force without a file. -/
def default (site : Site) : Settings where
  stateFile := .text site.stateFile

/-- The settings with one of them written; other names are ignored. -/
def setField (s : Settings) (name : String) (v : Value) : Settings :=
  match name with
  | "poll_interval" => { s with pollInterval := v }
  | "wake_resync_delay" => { s with wakeResyncDelay := v }
  | "state_file" => { s with stateFile := v }
  | "nominal_capacity_mah" => { s with nominalCapacity := v }
  | "shunt_ohms" => { s with shuntOhms := v }
  | "i2c_address" => { s with i2cAddress := v }
  | "i2c_bus" => { s with i2cBus := v }
  | "charge_behaviour_path" => { s with chargeBehaviourPath := v }
  | _ => s

/-- The settings overridden by the members of an object. -/
def override (s : Settings) (members : Table Value) : Settings :=
  members.foldl (fun s (k, v) =>
    match k with
    | .text (.whole name) => s.setField name v
    | _ => s) s

/-- The settings by their names. -/
def toTable (s : Settings) : Table Value :=
  [("poll_interval", s.pollInterval), ("wake_resync_delay", s.wakeResyncDelay),
    ("state_file", s.stateFile), ("nominal_capacity_mah", s.nominalCapacity),
    ("shunt_ohms", s.shuntOhms), ("i2c_address", s.i2cAddress), ("i2c_bus", s.i2cBus),
    ("charge_behaviour_path", s.chargeBehaviourPath)]

/-- The settings of a file, of the site's own if none is named. -/
def load (site : Site) (d : Disk) (file : Option Path) : Except Fault Settings := do
  let path := file.getD site.settingsFile
  if !(← d.hasPath path) then return default site
  match d.read path >>= Json.parseBytes with
  | .ok (.object members) => return (default site).override members
  | .ok _ => throw .notRecord
  | .error .tooDeep => throw .tooDeep
  | .error _ => return default site

end Settings

end BatteryMonitor
