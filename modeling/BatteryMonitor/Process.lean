import BatteryMonitor.Decimal.Numeral
import BatteryMonitor.Disk.Basic

/-!
# Processes and the file that guards a single instance

A pid file holds the number of the process that runs.  A file that names no live process is taken over
(`PidFile.acquire`); a process of another user, which may not be signalled, does not count as live.
-/

namespace BatteryMonitor

/-- The processes of a machine as one of them sees them. -/
structure Processes where
  /-- the process that looks -/
  own : Int := 4242
  /-- other processes that can be signalled -/
  alive : List Int := []
  /-- processes of other users -/
  denied : List Int := []

namespace Processes

/-- The process can be signalled; numbers beyond the range of process numbers cannot even be asked for. -/
def canSignal (ps : Processes) (pid : Int) : Except Fault Bool :=
  if pid = ps.own ∨ pid ∈ ps.alive then .ok true
  else if pid ∈ ps.denied then .ok false
  else if -2147483648 ≤ pid ∧ pid ≤ 2147483647 then .ok false
  else .error .tooLarge

end Processes

namespace PidFile

/-- The number in a pid file, if it can be read. -/
def holder? (d : Disk) (p : Path) : Option Int :=
  match d.readText p with
  | .ok s => Numeral.integer? (Text.trim s)
  | .error _ => none

/-- The live process that holds a pid file, if there is one. -/
def owner (ps : Processes) (d : Disk) (p : Path) : Except Fault (Option Int) :=
  match holder? d p with
  | none => .ok none
  | some pid => do return if ← ps.canSignal pid then some pid else none

/-- Takes a pid file unless a live process holds it; tells whether it was taken. -/
def acquire (ps : Processes) (d : Disk) (p : Path) : Except Fault (Bool × Disk) := do
  match ← owner ps d p with
  | some _ => return (false, d)
  | none => return (true, ← d.writeText p (String.ofList (Decimal.signedDigits ps.own)))

/-- Removes a pid file that the process itself holds. -/
def release (ps : Processes) (d : Disk) (p : Path) : Except Fault Disk := do
  if (← owner ps d p) = some ps.own then d.remove p else return d

end PidFile

end BatteryMonitor
