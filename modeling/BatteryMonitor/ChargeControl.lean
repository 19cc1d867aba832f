import BatteryMonitor.Disk.Basic
import BatteryMonitor.Value.Arithmetic
import BatteryMonitor.Value.Equality

/-!
# Controlling the charge

Two restrictions can be put on a battery: no inflow, so that it is discharged even on external power, and
no charging.  A `Controller` writes the behaviour that follows from both to a file of the kernel; no
inflow goes first.  A `Client` stands before it and lets only administrators and only the levels zero
and one through.

Writing the file may fail; the restrictions asked for are remembered even so.
-/

namespace BatteryMonitor

/-- How a command ended. -/
inductive ReturnCode where
  | success
  | error
  | badArgument
  | notPrivileged
  deriving DecidableEq, Repr

namespace ReturnCode

/-- All codes, by their numbers. -/
def all : List ReturnCode := [success, error, badArgument, notPrivileged]

/-- The number of a code. -/
def number : ReturnCode → Int
  | success => 0
  | error => 1
  | badArgument => 2
  | notPrivileged => 3

/-- The code with a number. -/
def ofValue (v : Value) : Except Fault ReturnCode :=
  match all.find? fun code => v.equalsInt code.number with
  | some code => .ok code
  | none => .error .badValue

/-- The code in words. -/
def words : ReturnCode → String
  | success => "success"
  | error => "error"
  | badArgument => "bad argument"
  | notPrivileged => "not privileged"

end ReturnCode

/-! ### The kernel's file -/

/-- The restrictions asked for, and the file that carries them out. -/
structure Controller where
  path : Path
  inflowDisabled : Bool := false
  chargeInhibited : Bool := false

namespace Controller

/-- The behaviour that restrictions amount to. -/
def behaviour (inflowDisabled chargeInhibited : Bool) : String :=
  if inflowDisabled then "force-discharge"
  else if chargeInhibited then "inhibit-charge"
  else "auto"

/-- Writes the behaviour to the file. -/
def apply (c : Controller) (d : Disk) : Except Fault ReturnCode × Disk :=
  match d.writeText c.path (behaviour c.inflowDisabled c.chargeInhibited ++ "\n") with
  | .ok written => (.ok .success, written)
  | .error (.disk _) => (.ok .error, d)
  | .error fault => (.error fault, d)

/-- Disables the inflow, or enables it at a level that is false. -/
def disableInflow (level : Value) (c : Controller) (d : Disk) :
    Except Fault ReturnCode × Controller × Disk :=
  let c := { c with inflowDisabled := level.truth }
  let (result, d) := c.apply d
  (result, c, d)

/-- Inhibits charging, or permits it at a level that is false. -/
def inhibitCharging (level : Value) (c : Controller) (d : Disk) :
    Except Fault ReturnCode × Controller × Disk :=
  let c := { c with chargeInhibited := level.truth }
  let (result, d) := c.apply d
  (result, c, d)

end Controller

/-! ### Clients -/

/-- Who carries out what a client asks for; the answer stands for a return code. -/
structure Owner (m : Type → Type) where
  disableInflow : Value → m Value
  inhibitCharging : Value → m Value
  setPollingInterval : Value → m Value

namespace Client

variable {m : Type → Type} [Monad m] [MonadExcept Fault m]

/-- A result or its fault. -/
def ofExcept {α : Type} : Except Fault α → m α
  | .ok a => pure a
  | .error fault => throw fault

/-- The level is zero or one. -/
def isLevel (level : Value) : Bool :=
  level.equalsInt 0 || level.equalsInt 1

/-- Passes a level on for an administrator. -/
def secured (command : Owner m → Value → m Value) (owner : Option (Owner m)) (isAdmin : Bool)
    (level : Value) : m ReturnCode :=
  if !isLevel level then pure .badArgument
  else
    match owner, isAdmin with
    | some owner, true => do ofExcept (ReturnCode.ofValue (← command owner level))
    | _, _ => pure .notPrivileged

/-- Disables or enables the inflow. -/
def disableInflow (owner : Option (Owner m)) (isAdmin : Bool) (level : Value) : m ReturnCode :=
  secured Owner.disableInflow owner isAdmin level

/-- Inhibits or permits charging. -/
def inhibitCharging (owner : Option (Owner m)) (isAdmin : Bool) (level : Value) : m ReturnCode :=
  secured Owner.inhibitCharging owner isAdmin level

/-- Sets the interval between polls, which has to be positive. -/
def setPollingInterval (owner : Option (Owner m)) (seconds : Value) : m ReturnCode := do
  if ← ofExcept (seconds.atMost (.int 0)) then return .badArgument
  match owner with
  | none => return .error
  | some owner => ofExcept (ReturnCode.ofValue (← owner.setPollingInterval seconds))

end Client

/-! ### A controller as an owner -/

/-- A controller on a disk, with what it does with an interval, if it does anything. -/
structure Controlled (σ : Type) where
  controller : Controller
  disk : Disk
  /-- the state of the one who polls -/
  rest : σ

namespace Controlled

variable {σ : Type}

/-- Operations on a controller. -/
abbrev M (σ : Type) := ExceptT Fault (StateM (Controlled σ))

/-- An operation of the controller. -/
def command (act : Controller → Disk → Except Fault ReturnCode × Controller × Disk) :
    M σ ReturnCode := do
  let s ← get
  let (result, controller, disk) := act s.controller s.disk
  set { s with controller, disk }
  Client.ofExcept result

/-- The owner that a controller is; without someone who polls, an interval is an error. -/
def owner (poller : Option (Value → M σ Unit)) : Owner (M σ) where
  disableInflow level := do return .int (← command (Controller.disableInflow level)).number
  inhibitCharging level := do return .int (← command (Controller.inhibitCharging level)).number
  setPollingInterval seconds :=
    match poller with
    | none => return .int ReturnCode.error.number
    | some poll => do
      poll seconds
      return .int ReturnCode.success.number

end Controlled

end BatteryMonitor
