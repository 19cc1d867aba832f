import BatteryMonitor.CommandLine.Arguments
import BatteryMonitor.Fault

/-!
# How a program ends

A program writes lines to its two outputs and ends with a status, or stops with a fault; what it wrote before
stays written.  A torn text cannot be written, and the program stops at it.  One that leaves while it reads its arguments (`Form.leave`) either shows its help, or
complains below the line of its usage.
-/

namespace BatteryMonitor.CommandLine

/-- How a program ended. -/
inductive Ending where
  /-- it ran to its end -/
  | finished (status : Nat)
  /-- it left while it read its arguments -/
  | left (status : Nat)
  /-- it could not go on -/
  | stopped (fault : Fault)
  deriving DecidableEq

/-- What a program wrote, and how it ended. -/
structure Outcome where
  ending : Ending := .finished 0
  output : String := ""
  errors : String := ""
  deriving DecidableEq

namespace Outcome

/-- The outcome with one more line written before its end. -/
def say (o : Outcome) (line : String) : Outcome :=
  { o with output := o.output ++ line ++ "\n" }

/-- The outcome with lines written one after the other, or that of the program which stops at one of them
that is torn. -/
def sayLines (o : Outcome) : List Text → Except Outcome Outcome
  | [] => .ok o
  | .whole line :: lines => sayLines (o.say line) lines
  | .torn _ :: _ => .error { o with ending := .stopped .badValue }

/-- The outcome of a program that ends with a status other than zero, having said why. -/
def failing (line : String) : Outcome :=
  { ending := .finished 1, errors := line ++ "\n" }

/-- The outcome of a program that stops. -/
def stopping (fault : Fault) : Outcome :=
  { ending := .stopped fault }

end Outcome

/-- The outcome of a program that leaves while it reads its arguments. -/
def Form.leave (f : Form) : Leave → Outcome
  | .help => { ending := .left 0, output := f.usage ++ "\n" ++ f.help }
  | .refused complaint =>
    { ending := .left 2
      errors := f.usage ++ "\n" ++ f.program ++ ": error: " ++ complaint.message ++ "\n" }

end BatteryMonitor.CommandLine
