/-!
# The exact value of a number

What a comparison of two numbers looks at: a rational, one of the two infinities, or nothing at
all.  Integers and doubles both have such a value (`Extended.real`), so that an integer and a double
are compared exactly, and a number that is none compares false with everything, itself included.
-/

namespace BatteryMonitor

/-- A rational, an infinity, or no number at all. -/
inductive Extended where
  | undefined
  | bottom
  | real (q : Rat)
  | top
  deriving DecidableEq

namespace Extended

/-- `a < b`, never with an undefined value. -/
def lt : Extended → Extended → Bool
  | .real p, .real q => decide (p < q)
  | .bottom, .real _ | .bottom, .top | .real _, .top => true
  | _, _ => false

/-- `a = b` as numbers, never with an undefined value. -/
def eq : Extended → Extended → Bool
  | .real p, .real q => decide (p = q)
  | .bottom, .bottom | .top, .top => true
  | _, _ => false

/-- `a ≤ b`, never with an undefined value. -/
def le (a b : Extended) : Bool :=
  a.lt b || a.eq b

/-- The value is zero. -/
def isZero (a : Extended) : Bool :=
  a.eq (.real 0)

end Extended

end BatteryMonitor
