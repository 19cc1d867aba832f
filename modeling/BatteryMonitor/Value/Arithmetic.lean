import BatteryMonitor.Value.Basic
import BatteryMonitor.Decimal.Numeral

/-!
# Arithmetic on values

Integers are added and multiplied exactly; as soon as a double takes part, the integer becomes the
nearest double first, and one beyond the range of doubles is `Fault.tooLarge`.  A quotient is always
a double, of two integers the one nearest to the exact quotient.  A value that is no number is
`Fault.wrongType`, and so is an ordering that involves one.
-/

namespace BatteryMonitor

namespace Number

/-- The nearest double. -/
def toDouble : Number → Except Fault Binary64
  | double x => .ok x
  | int n =>
    match Binary64.ofInt n with
    | .infinite _ => .error .tooLarge
    | x => .ok x

/-- An operation on two integers or on two doubles. -/
def combine (ints : Int → Int → Int) (doubles : Binary64 → Binary64 → Binary64) :
    Number → Number → Except Fault Number
  | int m, int n => .ok (.int (ints m n))
  | a, b => do
    let x ← a.toDouble
    let y ← b.toDouble
    return .double (doubles x y)

/-- The sum. -/
def add : Number → Number → Except Fault Number := combine (· + ·) Binary64.add

/-- The difference. -/
def sub : Number → Number → Except Fault Number := combine (· - ·) Binary64.sub

/-- The product. -/
def mul : Number → Number → Except Fault Number := combine (· * ·) Binary64.mul

/-- The quotient. -/
def div : Number → Number → Except Fault Binary64
  | int m, int n =>
    if n = 0 then .error .divisionByZero
    else
      match Binary64.ofRatio (decide (m < 0) != decide (n < 0)) m.natAbs n.natAbs with
      | .infinite _ => .error .tooLarge
      | x => .ok x
  | a, b => do
    let x ← a.toDouble
    let y ← b.toDouble
    if y.value.isZero then .error .divisionByZero else return x.div y

/-- The number without its sign. -/
def abs : Number → Number
  | int n => .int n.natAbs
  | double x => .double x.abs

end Number

namespace Binary64

/-- An integer made of the value of a double. -/
def toInteger (f : Rat → Int) (x : Binary64) : Except Fault Int :=
  match x.value with
  | .real q => .ok (f q)
  | .undefined => .error .badValue
  | .bottom | .top => .error .tooLarge

/-- The double without its fraction. -/
def truncate : Binary64 → Except Fault Int := toInteger Rounding.towardZero

/-- The integer at or below a double. -/
def floor : Binary64 → Except Fault Int := toInteger Rat.floor

/-- The integer nearest to a double, a tie going to the even one. -/
def round : Binary64 → Except Fault Int := toInteger Rounding.toNearest

end Binary64

namespace Value

/-- `a < b` as numbers. -/
def less (a b : Value) : Except Fault Bool := do
  let m ← a.number
  let n ← b.number
  return m.value.lt n.value

/-- `a ≤ b` as numbers. -/
def atMost (a b : Value) : Except Fault Bool := do
  let m ← a.number
  let n ← b.number
  return m.value.le n.value

/-- The value as an integer, a fraction dropped; strings are read. -/
def toInteger : Value → Except Fault Int
  | bool b => .ok (if b then 1 else 0)
  | int n => .ok n
  | float x => x.truncate
  | text (.whole s) =>
    match Numeral.integer? s with
    | some n => .ok n
    | none => .error .badValue
  | text (.torn _) => .error .badValue
  | null | list _ | object _ => .error .wrongType

/-- The value as a double; strings are read. -/
def toDouble : Value → Except Fault Binary64
  | text (.whole s) =>
    match Numeral.double? s with
    | some x => .ok x
    | none => .error .badValue
  | text (.torn _) => .error .badValue
  | v => do (← v.number).toDouble

/-- The integer nearest to a number, a tie going to the even one. -/
def round (v : Value) : Except Fault Int := do
  match ← v.number with
  | .int n => return n
  | .double x => x.round

end Value

end BatteryMonitor
