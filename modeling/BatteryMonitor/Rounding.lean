/-!
# Rounding exact numbers to integers

The three ways in which a quotient becomes an integer: to the nearest one with ties to even, with
the fraction dropped, and downwards (`Rat.floor`).  `Rounding.nearest` works on a quotient of two
natural numbers and is what the rounding to a double is made of; the other two read a rational.
-/

namespace BatteryMonitor

namespace Rounding

/-- The natural number nearest to `n / d`, a tie going to the even one. -/
def nearest (n d : Nat) : Nat :=
  let q := n / d
  let r := 2 * (n % d)
  if r < d ∨ (r = d ∧ q % 2 = 0) then q else q + 1

/-- The integer nearest to `q`, a tie going to the even one. -/
def toNearest (q : Rat) : Int :=
  let m : Int := nearest q.num.natAbs q.den
  if q.num < 0 then -m else m

/-- The integer part of `q`, its fraction dropped. -/
def towardZero (q : Rat) : Int :=
  Int.tdiv q.num q.den

end Rounding

end BatteryMonitor
