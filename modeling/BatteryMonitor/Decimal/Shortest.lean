import BatteryMonitor.Binary64.Basic
import BatteryMonitor.Decimal.Digits

/-!
# The shortest decimal of a double

`Decimal.toBinary64` reads a decimal as the nearest double.  `Decimal.shortest` goes the other way:
of the decimals that read back as the given double it takes one with the fewest digits, and of
those the one nearest to it.  On a grid of decimals only the two neighbours of the double have to
be tried: if any point of the grid reads back, then so does one of them.  Seventeen digits always
suffice.
-/

namespace BatteryMonitor

/-- The decimal `significand * 10^exponent`. -/
structure Decimal where
  significand : Nat
  exponent : Int
  deriving DecidableEq

namespace Decimal

/-- The double nearest to a decimal, signed. -/
def toBinary64 (negative : Bool) (d : Decimal) : Binary64 :=
  let top := d.exponent + length d.significand
  if d.significand = 0 ∨ top < -330 then .zero negative
  else if 310 < top then .infinite negative
  else .ofRatio negative (d.significand * Nat.pow 10 d.exponent.toNat) (Nat.pow 10 (-d.exponent).toNat)

/-- The place of the leading digit of `n / d`. -/
def leadingPlace (n d : Nat) : Int :=
  let k : Int := (length n : Int) - (length d : Int)
  let reached := if 0 ≤ k then d * Nat.pow 10 k.toNat ≤ n else d ≤ n * Nat.pow 10 (-k).toNat
  if reached then k else k - 1

/-- The nearer neighbour of `n / d` among the multiples of `10^place` that read back as `x`, the
even one of two that are equally near. -/
def neighbour? (x : Binary64) (n d : Nat) (place : Int) : Option Decimal :=
  let num := n * Nat.pow 10 (-place).toNat
  let den := d * Nat.pow 10 place.toNat
  let lower : Decimal := ⟨num / den, place⟩
  let upper : Decimal := ⟨num / den + 1, place⟩
  let nearest : Decimal := ⟨Rounding.nearest num den, place⟩
  if nearest.toBinary64 false = x then some nearest
  else if lower.toBinary64 false = x then some lower
  else if upper.toBinary64 false = x then some upper
  else none

/-- The same decimal without zeros at its end. -/
def strip (d : Decimal) : Decimal :=
  if d.significand ≠ 0 ∧ d.significand % 10 = 0 then strip ⟨d.significand / 10, d.exponent + 1⟩
  else d
termination_by d.significand
decreasing_by omega

/-- The shortest decimal that reads back as `n / d`, for a quotient that is a positive double. -/
def shortest (n d : Nat) : Decimal :=
  let x := Binary64.ofRatio false n d
  let top := leadingPlace n d
  match (List.range 17).findSome? fun (k : Nat) => neighbour? x n d (top - k) with
  | some decimal => decimal.strip
  | none => ⟨Rounding.nearest n d, 0⟩

end Decimal

end BatteryMonitor
