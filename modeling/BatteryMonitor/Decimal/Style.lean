import BatteryMonitor.Decimal.Shortest

/-!
# The text of a double

A double is written with its shortest digits.  `Decimal.Style` holds the decisions of a format:
between which leading places the digits are written around a point, and the words for the numbers
that have no digits.  Outside those places one digit stands before the point, and the place follows
with its sign and at least two digits.
-/

namespace BatteryMonitor.Decimal

/-- How a format writes doubles. -/
structure Style where
  /-- the least leading place written around a point -/
  leastPlace : Int := -4
  /-- the places from here on are written with an exponent -/
  exponentFrom : Int := 16
  infinity : String
  nan : String

/-- Zeros to fill a gap. -/
def zeros (n : Int) : List Char :=
  List.replicate n.toNat '0'

/-- A decimal around a point, with at least one digit on both sides of it. -/
def positional (d : Decimal) : List Char :=
  let ds := digits d.significand
  if 0 ≤ d.exponent then ds ++ zeros d.exponent ++ ['.', '0']
  else
    let whole := d.exponent + ds.length
    if 0 < whole then ds.take whole.toNat ++ '.' :: ds.drop whole.toNat
    else '0' :: '.' :: (zeros (-whole) ++ ds)

/-- A decimal with an exponent. -/
def withExponent (d : Decimal) : List Char :=
  let ds := digits d.significand
  let place := d.exponent + ds.length - 1
  let exponent := digits place.natAbs
  let mantissa := match ds with
    | first :: next :: rest => first :: '.' :: next :: rest
    | _ => ds
  mantissa ++ ['e', if place < 0 then '-' else '+'] ++ zeros (2 - exponent.length) ++ exponent

namespace Style

/-- The text of a positive decimal. -/
def decimal (style : Style) (d : Decimal) : List Char :=
  let place := d.exponent + length d.significand - 1
  if style.leastPlace ≤ place ∧ place < style.exponentFrom then positional d else withExponent d

/-- The text of a double. -/
def render (style : Style) : Binary64 → String
  | .finite negative m e _ =>
    let text :=
      if m = 0 then ['0', '.', '0']
      else style.decimal (shortest (m * Nat.pow 2 e.toNat) (Nat.pow 2 (-e).toNat))
    String.ofList (if negative then '-' :: text else text)
  | .infinite negative => if negative then "-" ++ style.infinity else style.infinity
  | .nan _ => style.nan

end Style

end BatteryMonitor.Decimal
