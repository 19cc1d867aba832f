/-!
# Decimal digits of natural numbers

`Decimal.digits` writes a natural number in base ten and `Decimal.ofDigits` reads digits back; a
number has as many digits as `Decimal.length` counts.  Only the ten ASCII digits are written and
read here (`Decimal.digitChar`, `Decimal.digitValue?`).

Texts of integers are bounded: an integer of more than `Decimal.digitLimit` digits is neither
written nor read (`Decimal.withinLimit`).
-/

namespace BatteryMonitor.Decimal

/-- The character of a digit below ten. -/
def digitChar (d : Nat) : Char :=
  Char.ofNat ('0'.toNat + d % 10)

/-- The value of an ASCII digit. -/
def digitValue? (c : Char) : Option Nat :=
  if '0' ≤ c ∧ c ≤ '9' then some (c.toNat - '0'.toNat) else none

/-- The digits of `n`, the most significant first, in front of `rest`. -/
def digitsOnto (n : Nat) (rest : List Char) : List Char :=
  if n < 10 then digitChar n :: rest
  else digitsOnto (n / 10) (digitChar (n % 10) :: rest)
termination_by n

/-- The digits of `n`, the most significant first. -/
def digits (n : Nat) : List Char :=
  digitsOnto n []

/-- The number that digit values stand for, the most significant first. -/
def ofDigits (ds : List Nat) : Nat :=
  ds.foldl (fun n d => 10 * n + d) 0

/-- How many digits `n` is written with. -/
def length (n : Nat) : Nat :=
  if n < 10 then 1 else length (n / 10) + 1
termination_by n

/-- The largest number of digits in the text of an integer. -/
def digitLimit : Nat := 4300

/-- The integer has a text. -/
def withinLimit (n : Int) : Bool :=
  n.natAbs < Nat.pow 10 digitLimit

/-- The digits of an integer after its sign. -/
def signedDigits (n : Int) : List Char :=
  if n < 0 then '-' :: digits n.natAbs else digits n.natAbs

end BatteryMonitor.Decimal
