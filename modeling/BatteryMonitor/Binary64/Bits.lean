import BatteryMonitor.Binary64.Basic

/-!
# The interchange format of doubles

A double as its 64 bits: the sign, eleven bits of exponent and 52 bits of significand.  The leading
bit of a full significand is not written; an exponent field of zero marks the numbers that lack it.
-/

namespace BatteryMonitor.Binary64

/-- The 64 bits of a number, read as one natural number. -/
def toBits : Binary64 → Nat
  | finite negative m e _ =>
    (if negative then Nat.pow 2 63 else 0) +
      (if m < Nat.pow 2 52 then m else (e + 1075).toNat * Nat.pow 2 52 + (m - Nat.pow 2 52))
  | infinite negative => (if negative then Nat.pow 2 63 else 0) + 2047 * Nat.pow 2 52
  | nan _ => 2047 * Nat.pow 2 52 + Nat.pow 2 51

/-- The number with the given 64 bits. -/
def ofBits (bits : Nat) : Binary64 :=
  let negative := decide (bits / Nat.pow 2 63 % 2 = 1)
  let field : Nat := bits / Nat.pow 2 52 % Nat.pow 2 11
  let fraction : Nat := bits % Nat.pow 2 52
  if field = 2047 then
    if fraction = 0 then infinite negative else nan fraction
  else if field = 0 then ofParts negative fraction (-1074)
  else ofParts negative (Nat.pow 2 52 + fraction) (Int.ofNat field - 1075)

end BatteryMonitor.Binary64
