import BatteryMonitor.Extended
import BatteryMonitor.Rounding

/-!
# Double precision numbers, exactly

A double is kept as what it denotes: a sign, an integer below `2^53` and a power of two, with the
significand as large as the format allows (`Binary64.Canonical`), so that every finite number has
one representation for each sign.  `Binary64.ofRatio` rounds a quotient of two natural numbers to
the nearest double, a tie to the even significand, and gives an infinity where the format ends:
the rounded parts are then not canonical, which is all that `Binary64.ofParts` has to look at.

A number that is none carries a tag, the mark of the place it came from.  The tag takes no part in
arithmetic or comparison; it only tells whether two of them are one and the same.
-/

namespace BatteryMonitor

/-- The parts of a finite double: the significand has 53 bits unless the exponent is the least. -/
def Binary64.Canonical (significand : Nat) (exponent : Int) : Prop :=
  significand < Nat.pow 2 53 ∧ -1074 ≤ exponent ∧ exponent ≤ 971 ∧
    (Nat.pow 2 52 ≤ significand ∨ exponent = -1074)

instance (significand : Nat) (exponent : Int) :
    Decidable (Binary64.Canonical significand exponent) :=
  inferInstanceAs (Decidable (_ ∧ _))

/-- A double precision number. -/
inductive Binary64 where
  | finite (negative : Bool) (significand : Nat) (exponent : Int)
      (canonical : Binary64.Canonical significand exponent)
  | infinite (negative : Bool)
  | nan (tag : Nat)
  deriving DecidableEq

namespace Binary64

/-! ### Exact values -/

/-- `n * 2^e` as a rational. -/
def scaled (n : Int) (e : Int) : Rat :=
  if 0 ≤ e then (n * Nat.pow 2 e.toNat : Int) else mkRat n (Nat.pow 2 (-e).toNat)

/-- The value that a double stands for. -/
def value : Binary64 → Extended
  | finite negative m e _ => .real (scaled (if negative then -m else m) e)
  | infinite negative => if negative then .bottom else .top
  | nan _ => .undefined

/-- The sign, which zero and the infinities have too. -/
def isNegative : Binary64 → Bool
  | finite negative .. => negative
  | infinite negative => negative
  | nan _ => false

/-! ### Rounding -/

/-- Zero with a sign. -/
def zero (negative : Bool) : Binary64 :=
  finite negative 0 (-1074) (by decide)

/-- The double with the given parts, an infinity if there is none. -/
def ofParts (negative : Bool) (significand : Nat) (exponent : Int) : Binary64 :=
  if h : Canonical significand exponent then finite negative significand exponent h
  else infinite negative

/-- The exponent of the last place of the doubles next to `n / d`. -/
def placeOf (n d : Nat) : Int :=
  let k : Int := (n.log2 : Int) - (d.log2 : Int)
  let reached := if 0 ≤ k then d * Nat.pow 2 k.toNat ≤ n else d ≤ n * Nat.pow 2 (-k).toNat
  max (if reached then k - 52 else k - 53) (-1074)

/-- The double nearest to `n / d`, a tie going to the even significand. -/
def ofRatio (negative : Bool) (n d : Nat) : Binary64 :=
  if n = 0 then zero negative
  else
    let e := placeOf n d
    let m := Rounding.nearest (n * Nat.pow 2 (-e).toNat) (d * Nat.pow 2 e.toNat)
    if m = Nat.pow 2 53 then ofParts negative (Nat.pow 2 52) (e + 1) else ofParts negative m e

/-- The double nearest to `q`; a zero takes the sign given for it. -/
def ofRat (zeroSign : Bool) (q : Rat) : Binary64 :=
  ofRatio (if q.num = 0 then zeroSign else decide (q.num < 0)) q.num.natAbs q.den

/-- The double nearest to an integer. -/
def ofInt (n : Int) : Binary64 :=
  ofRatio (decide (n < 0)) n.natAbs 1

instance (n : Nat) : OfNat Binary64 n := ⟨ofRatio false n 1⟩

/-- Decimal literals denote the nearest double. -/
instance : OfScientific Binary64 where
  ofScientific m s e := if s then ofRatio false m (Nat.pow 10 e) else ofRatio false (m * Nat.pow 10 e) 1

instance : Inhabited Binary64 := ⟨zero false⟩

/-- The number that an infinite or undefined operation leaves behind. -/
def undefined : Binary64 := nan 0

/-! ### Arithmetic -/

/-- The number with its sign turned. -/
def neg : Binary64 → Binary64
  | finite negative m e h => finite (!negative) m e h
  | infinite negative => infinite (!negative)
  | nan tag => nan tag

/-- The number without its sign. -/
def abs : Binary64 → Binary64
  | finite _ m e h => finite false m e h
  | infinite _ => infinite false
  | nan tag => nan tag

/-- The rounded sum; a zero sum is negative only if both parts are. -/
def add : Binary64 → Binary64 → Binary64
  | finite s m e _, finite s' m' e' _ =>
    ofRat (s && s') (scaled (if s then -m else m) e + scaled (if s' then -m' else m') e')
  | nan tag, _ => nan tag
  | _, nan tag => nan tag
  | infinite s, infinite s' => if s = s' then infinite s else undefined
  | infinite s, finite .. => infinite s
  | finite .., infinite s => infinite s

/-- The rounded difference. -/
def sub (a b : Binary64) : Binary64 :=
  a.add b.neg

/-- The rounded product. -/
def mul : Binary64 → Binary64 → Binary64
  | finite s m e _, finite s' m' e' _ =>
    ofRat (s != s') (scaled (if s then -m else m) e * scaled (if s' then -m' else m') e')
  | nan tag, _ => nan tag
  | _, nan tag => nan tag
  | infinite s, infinite s' => infinite (s != s')
  | infinite s, finite s' m .. => if m = 0 then undefined else infinite (s != s')
  | finite s m .., infinite s' => if m = 0 then undefined else infinite (s != s')

/-- The rounded quotient by a number that is not zero. -/
def div : Binary64 → Binary64 → Binary64
  | finite s m e _, finite s' m' e' _ =>
    ofRat (s != s') (scaled (if s then -m else m) e / scaled (if s' then -m' else m') e')
  | nan tag, _ => nan tag
  | _, nan tag => nan tag
  | infinite _, infinite _ => undefined
  | infinite s, finite s' .. => infinite (s != s')
  | finite s .., infinite s' => zero (s != s')

end Binary64

end BatteryMonitor
