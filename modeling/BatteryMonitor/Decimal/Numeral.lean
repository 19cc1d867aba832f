import BatteryMonitor.Decimal.Shortest
import BatteryMonitor.Text.Blank
import BatteryMonitor.Text.Digit

/-!
# Reading numbers that people write

The text of a number may have blanks around it, a sign, digits of any script and single underscores
between digits.  `Numeral.integer?` reads an integer of at most `Decimal.digitLimit` digits;
`Numeral.double?` reads a decimal with a point and an exponent, or a word for an infinity or for no
number, and rounds it to the nearest double.
-/

namespace BatteryMonitor.Numeral

/-- The characters of a number, digits in ASCII and the blanks around them gone. -/
def characters (s : String) : List Char :=
  Text.trimBy Text.isMargin <| s.toList.map fun c =>
    match Text.digitValue? c with
    | some d => Decimal.digitChar d
    | none => c

/-- A sign and what follows it. -/
def splitSign : List Char → Bool × List Char
  | '-' :: rest => (true, rest)
  | '+' :: rest => (false, rest)
  | cs => (false, cs)

/-- The digits of a text that holds nothing but digits and single underscores between them. -/
def digitRun? : List Char → Option (List Nat)
  | [] => none
  | [c] => (Decimal.digitValue? c).map ([·])
  | c :: '_' :: rest => do
    let d ← Decimal.digitValue? c
    let ds ← digitRun? rest
    return d :: ds
  | c :: rest => do
    let d ← Decimal.digitValue? c
    let ds ← digitRun? rest
    return d :: ds

/-- The integer that a text denotes. -/
def integer? (s : String) : Option Int := do
  let (negative, cs) := splitSign (characters s)
  let ds ← digitRun? cs
  if ds.length ≤ Decimal.digitLimit then
    let n : Int := Decimal.ofDigits ds
    return if negative then -n else n
  else none

/-! ### Decimals -/

/-- The digits at the start of a text, and the rest. -/
def splitDigits : List Char → List Nat × List Char
  | [] => ([], [])
  | c :: rest =>
    match Decimal.digitValue? c with
    | some d => let (ds, rest') := splitDigits rest; (d :: ds, rest')
    | none => ([], c :: rest)

/-- The exponent of a decimal, zero where there is none; nothing may follow it. -/
def exponent? : List Char → Option Int
  | [] => some 0
  | c :: rest =>
    if c = 'e' ∨ c = 'E' then
      let (negative, cs) := splitSign rest
      match splitDigits cs with
      | (d :: ds, []) =>
        let n : Int := Decimal.ofDigits (d :: ds)
        some (if negative then -n else n)
      | _ => none
    else none

/-- The fraction after a point, and the rest. -/
def splitFraction : List Char → List Nat × List Char
  | '.' :: rest => splitDigits rest
  | cs => ([], cs)

/-- The decimal with the given digits before and after the point. -/
def decimalOf (whole fraction : List Nat) (exponent : Int) : Decimal :=
  ⟨Decimal.ofDigits (whole ++ fraction), exponent - fraction.length⟩

/-- An unsigned decimal: digits on at least one side of the point, and an exponent. -/
def decimal? (cs : List Char) : Option Decimal := do
  let (whole, rest) := splitDigits cs
  let (fraction, rest) := splitFraction rest
  if whole.isEmpty && fraction.isEmpty then none
  else
    let exponent ← exponent? rest
    return decimalOf whole fraction exponent

/-- The text without its underscores, each of which has to stand between two digits. -/
def dropUnderscores? : List Char → Option (List Char)
  | [] => some []
  | c :: '_' :: next :: rest => do
    let _ ← Decimal.digitValue? c
    let _ ← Decimal.digitValue? next
    let cs ← dropUnderscores? (next :: rest)
    return c :: cs
  | c :: rest => do
    if c = '_' then none
    let cs ← dropUnderscores? rest
    return c :: cs

/-- The double that a text denotes. -/
def double? (s : String) : Option Binary64 := do
  let cs ← dropUnderscores? (characters s)
  let (negative, cs) := splitSign cs
  let word := String.ofList (cs.map Char.toLower)
  if word = "inf" ∨ word = "infinity" then return .infinite negative
  if word = "nan" then return .undefined
  let decimal ← decimal? cs
  return decimal.toBinary64 negative

end BatteryMonitor.Numeral
