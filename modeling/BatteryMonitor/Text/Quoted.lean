import BatteryMonitor.Text.Basic
import BatteryMonitor.Text.Printable

/-!
# Quoted text for display

A text between quotes: single ones, unless it holds a single quote and no double one.  The quote and
the backslash are escaped by a backslash, as are the line ends and the tab; every other character
that is not printable is written by its code point with two, four or eight hexadecimal digits, and so
is a half of a surrogate pair.
-/

namespace BatteryMonitor.Text

/-- The lower case hexadecimal digit of a number below sixteen. -/
def hexDigit (n : Nat) : Char :=
  if n < 10 then Char.ofNat ('0'.toNat + n) else Char.ofNat ('a'.toNat + (n - 10))

/-- The last `width` hexadecimal digits of a number. -/
def hexDigits : Nat → Nat → List Char
  | 0, _ => []
  | width + 1, n => hexDigits width (n / 16) ++ [hexDigit (n % 16)]

/-- A character between quotes. -/
def quotedChar (quote c : Char) : List Char :=
  if c = quote ∨ c = '\\' then ['\\', c]
  else if c = '\n' then ['\\', 'n']
  else if c = '\r' then ['\\', 'r']
  else if c = '\t' then ['\\', 't']
  else if isPrintable c then [c]
  else if c.toNat < 0x100 then '\\' :: 'x' :: hexDigits 2 c.toNat
  else if c.toNat < 0x10000 then '\\' :: 'u' :: hexDigits 4 c.toNat
  else '\\' :: 'U' :: hexDigits 8 c.toNat

/-- A code point between quotes. -/
def quotedPoint (quote : Char) : CodePoint → List Char
  | .char c => quotedChar quote c
  | .half index => '\\' :: 'u' :: hexDigits 4 (CodePoint.half index).toNat

/-- The quote that a text is put between. -/
def quoteFor (points : List CodePoint) : Char :=
  if points.contains (.char '\'') && !points.contains (.char '"') then '"' else '\''

/-- The text between quotes. -/
def quoted (t : Text) : String :=
  let quote := quoteFor t.points
  String.ofList (quote :: t.points.flatMap (quotedPoint quote) ++ [quote])

end BatteryMonitor.Text
