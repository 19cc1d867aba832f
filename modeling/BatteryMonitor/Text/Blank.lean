/-!
# Blank characters

Two classes of blanks.  `Text.isBlank` are the white space characters of Unicode with the four
separators `0x1c` to `0x1f`; a text is freed of them at both ends by `Text.trim`.  Around the text of
a number those four do not count as blanks (`Text.isMargin`).
-/

namespace BatteryMonitor.Text

/-- The character is blank. -/
def isBlank (c : Char) : Bool :=
  let n := c.toNat
  (9 ≤ n && n ≤ 13) || (0x1c ≤ n && n ≤ 0x20) || n = 0x85 || n = 0xa0 || n = 0x1680 ||
    (0x2000 ≤ n && n ≤ 0x200a) || n = 0x2028 || n = 0x2029 || n = 0x202f || n = 0x205f || n = 0x3000

/-- The character may stand around the text of a number. -/
def isMargin (c : Char) : Bool :=
  isBlank c && !(0x1c ≤ c.toNat && c.toNat ≤ 0x1f)

/-- The text without the characters of a class at its two ends. -/
def trimBy (class? : Char → Bool) (cs : List Char) : List Char :=
  ((cs.dropWhile class?).reverse.dropWhile class?).reverse

/-- The text without blanks at its two ends. -/
def trim (s : String) : String :=
  String.ofList (trimBy isBlank s.toList)

end BatteryMonitor.Text
