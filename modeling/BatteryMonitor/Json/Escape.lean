import BatteryMonitor.Text.Quoted

/-!
# Strings of JSON text

`Json.encode` writes a string in ASCII: the quote, the backslash and the five short controls by a
backslash and a letter, every other character outside of the printable ASCII ones by four
hexadecimal digits, as two surrogates beyond `0xffff`.  `Json.decode` reads what stands behind an
opening quote up to the closing one, and refuses controls that are not escaped.

Two halves of a surrogate pair that are escaped one behind the other are read as one character
(`Json.joinHalves`).  A half that stands alone is kept, and is escaped again by its own digits.
-/

namespace BatteryMonitor.Json

/-! ### Writing -/

/-- Four hexadecimal digits behind their mark. -/
def unicodeEscape (n : Nat) : List Char :=
  '\\' :: 'u' :: Text.hexDigits 4 n

/-- A character between quotes. -/
def encodeChar (c : Char) : List Char :=
  if c = '"' then ['\\', '"']
  else if c = '\\' then ['\\', '\\']
  else if c = '\n' then ['\\', 'n']
  else if c = '\r' then ['\\', 'r']
  else if c = '\t' then ['\\', 't']
  else if c = '\x0c' then ['\\', 'f']
  else if c = '\x08' then ['\\', 'b']
  else if 0x20 ≤ c.toNat ∧ c.toNat < 0x7f then [c]
  else if c.toNat < 0x10000 then unicodeEscape c.toNat
  else
    let n := c.toNat - 0x10000
    unicodeEscape (0xd800 + n / 0x400) ++ unicodeEscape (0xdc00 + n % 0x400)

/-- A code point between quotes. -/
def encodePoint : CodePoint → List Char
  | .char c => encodeChar c
  | .half index => unicodeEscape (CodePoint.half index).toNat

/-- The text between quotes. -/
def encode (t : Text) : List Char :=
  '"' :: t.points.flatMap encodePoint ++ ['"']

/-! ### Reading -/

/-- The value of a hexadecimal digit of either case. -/
def hexValue? (c : Char) : Option Nat :=
  if '0' ≤ c ∧ c ≤ '9' then some (c.toNat - '0'.toNat)
  else if 'a' ≤ c ∧ c ≤ 'f' then some (c.toNat - 'a'.toNat + 10)
  else if 'A' ≤ c ∧ c ≤ 'F' then some (c.toNat - 'A'.toNat + 10)
  else none

/-- The number that four hexadecimal digits denote. -/
def hexValues? (a b c d : Char) : Option Nat := do
  let a ← hexValue? a
  let b ← hexValue? b
  let c ← hexValue? c
  let d ← hexValue? d
  return ((a * 16 + b) * 16 + c) * 16 + d

/-- The number is the first half of a surrogate pair. -/
def isHighHalf (n : Nat) : Bool := 0xd800 ≤ n && n < 0xdc00

/-- The number is the second half of a surrogate pair. -/
def isLowHalf (n : Nat) : Bool := 0xdc00 ≤ n && n < 0xe000

/-- The code point with a number. -/
def pointOf (n : Nat) : CodePoint :=
  if h : 0xd800 ≤ n ∧ n < 0xe000 then .half ⟨n - 0xd800, by omega⟩ else .char (Char.ofNat n)

/-- The character of a surrogate pair. -/
def charOfPair (high low : Nat) : Char :=
  Char.ofNat (0x10000 + (high - 0xd800) * 0x400 + (low - 0xdc00))

/-- The code points with numbers, where two that are the halves of a pair are joined. -/
def joinHalves : List Nat → List CodePoint
  | high :: low :: rest =>
    if isHighHalf high && isLowHalf low then .char (charOfPair high low) :: joinHalves rest
    else pointOf high :: joinHalves (low :: rest)
  | [n] => [pointOf n]
  | [] => []

theorem isPair_of_arePair {m n : Nat} (h : CodePoint.arePair (pointOf m) (pointOf n) = true) :
    (isHighHalf m && isLowHalf n) = true := by
  unfold pointOf at h
  split at h <;> split at h
  · simp only [CodePoint.arePair, isHighHalf, isLowHalf, Bool.and_eq_true, decide_eq_true_eq] at h ⊢
    omega
  all_goals cases h

/-- The first code point is the one of the first number, or that of a pair. -/
theorem joinHalves_cons (n : Nat) (ns : List Nat) : (∃ rest, joinHalves (n :: ns) = pointOf n :: rest) ∨
    ∃ c rest, joinHalves (n :: ns) = .char c :: rest := by
  cases ns with
  | nil => exact .inl ⟨[], rfl⟩
  | cons m ns =>
    rw [joinHalves]
    split
    · exact .inr ⟨_, _, rfl⟩
    · exact .inl ⟨_, rfl⟩

theorem areJoined_joinHalves : ∀ ns, CodePoint.areJoined (joinHalves ns) = true
  | [] | [_] => rfl
  | m :: n :: ns => by
    have ih := areJoined_joinHalves (n :: ns)
    rw [joinHalves]
    split
    · rw [CodePoint.areJoined_char_cons]
      exact areJoined_joinHalves ns
    · rename_i hpair
      -- only the two first code points could be a pair
      rcases joinHalves_cons n ns with ⟨rest, heq⟩ | ⟨c, rest, heq⟩
      · rw [heq] at ih ⊢
        rw [CodePoint.areJoined, ih, Bool.and_true, Bool.not_eq_true']
        exact Bool.eq_false_iff.2 (mt isPair_of_arePair hpair)
      · rw [heq] at ih ⊢
        have hchar : CodePoint.arePair (pointOf m) (.char c) = false := by
          unfold pointOf
          split <;> rfl
        rw [CodePoint.areJoined, ih, hchar]
        rfl

/-- The character that a letter behind a backslash stands for. -/
def shortEscape? (c : Char) : Option Char :=
  if c = '"' ∨ c = '\\' ∨ c = '/' then some c
  else if c = 'n' then some '\n'
  else if c = 'r' then some '\r'
  else if c = 't' then some '\t'
  else if c = 'f' then some '\x0c'
  else if c = 'b' then some '\x08'
  else none

/-- The code points up to the closing quote, and the text behind it. -/
def codePoints? : List Char → Option (List Nat × List Char)
  | [] => none
  | '"' :: rest => some ([], rest)
  | '\\' :: 'u' :: a :: b :: c :: d :: rest => do
    let n ← hexValues? a b c d
    let (ns, tail) ← codePoints? rest
    return (n :: ns, tail)
  | '\\' :: c :: rest => do
    let e ← shortEscape? c
    let (ns, tail) ← codePoints? rest
    return (e.toNat :: ns, tail)
  | c :: rest =>
    if c = '\\' ∨ c.toNat < 0x20 then none
    else do
      let (ns, tail) ← codePoints? rest
      return (c.toNat :: ns, tail)

/-- The text up to the closing quote, and what stands behind it. -/
def decode (cs : List Char) : Option (Text × List Char) :=
  (codePoints? cs).map fun (ns, tail) => (.ofPoints (joinHalves ns) (areJoined_joinHalves ns), tail)

end BatteryMonitor.Json
