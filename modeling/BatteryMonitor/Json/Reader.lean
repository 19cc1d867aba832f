import BatteryMonitor.Decimal.Numeral
import BatteryMonitor.Json.Escape
import BatteryMonitor.Value.Table

/-!
# Reading JSON text

`Json.parse` reads the one value that a text holds between blanks.  Beyond the standard it takes the words
`NaN`, `Infinity` and `-Infinity`; a number with a fraction or an exponent is a double, any other an
integer of a bounded number of digits; of the members of one key the last counts, at the place of the
first.  A text that nests deeper than `Json.nestingLimit` is `Fault.tooDeep` as soon as it does so,
and anything else that is no such text is `Fault.badValue`.
-/

namespace BatteryMonitor.Json

/-- How deep lists and objects may nest. -/
def nestingLimit : Nat := 990

/-- The blanks between the parts of a text. -/
def isSpace (c : Char) : Bool :=
  c = ' ' || c = '\t' || c = '\n' || c = '\r'

/-- The text behind its leading blanks. -/
def skipSpace (cs : List Char) : List Char :=
  cs.dropWhile isSpace

/-! ### Words and numbers -/

/-- The text behind a word. -/
def word? : List Char → List Char → Option (List Char)
  | [], cs => some cs
  | w :: ws, c :: cs => if w = c then word? ws cs else none
  | _ :: _, [] => none

/-- The words that are values. -/
def words : List (List Char × Value) :=
  [(['n', 'u', 'l', 'l'], .null), (['t', 'r', 'u', 'e'], .bool true),
    (['f', 'a', 'l', 's', 'e'], .bool false), (['N', 'a', 'N'], .float .undefined),
    (['I', 'n', 'f', 'i', 'n', 'i', 't', 'y'], .float (.infinite false)),
    (['-', 'I', 'n', 'f', 'i', 'n', 'i', 't', 'y'], .float (.infinite true))]

/-- The word at the front of a text. -/
def readWord? (cs : List Char) : Option (Value × List Char) :=
  words.findSome? fun (w, v) => (word? w cs).map fun rest => (v, rest)

/-- The digits before a point: a zero alone, or digits that start with none. -/
def splitWhole : List Char → List Nat × List Char
  | '0' :: rest => ([0], rest)
  | cs => Numeral.splitDigits cs

/-- The digits behind a point, if there are any; otherwise the point is not read. -/
def splitFraction? (cs : List Char) : Option (List Nat × List Char) :=
  match cs with
  | '.' :: rest =>
    match Numeral.splitDigits rest with
    | ([], _) => none
    | (ds, rest') => some (ds, rest')
  | _ => none

/-- The exponent, if there is one; otherwise its letter is not read. -/
def splitExponent? : List Char → Option (Int × List Char)
  | c :: rest =>
    if c = 'e' ∨ c = 'E' then
      let (negative, cs) := Numeral.splitSign rest
      match Numeral.splitDigits cs with
      | ([], _) => none
      | (ds, rest') =>
        let n : Int := Decimal.ofDigits ds
        some (if negative then -n else n, rest')
    else none
  | [] => none

/-- A number without its sign. -/
def readUnsigned (negative : Bool) (cs : List Char) : Except Fault (Value × List Char) :=
  match splitWhole cs with
  | ([], _) => .error .badValue
  | (whole, rest) =>
    match splitFraction? rest, splitExponent? ((splitFraction? rest).map (·.2) |>.getD rest) with
    | none, none =>
      let n : Int := Decimal.ofDigits whole
      if whole.length ≤ Decimal.digitLimit then .ok (.int (if negative then -n else n), rest)
      else .error .badValue
    | fraction, exponent =>
      let (digits, rest) := fraction.getD ([], rest)
      let (exponent, rest) := exponent.getD (0, rest)
      .ok (.float ((Numeral.decimalOf whole digits exponent).toBinary64 negative), rest)

/-- A number. -/
def readNumber : List Char → Except Fault (Value × List Char)
  | '-' :: rest => readUnsigned true rest
  | cs => readUnsigned false cs

/-- A word or a number. -/
def readScalar (cs : List Char) : Except Fault (Value × List Char) :=
  match readWord? cs with
  | some r => .ok r
  | none => readNumber cs

/-- A string behind its opening quote. -/
def readString (cs : List Char) : Except Fault (Text × List Char) :=
  match decode cs with
  | some (t, rest) => .ok (t, rest)
  | none => .error .badValue

/-! ### Lists and objects

The functions below call each other on ever shorter texts; `fuel` bounds the calls and `depth` is how
many more levels may open. -/

mutual

/-- A value, no blanks before it. -/
def readValue : Nat → Nat → List Char → Except Fault (Value × List Char)
  | 0, _, _ => .error .badValue
  | fuel + 1, depth, cs =>
    match cs with
    | '"' :: rest => do
      let (s, rest) ← readString rest
      return (.text s, rest)
    | '[' :: rest =>
      match depth with
      | 0 => .error .tooDeep
      | depth + 1 =>
        match skipSpace rest with
        | ']' :: rest => .ok (.list [], rest)
        | rest => do
          let (items, rest) ← readItems fuel depth rest
          return (.list items, rest)
    | '\x7b' :: rest =>
      match depth with
      | 0 => .error .tooDeep
      | depth + 1 =>
        match skipSpace rest with
        | '\x7d' :: rest => .ok (.object [], rest)
        | rest => do
          let (members, rest) ← readMembers fuel depth rest
          return (.object (Table.ofPairs members), rest)
    | cs => readScalar cs

/-- The items of a list up to its end, no blanks before the first. -/
def readItems : Nat → Nat → List Char → Except Fault (List Value × List Char)
  | 0, _, _ => .error .badValue
  | fuel + 1, depth, cs => do
    let (v, rest) ← readValue fuel depth cs
    match skipSpace rest with
    | ']' :: rest => return ([v], rest)
    | ',' :: rest => do
      let (vs, rest) ← readItems fuel depth (skipSpace rest)
      return (v :: vs, rest)
    | _ => .error .badValue

/-- The members of an object up to its end, no blanks before the first. -/
def readMembers : Nat → Nat → List Char → Except Fault (List (Key × Value) × List Char)
  | 0, _, _ => .error .badValue
  | fuel + 1, depth, cs =>
    match cs with
    | '"' :: rest => do
      let (key, rest) ← readString rest
      match skipSpace rest with
      | ':' :: rest => do
        let (v, rest) ← readValue fuel depth (skipSpace rest)
        match skipSpace rest with
        | '\x7d' :: rest => return ([(.text key, v)], rest)
        | ',' :: rest => do
          let (members, rest) ← readMembers fuel depth (skipSpace rest)
          return ((.text key, v) :: members, rest)
        | _ => .error .badValue
      | _ => .error .badValue
    | _ => .error .badValue

end

/-- The value of a text. -/
def parse (s : String) : Except Fault Value := do
  let cs := s.toList
  let (v, rest) ← readValue (2 * cs.length + 2) nestingLimit (skipSpace cs)
  if (skipSpace rest).isEmpty then return v else .error .badValue

/-- The value of a file of UTF-8 text. -/
def parseBytes (bytes : ByteArray) : Except Fault Value :=
  match String.fromUTF8? bytes with
  | some s => parse s
  | none => .error .badValue

end BatteryMonitor.Json
