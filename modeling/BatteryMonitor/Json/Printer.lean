import BatteryMonitor.Decimal.Style
import BatteryMonitor.Json.Escape
import BatteryMonitor.Sorting.Runs
import BatteryMonitor.Value.Table

/-!
# Values as JSON text

The text of a value (`Json.print`): one member or item on a line, two more blanks of indentation for each
level, empty containers closed at once, the members of every object in the order of their keys.  Keys
that are texts are ordered by code points and keys that are numbers by value; an object that mixes
them has no text, and neither has an integer with too many digits.  An undefined number is neither less
nor greater than any other, so that where there is one the order is the one which `Sorting.sort` makes.  A
key that is no text is written as the string of its spelling.
-/

namespace BatteryMonitor.Json

/-- Doubles in JSON text. -/
def doubleStyle : Decimal.Style := { infinity := "Infinity", nan := "NaN" }

/-- The characters of an integer. -/
def printInteger (n : Int) : Except Fault (List Char) :=
  if Decimal.withinLimit n then .ok (Decimal.signedDigits n) else .error .badValue

/-- The characters of a truth value. -/
def printBool (b : Bool) : List Char :=
  if b then ['t', 'r', 'u', 'e'] else ['f', 'a', 'l', 's', 'e']

/-- The characters of nothing. -/
def printNull : List Char := ['n', 'u', 'l', 'l']

/-- The spelling of a key. -/
def keyText : Key → Except Fault Text
  | .null => .ok (String.ofList printNull)
  | .bool b => .ok (String.ofList (printBool b))
  | .int n => do return String.ofList (← printInteger n)
  | .float x => .ok (doubleStyle.render x)
  | .text s => .ok s

/-! ### The order of members -/

/-- The text of a key that is one. -/
def keyString : Key → Text
  | .text s => s
  | _ => ""

/-- The exact value of a key that is a number. -/
def keyValue (k : Key) : Extended :=
  match k.number? with
  | some n => n.value
  | none => .undefined

/-- The members of an object in the order of their keys. -/
def sortMembers {α : Type} (members : Table α) : Except Fault (Table α) :=
  if members.all fun (k, _) => k matches .text _ then
    .ok (members.mergeSort fun a b => decide (keyString a.1 ≤ keyString b.1))
  else if members.all fun (k, _) => k.number?.isSome then
    .ok (Sorting.sort (fun a b => (keyValue a.1).lt (keyValue b.1)) members)
  else if members.length ≤ 1 then .ok members
  else .error .wrongType

/-! ### Layout -/

/-- A new line, indented. -/
def newline (level : Nat) : List Char :=
  '\n' :: List.replicate (2 * level) ' '

/-- Parts between brackets, each on a line. -/
def bracket (opening closing : Char) (level : Nat) : List (List Char) → List Char
  | [] => [opening, closing]
  | part :: parts =>
    opening :: newline (level + 1) ++ part ++
      parts.flatMap (fun p => ',' :: newline (level + 1) ++ p) ++ newline level ++ [closing]

/-- The members of an object, each behind its key. -/
def joinMembers : Table (Except Fault (List Char)) → Except Fault (List (List Char))
  | [] => .ok []
  | (k, text) :: rest => do
    let key ← keyText k
    let part ← text
    let parts ← joinMembers rest
    return (encode key ++ ':' :: ' ' :: part) :: parts

mutual

/-- A value that starts on a line of the given level. -/
def printValue (level : Nat) : Value → Except Fault (List Char)
  | .null => .ok printNull
  | .bool b => .ok (printBool b)
  | .int n => printInteger n
  | .float x => .ok (doubleStyle.render x).toList
  | .text s => .ok (encode s)
  | .list items => do
    let parts ← printItems (level + 1) items
    return bracket '[' ']' level parts
  | .object members => do
    let sorted ← sortMembers (printMembers (level + 1) members)
    let parts ← joinMembers sorted
    return bracket '\x7b' '\x7d' level parts

/-- The items of a list. -/
def printItems (level : Nat) : List Value → Except Fault (List (List Char))
  | [] => .ok []
  | v :: rest => do
    let part ← printValue level v
    let parts ← printItems level rest
    return part :: parts

/-- The texts of the members of an object, each with its key. -/
def printMembers (level : Nat) : List (Key × Value) → Table (Except Fault (List Char))
  | [] => []
  | (k, v) :: rest => (k, printValue level v) :: printMembers level rest

end

/-- The text of a value. -/
def print (v : Value) : Except Fault String := do
  let cs ← printValue 0 v
  return String.ofList cs

end BatteryMonitor.Json
