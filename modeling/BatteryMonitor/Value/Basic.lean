import BatteryMonitor.Binary64.Basic
import BatteryMonitor.Fault
import BatteryMonitor.Text.Basic

/-!
# Values of any type

A field of a reading or a record holds what a JSON text can hold: nothing, a truth value, an integer
of any size, a double, a text, a list or an object.  The members of an object are kept in the order
in which their keys came; a key is any value but a list or an object (`Value.key?`).

Truth values count as the integers zero and one wherever a number is asked for (`Value.number?`), and
every value has a truth (`Value.truth`): only nothing, zeros and empty texts, lists and objects are
false.
-/

namespace BatteryMonitor

/-- What an object or a store is indexed by. -/
inductive Key where
  | null
  | bool (b : Bool)
  | int (n : Int)
  | float (x : Binary64)
  | text (s : Text)
  deriving DecidableEq

/-- A value of any type. -/
inductive Value where
  | null
  | bool (b : Bool)
  | int (n : Int)
  | float (x : Binary64)
  | text (s : Text)
  | list (items : List Value)
  | object (members : List (Key × Value))

instance : Inhabited Value := ⟨.null⟩

instance : Coe String Key := ⟨fun s => .text s⟩

/-- An integer or a double. -/
inductive Number where
  | int (n : Int)
  | double (x : Binary64)
  deriving DecidableEq

/-- The exact value of a number. -/
def Number.value : Number → Extended
  | int n => .real n
  | double x => x.value

namespace Key

/-- The value that is the key. -/
def toValue : Key → Value
  | null => .null
  | bool b => .bool b
  | int n => .int n
  | float x => .float x
  | text s => .text s

/-- The key as a number. -/
def number? : Key → Option Number
  | bool b => some (.int (if b then 1 else 0))
  | int n => some (.int n)
  | float x => some (.double x)
  | null | text _ => none

/-- Two keys name the same entry: numbers of one value do, whatever their types, and a double that is
no number only names its own entry. -/
def same (a b : Key) : Bool :=
  match a, b with
  | float (.nan tag), float (.nan tag') => tag == tag'
  | text s, text t => s == t
  | null, null => true
  | _, _ =>
    match a.number?, b.number? with
    | some m, some n => m.value.eq n.value
    | _, _ => false

end Key

namespace Value

/-- The value as a key; lists and objects are none. -/
def key? : Value → Option Key
  | null => some .null
  | bool b => some (.bool b)
  | int n => some (.int n)
  | float x => some (.float x)
  | text s => some (.text s)
  | list _ | object _ => none

/-- The value as a key, or the fault of using it as one. -/
def key (v : Value) : Except Fault Key :=
  match v.key? with
  | some k => .ok k
  | none => .error .wrongType

/-- The value as a number. -/
def number? : Value → Option Number
  | bool b => some (.int (if b then 1 else 0))
  | int n => some (.int n)
  | float x => some (.double x)
  | null | text _ | list _ | object _ => none

/-- The value as a number, or the fault of using it as one. -/
def number (v : Value) : Except Fault Number :=
  match v.number? with
  | some n => .ok n
  | none => .error .wrongType

/-- The truth of a value. -/
def truth : Value → Bool
  | null => false
  | bool b => b
  | int n => n != 0
  | float x => !x.value.isZero
  | text s => s != ""
  | list items => !items.isEmpty
  | object members => !members.isEmpty

/-- The value is nothing. -/
def isNull : Value → Bool
  | null => true
  | _ => false

end Value

end BatteryMonitor
