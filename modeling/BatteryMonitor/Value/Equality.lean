import BatteryMonitor.Value.Table

/-!
# Equality of values

Numbers are equal by their exact values, whatever their types, so that `1`, `1.0` and `true` are equal.
Lists are equal item by item and objects key by key without regard to order.  A double that is no
number is equal to nothing (`Value.equal`); inside of lists, objects and records, though, it is the
same as itself (`Value.same`), which its tag decides.
-/

namespace BatteryMonitor.Value

/-- Two values are equal as numbers. -/
def equalNumbers (a b : Value) : Bool :=
  match a.number?, b.number? with
  | some m, some n => m.value.eq n.value
  | _, _ => false

mutual

/-- Two values are one and the same, or equal. -/
def same : Value → Value → Bool
  | .float (.nan tag), .float (.nan tag') => tag == tag'
  | .text s, .text t => s == t
  | .null, .null => true
  | .list xs, .list ys => sameItems xs ys
  | .object xs, .object ys => xs.length == ys.length && sameMembers xs ys
  | a, b => equalNumbers a b

/-- Two lists are the same item by item. -/
def sameItems : List Value → List Value → Bool
  | [], [] => true
  | x :: xs, y :: ys => same x y && sameItems xs ys
  | _, _ => false

/-- Every member of the first object is in the second. -/
def sameMembers : List (Key × Value) → Table Value → Bool
  | [], _ => true
  | (k, x) :: xs, ys =>
    (match ys.find? k with
      | some y => same x y
      | none => false) && sameMembers xs ys

end

/-- Two values are equal. -/
def equal : Value → Value → Bool
  | .float (.nan _), .float (.nan _) => false
  | a, b => same a b

/-- The value is a number equal to an integer. -/
def equalsInt (v : Value) (n : Int) : Bool :=
  v.equalNumbers (.int n)

/-- The value is the given text. -/
def isText (v : Value) (s : Text) : Bool :=
  match v with
  | .text t => t == s
  | _ => false

end BatteryMonitor.Value
