import BatteryMonitor.Decimal.Style
import BatteryMonitor.Text.Quoted
import BatteryMonitor.Value.Basic

/-!
# Values as people read them

A text is shown as it is (`Value.display`), but quoted inside of lists and objects (`Value.inspect`), where
what is no character is escaped.  So only a torn text that is shown as it is cannot be printed
(`Value.printed`).
An integer with more digits than a text may have cannot be shown.
-/

namespace BatteryMonitor

/-- Doubles on display. -/
def displayStyle : Decimal.Style := { infinity := "inf", nan := "nan" }

/-- An integer on display. -/
def displayInteger (n : Int) : Except Fault String :=
  if Decimal.withinLimit n then .ok (String.ofList (Decimal.signedDigits n)) else .error .badValue

/-- A truth value on display. -/
def displayBool (b : Bool) : String :=
  if b then "True" else "False"

/-- Nothing on display. -/
def displayNull : String := "None"

/-- A key inside of an object. -/
def Key.inspect : Key → Except Fault String
  | .null => .ok displayNull
  | .bool b => .ok (displayBool b)
  | .int n => displayInteger n
  | .float x => .ok (displayStyle.render x)
  | .text s => .ok s.quoted

namespace Value

mutual

/-- A value inside of a list or an object. -/
def inspect : Value → Except Fault String
  | .null => .ok displayNull
  | .bool b => .ok (displayBool b)
  | .int n => displayInteger n
  | .float x => .ok (displayStyle.render x)
  | .text s => .ok s.quoted
  | .list items => do
    let parts ← inspectItems items
    return "[" ++ String.intercalate ", " parts ++ "]"
  | .object members => do
    let parts ← inspectMembers members
    return "\x7b" ++ String.intercalate ", " parts ++ "\x7d"

/-- The items of a list. -/
def inspectItems : List Value → Except Fault (List String)
  | [] => .ok []
  | v :: rest => do
    let s ← inspect v
    let ss ← inspectItems rest
    return s :: ss

/-- The members of an object. -/
def inspectMembers : List (Key × Value) → Except Fault (List String)
  | [] => .ok []
  | (k, v) :: rest => do
    let key ← k.inspect
    let s ← inspect v
    let ss ← inspectMembers rest
    return (key ++ ": " ++ s) :: ss

end

/-- A value on display. -/
def display : Value → Except Fault Text
  | .text s => .ok s
  | v => do return .whole (← v.inspect)

/-- A value as it is printed. -/
def printed (v : Value) : Except Fault String := do
  match ← v.display with
  | .whole s => return s
  | .torn _ => throw .badValue

end Value

end BatteryMonitor
