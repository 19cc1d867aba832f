import BatteryMonitor.Value.Basic

/-!
# Paths

A path is a root and names.  Reading one drops empty names and single dots (`Path.ofString`); two slashes
at the start, not more, are a root of their own.  A path without names is written as a dot.
-/

namespace BatteryMonitor

/-- The name of a file or directory. -/
structure Path where
  /-- the slashes at the start: none, one or two -/
  root : String
  names : List String
  deriving DecidableEq

namespace Path

/-- The slashes that a text starts with, as a root. -/
def rootOf : List Char → String
  | '/' :: '/' :: '/' :: _ => "/"
  | '/' :: '/' :: _ => "//"
  | '/' :: _ => "/"
  | _ => ""

/-- The names between slashes. -/
def splitNames : List Char → List (List Char)
  | [] => [[]]
  | c :: cs =>
    match splitNames cs with
    | [] => [[c]]
    | name :: names => if c = '/' then [] :: name :: names else (c :: name) :: names

/-- The path that a string spells. -/
def ofString (s : String) : Path where
  root := rootOf s.toList
  names := ((splitNames s.toList).map String.ofList).filter fun name => name != "" && name != "."

/-- A code point in a path.  No file system takes a half of a surrogate pair, and it does not take a zero
character either, which stands for it.  (Names whose bytes are no text are left out here.) -/
def charOf (p : CodePoint) : Char :=
  p.char?.getD '\x00'

/-- The path that a text spells, torn or not. -/
def ofText : Text → Path
  | .whole s => ofString s
  | .torn t => ofString (String.ofList (t.points.map charOf))

/-- The path that a value spells. -/
def ofValue : Value → Except Fault Path
  | .text t => .ok (ofText t)
  | _ => .error .wrongType

/-- The text of a path. -/
def text (p : Path) : String :=
  if p.root = "" ∧ p.names = [] then "." else p.root ++ String.intercalate "/" p.names

/-- The directory that a path is in. -/
def parent (p : Path) : Path :=
  { p with names := p.names.dropLast }

/-- The path with an ending added to its text. -/
def withEnding (p : Path) (ending : String) : Path :=
  ofString (p.text ++ ending)

/-! ### What a file system takes -/

/-- A file system takes no text with a zero character in it. -/
def isValid (p : Path) : Bool :=
  p.names.all fun name => !name.toList.contains '\x00'

/-- The text has at most 4095 bytes, the most that a file system takes. -/
def fits (p : Path) : Bool :=
  decide (p.text.utf8ByteSize ≤ 4095)

/-- A name has at most 255 bytes, the most that a directory has room for. -/
def nameFits (name : String) : Bool :=
  decide (name.utf8ByteSize ≤ 255)

end Path

end BatteryMonitor
