import BatteryMonitor.Decimal.Numeral
import BatteryMonitor.Text.Quoted
import BatteryMonitor.Value.Basic

/-!
# Arguments of a command line

A form says which switches and which words a program takes; `Form.parse` reads arguments by it.  First
every argument is told apart on its own: it is the separator `--`, a switch, possibly abbreviated or with a
text attached to it, or a word; behind the separator everything is a word.  Then switches and words are
taken in the order in which they stand, so that the first thing that is wrong, or the first request for
help, ends the reading.  Words that are missing, and arguments that nothing wants, are told of at the
end.

An argument that starts with a minus and looks like a number is a word, and so is one with a space in it.
-/

namespace BatteryMonitor.CommandLine

/-! ### Forms -/

/-- What a switch does. -/
inductive Effect where
  /-- show the help and leave -/
  | help
  /-- be on -/
  | turnOn
  /-- take a value -/
  | takeValue
  deriving DecidableEq

/-- A switch by its spellings, `-v` or `--verbose`. -/
structure Switch where
  spellings : List String
  effect : Effect
  deriving DecidableEq

/-- What a word is read as. -/
inductive WordKind where
  | oneOf (choices : List String)
  | integer
  deriving DecidableEq

/-- A word that is asked for. -/
structure Word where
  name : String
  kind : WordKind
  deriving DecidableEq

/-- What a program takes. -/
structure Form where
  program : String
  /-- the line that shows what the program takes -/
  usage : String
  /-- what the help says below that line -/
  help : String
  switches : List Switch
  words : List Word

/-- All spellings of all switches. -/
def Form.spellings (f : Form) : List (String × Switch) :=
  f.switches.flatMap fun switch => switch.spellings.map fun spelling => (spelling, switch)

/-- The name of a switch in messages. -/
def Switch.name (switch : Switch) : String :=
  String.intercalate "/" switch.spellings

/-! ### Complaints -/

/-- What is wrong with arguments. -/
inductive Complaint where
  /-- an abbreviation of several switches -/
  | ambiguous (argument : String) (candidates : List String)
  /-- a text attached to a switch that takes none -/
  | unwantedText (switch : Switch) (text : String)
  | missingValue (switch : Switch)
  | noChoice (word : Word) (choices : List String) (argument : String)
  | noInteger (word : Word) (argument : String)
  | missingWords (words : List Word)
  | unknown (arguments : List String)

/-- The text of a complaint. -/
def Complaint.message : Complaint → String
  | ambiguous argument candidates =>
    "ambiguous option: " ++ argument ++ " could match " ++ String.intercalate ", " candidates
  | unwantedText switch text =>
    "argument " ++ switch.name ++ ": ignored explicit argument " ++ Text.quoted text
  | missingValue switch => "argument " ++ switch.name ++ ": expected one argument"
  | noChoice word choices argument =>
    "argument " ++ word.name ++ ": invalid choice: " ++ Text.quoted argument ++ " (choose from " ++
      String.intercalate ", " (choices.map fun (choice : String) => Text.quoted choice) ++ ")"
  | noInteger word argument =>
    "argument " ++ word.name ++ ": invalid int value: " ++ Text.quoted argument
  | missingWords words =>
    "the following arguments are required: " ++ String.intercalate ", " (words.map Word.name)
  | unknown arguments => "unrecognized arguments: " ++ String.intercalate " " arguments

/-- Why the reading of arguments ends the program. -/
inductive Leave where
  | help
  | refused (complaint : Complaint)

/-! ### Telling arguments apart -/

/-- A switch as it is mentioned, with the text attached to it. -/
structure Mention where
  spelling : String
  switch : Switch
  attached : Option String

/-- The switch is mentioned by a spelling with one minus. -/
def Mention.isShort (mention : Mention) : Bool :=
  match mention.spelling.toList with
  | '-' :: '-' :: _ => false
  | _ => true

/-- An argument told apart. -/
inductive Token where
  | word (argument : String)
  | separator
  | switch (mention : Mention)
  /-- looks like a switch but is none -/
  | unknown (argument : String)

namespace Token

/-- The argument is, or looks like, a switch. -/
def isSwitch : Token → Bool
  | switch _ | unknown _ => true
  | word _ | separator => false

/-- The argument is the separator. -/
def isSeparator : Token → Bool
  | separator => true
  | _ => false

/-- The argument as it was given, unless it is a switch. -/
def argument : Token → String
  | word argument | unknown argument => argument
  | separator => "--"
  | switch mention => mention.spelling

end Token

/-- What stands before the first equals sign, and what behind it. -/
def splitAssignment : List Char → List Char × Option (List Char)
  | [] => ([], none)
  | c :: cs =>
    if c = '=' then ([], some cs)
    else
      let (front, text) := splitAssignment cs
      (c :: front, text)

/-- There are characters, and all of them are digits of some script. -/
def isDigits (cs : List Char) : Bool :=
  !cs.isEmpty && cs.all fun c => (Text.digitValue? c).isSome

/-- The argument is a minus with digits, which may have a point before the last of them.  A line end behind
does not count. -/
def looksNegative (cs : List Char) : Bool :=
  let cs := if cs.getLast? = some '\n' then cs.dropLast else cs
  match cs with
  | '-' :: rest =>
    let (whole, fraction) := rest.span (· != '.')
    match fraction with
    | [] => isDigits whole
    | _ :: fraction => (whole.isEmpty || isDigits whole) && isDigits fraction
  | _ => false

namespace Form

variable (f : Form)

/-- The switch of a spelling. -/
def switch? (spelling : String) : Option Switch :=
  (f.spellings.find? fun entry => entry.1 == spelling).map (·.2)

/-- The switches that an argument may abbreviate: long ones by their start, a short one with a text
attached to it. -/
def abbreviated (cs : List Char) : List Mention :=
  match cs with
  | '-' :: '-' :: _ =>
    let (front, text) := splitAssignment cs
    f.spellings.filterMap fun (spelling, switch) =>
      if front.isPrefixOf spelling.toList then some ⟨spelling, switch, text.map String.ofList⟩ else none
  | '-' :: c :: text =>
    f.spellings.filterMap fun (spelling, switch) =>
      if spelling = String.ofList ['-', c] then some ⟨spelling, switch, some (String.ofList text)⟩
      else none
  | _ => []

/-- The switch whose spelling stands before an equals sign. -/
def assigned? (cs : List Char) : Option Mention :=
  match splitAssignment cs with
  | (front, some text) =>
    (f.switch? (String.ofList front)).map fun switch =>
      ⟨String.ofList front, switch, some (String.ofList text)⟩
  | (_, none) => none

/-- An argument of a form, before the separator. -/
def classify (s : String) : Except Complaint Token :=
  match s.toList with
  | '-' :: c :: cs =>
    match f.switch? s, f.assigned? ('-' :: c :: cs), f.abbreviated ('-' :: c :: cs) with
    | some switch, _, _ => .ok (.switch ⟨s, switch, none⟩)
    | none, some mention, _ => .ok (.switch mention)
    | none, none, [mention] => .ok (.switch mention)
    | none, none, [] =>
      if looksNegative s.toList || s.toList.contains ' ' then .ok (.word s) else .ok (.unknown s)
    | none, none, mentions => .error (.ambiguous s (mentions.map (·.spelling)))
  | _ => .ok (.word s)

/-- All arguments told apart. -/
def tokens : List String → Except Complaint (List Token)
  | [] => .ok []
  | s :: rest =>
    if s = "--" then .ok (.separator :: rest.map .word)
    else do
      let token ← f.classify s
      let more ← tokens rest
      return token :: more

end Form

/-! ### Taking arguments -/

/-- What has been read so far. -/
structure Parsed where
  /-- the switches, with their values, in the order in which they were given -/
  switches : List (Switch × Value) := []
  /-- the words by their names -/
  words : List (String × Value) := []
  /-- arguments that nothing wants -/
  unwanted : List String := []

namespace Parsed

/-- The value that a switch was given last. -/
def switch? (p : Parsed) (spelling : String) : Option Value :=
  (p.switches.reverse.find? fun entry => entry.1.spellings.contains spelling).map (·.2)

/-- The value of a word. -/
def word (p : Parsed) (name : String) : Value :=
  (p.words.lookup name).getD .null

end Parsed

/-- The value of an argument.  One that is itself `--`, without having come by a separator, is dropped as if
it were one, and nothing is left of it. -/
def argumentValue (read : String → Except Complaint Value) (bySeparator : Bool) (s : String) :
    Except Complaint Value :=
  if s = "--" && !bySeparator then .ok (.list []) else read s

/-- An argument read as a word. -/
def Word.read (word : Word) (s : String) : Except Complaint Value :=
  match word.kind with
  | .oneOf choices =>
    if choices.contains s then .ok (.text s) else .error (.noChoice word choices s)
  | .integer =>
    match Numeral.integer? s with
    | some n => .ok (.int n)
    | none => .error (.noInteger word s)

/-- The word at the front, separators around it dropped, whether there were any, and the rest. -/
def frontWord? (tokens : List Token) : Option (String × Bool × List Token) :=
  match tokens.dropWhile Token.isSeparator with
  | .word s :: rest =>
    let after := rest.dropWhile Token.isSeparator
    some (s, after.length + 1 < tokens.length, after)
  | _ => none

/-- Takes words for those that are asked for, as long as there are any at the front. -/
def takeWords (p : Parsed) : List Word → List Token →
    Except Complaint (Parsed × List Word × List Token)
  | [], tokens => .ok (p, [], tokens)
  | word :: asked, tokens =>
    match frontWord? tokens with
    | none => .ok (p, word :: asked, tokens)
    | some (s, bySeparator, rest) => do
      let v ← argumentValue word.read bySeparator s
      takeWords { p with words := p.words ++ [(word.name, v)] } asked rest

/-- The value of a text attached to a switch, or given behind it. -/
def switchValue (s : String) : Except Complaint Value :=
  argumentValue (fun s => .ok (.text s)) false s

/-- A switch without a text attached to it: a value comes from the next word. -/
def takeBare (switch : Switch) (rest : List Token) :
    Except Complaint (List (Switch × Value) × List Token) :=
  match switch.effect, rest with
  | .takeValue, .word s :: rest => do return ([(switch, ← switchValue s)], rest)
  | .takeValue, _ => .error (.missingValue switch)
  | _, _ => .ok ([(switch, .bool true)], rest)

/-- A switch with a text attached to it.  Behind a short switch that takes no value the text is made of more
short switches. -/
def takeAttached (f : Form) (rest : List Token) (switch : Switch) (isShort : Bool) (text : List Char) :
    Except Complaint (List (Switch × Value) × List Token) :=
  if switch.effect = .takeValue then do
    return ([(switch, ← switchValue (String.ofList text))], rest)
  else
    match isShort, text with
    | true, c :: more =>
      match f.switch? (String.ofList ['-', c]), more with
      | none, _ => .error (.unwantedText switch (String.ofList text))
      | some next, [] => do
        let (taken, rest) ← takeBare next rest
        return ((switch, .bool true) :: taken, rest)
      | some next, more => do
        let (taken, rest) ← takeAttached f rest next true more
        return ((switch, .bool true) :: taken, rest)
    | _, _ => .error (.unwantedText switch (String.ofList text))
termination_by text.length

/-- The switches that a mention stands for, and the arguments behind them. -/
def takeSwitch (f : Form) (mention : Mention) (rest : List Token) :
    Except Complaint (List (Switch × Value) × List Token) :=
  match mention.attached with
  | none => takeBare mention.switch rest
  | some text =>
    takeAttached f rest mention.switch mention.isShort text.toList

/-- Notes switches; a request for help ends the reading. -/
def note (p : Parsed) : List (Switch × Value) → Except Leave Parsed
  | [] => .ok p
  | (switch, v) :: rest =>
    if switch.effect = .help then .error .help
    else note { p with switches := p.switches ++ [(switch, v)] } rest

/-- A result whose complaint ends the program. -/
def orLeave {α : Type} : Except Complaint α → Except Leave α
  | .ok a => .ok a
  | .error complaint => .error (.refused complaint)

/-- Takes all arguments in their order.  Every call uses some up, so `fuel` is how many there are. -/
def takeAll (f : Form) : Nat → Parsed → List Word → List Token →
    Except Leave (Parsed × List Word)
  | 0, p, asked, _ => .ok (p, asked)
  | fuel + 1, p, asked, tokens =>
    match tokens with
    | [] => .ok (p, asked)
    | .switch mention :: rest => do
      let (taken, rest) ← orLeave (takeSwitch f mention rest)
      takeAll f fuel (← note p taken) asked rest
    | .unknown s :: rest => takeAll f fuel { p with unwanted := p.unwanted ++ [s] } asked rest
    | tokens => do
      let (p, stillAsked, rest) ← orLeave (takeWords p asked tokens)
      if rest.length < tokens.length then takeAll f fuel p stillAsked rest
      else
        let (skipped, rest) := rest.span (!·.isSwitch)
        takeAll f fuel { p with unwanted := p.unwanted ++ skipped.map Token.argument } stillAsked rest

/-- What arguments say by a form. -/
def Form.parse (f : Form) (arguments : List String) : Except Leave Parsed := do
  let tokens ← orLeave (f.tokens arguments)
  let (p, missing) ← takeAll f (tokens.length + 1) {} f.words tokens
  if !missing.isEmpty then throw (.refused (.missingWords missing))
  if !p.unwanted.isEmpty then throw (.refused (.unknown p.unwanted))
  return p

end BatteryMonitor.CommandLine
