import BatteryMonitor.Disk.Path

/-!
# Files

A disk is a tree of directories and files.  Every operation says why it refuses (`Disk.Trouble`), and one
that refuses leaves the disk as it was.  A path whose text is too long is refused at once; a name that is
too long is refused by the directory in which it is looked for, and so not before the way to this directory
is found.

A disk may be out of space; then nothing can be written to it, but it can be read.  A write that is refused
for want of space keeps the old content of the file, although on a real disk the file has been emptied by
then, since it was opened for writing.  What is proved of a file behind a write that failed assumes that it
keeps its content (`Controlled.failed_command_iff`).  A store writes to a draft, which takes the place of the
file only when it is complete.
-/

namespace BatteryMonitor

/-- What a place on a disk holds. -/
inductive Disk.Node where
  | directory
  | file (content : ByteArray)

/-- A tree of files; the place of a node is the list of names that lead to it. -/
structure Disk where
  nodes : List (List String × Disk.Node) := []
  /-- the place where paths without a root start -/
  here : List String := []
  /-- nothing can be written -/
  full : Bool := false

namespace Disk

/-- The node at a place; the root is always a directory. -/
def node? (d : Disk) (place : List String) : Option Node :=
  if place = [] then some .directory else d.nodes.lookup place

/-- The disk with a node at a place. -/
def put (d : Disk) (place : List String) (node : Node) : Disk :=
  { d with nodes := (place, node) :: d.nodes.filter (·.1 != place) }

/-- The disk without the node at a place. -/
def drop (d : Disk) (place : List String) : Disk :=
  { d with nodes := d.nodes.filter (·.1 != place) }

/-- The place that a name leads to from a directory. -/
def enter (place : List String) (name : String) : List String :=
  if name = ".." then place.dropLast else place ++ [name]

/-- The place that names lead to from a place; all but the last have to lead to directories. -/
def walk (d : Disk) : List String → List String → Except Trouble (List String)
  | place, [] => .ok place
  | place, name :: names =>
    match d.node? place with
    | none => .error .notFound
    | some (.file _) => .error .notDirectory
    | some .directory =>
      if Path.nameFits name then walk d (enter place name) names else .error .nameTooLong

/-- The place that a path starts from. -/
def start (d : Disk) (p : Path) : List String :=
  if p.root = "" then d.here else []

/-- The place of a path, which need not hold anything yet. -/
def locate (d : Disk) (p : Path) : Except Fault (List String) :=
  if !p.isValid then .error .badValue
  else if !p.fits then .error (.disk .nameTooLong)
  else
    match d.walk (d.start p) p.names with
    | .ok place => .ok place
    | .error trouble => .error (.disk trouble)

/-- There is something at a path.  A path that leads nowhere has nothing at it; one with a name or a text
that is too long cannot even be asked for. -/
def hasPath (d : Disk) (p : Path) : Except Fault Bool :=
  match d.locate p with
  | .ok place => .ok (d.node? place).isSome
  | .error (.disk .nameTooLong) => .error (.disk .nameTooLong)
  | .error _ => .ok false

/-- The content of a file. -/
def read (d : Disk) (p : Path) : Except Fault ByteArray := do
  match d.node? (← d.locate p) with
  | some (.file content) => return content
  | some .directory => throw (.disk .isDirectory)
  | none => throw (.disk .notFound)

/-- The text of a file. -/
def readText (d : Disk) (p : Path) : Except Fault String := do
  match String.fromUTF8? (← d.read p) with
  | some s => return s
  | none => throw .badValue

/-- The disk with a file written. -/
def write (d : Disk) (p : Path) (content : ByteArray) : Except Fault Disk := do
  let place ← d.locate p
  match d.node? place with
  | some .directory => throw (.disk .isDirectory)
  | _ => if d.full then throw (.disk .noSpace) else return d.put place (.file content)

/-- The disk with a text written to a file. -/
def writeText (d : Disk) (p : Path) (s : String) : Except Fault Disk :=
  d.write p s.toUTF8

/-- The disk without a file. -/
def remove (d : Disk) (p : Path) : Except Fault Disk := do
  let place ← d.locate p
  match d.node? place with
  | some (.file _) => return d.drop place
  | some .directory => throw (.disk .isDirectory)
  | none => throw (.disk .notFound)

/-- The disk with a file moved to another path, in place of a file that is there. -/
def rename (d : Disk) (source target : Path) : Except Fault Disk := do
  let content ← d.read source
  let sourcePlace ← d.locate source
  let place ← d.locate target
  match d.node? place with
  | some .directory => throw (.disk .isDirectory)
  | _ => return (d.drop sourcePlace).put place (.file content)

/-! ### Making directories -/

/-- How many directories are missing in a row on the way that names lead from a place. -/
def missingAlong (d : Disk) : List String → List String → Nat
  | place, names =>
    match d.node? place, names with
    | none, names => names.length + 1
    | some .directory, name :: names =>
      if Path.nameFits name then missingAlong d (enter place name) names else 0
    | _, _ => 0

/-- The disk with the directories made that names lead through. -/
def makeAlong (d : Disk) : List String → List String → Except Trouble Disk
  | place, names =>
    match d.node? place, names with
    | some (.file _), _ => .error .alreadyExists
    | node, names =>
      if node.isNone && d.full then .error .noSpace
      else
        let d := if node.isSome then d else d.put place .directory
        match names with
        | [] => .ok d
        | name :: names =>
          if Path.nameFits name then makeAlong d (enter place name) names else .error .nameTooLong

/-- How many missing directories can be made at once, one in the other. -/
def depthLimit : Nat := 985

/-- The disk with a directory made, and those above it. -/
def makeDirectories (d : Disk) (p : Path) : Except Fault Disk :=
  if !p.isValid then .error .badValue
  else if !p.fits then .error (.disk .nameTooLong)
  else if depthLimit < d.missingAlong (d.start p) p.names then .error .tooDeep
  else
    match d.makeAlong (d.start p) p.names with
    | .ok made => .ok made
    | .error trouble => .error (.disk trouble)

end Disk

end BatteryMonitor
