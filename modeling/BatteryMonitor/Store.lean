import BatteryMonitor.Disk.Basic
import BatteryMonitor.Json.Printer
import BatteryMonitor.Json.Reader

/-!
# The store of published records

A store maps keys to records in the order in which the keys first came, and tells its subscribers of every
record that is set and of every key that is removed (`Store.setValue`, `Store.removeValue`).  A store may be
backed by a file, which is then replaced after every change by the JSON text of the whole store;
trouble with the disk is put up with, and the next change writes everything again.

What a subscriber does when it hears of something is data (`Reaction`).  Those that subscribed during a
notification hear from the next one on.
-/

namespace BatteryMonitor

/-- What a subscriber does when it hears of a change. -/
inductive Reaction where
  /-- nothing but hear it -/
  | listen
  /-- subscribe another listener, whose name has a plus added -/
  | recruit
  /-- remove a record that was set -/
  | remove
  /-- fail -/
  | fail
  deriving DecidableEq

/-- Who is told of changes. -/
structure Subscriber where
  name : String
  reaction : Reaction := .listen
  deriving DecidableEq

/-- What a subscriber heard: a record set under a key, or that the key was removed. -/
structure Notification where
  subscriber : String
  key : Key
  record : Option Value

/-- Records by key, with those who watch them. -/
structure Store where
  values : Table Value := []
  subscribers : List Subscriber := []
  /-- what was heard, in order -/
  heard : List Notification := []
  /-- the file that carries the store, if there is one -/
  backing : Option Path := none
  disk : Disk := {}

/-- The object in a state file: nothing if the file is missing, cannot be read or holds anything else. -/
def Disk.loadState (d : Disk) (p : Path) : Except Fault (Table Value) := do
  if !(← d.hasPath p) then return []
  match d.read p >>= Json.parseBytes with
  | .ok (.object members) => return members
  | .error .tooDeep => throw .tooDeep
  | _ => return []

/-- The object that a value makes: a copy of an object, or the pairs that a list is made of. -/
def Value.toTable : Value → Except Fault (Table Value)
  | .object members => .ok members
  | .list items => do return Table.ofPairs (← items.mapM pair)
  | .text s => do return Table.ofPairs (← s.letters.mapM fun letter => pair (.text letter))
  | _ => .error .wrongType
where
  /-- The key and the entry that a value of two parts stands for. -/
  pair : Value → Except Fault (Key × Value)
    | .list [k, v] => do return (← k.key, v)
    | .list _ => .error .badValue
    | .text s =>
      match s.letters with
      | [k, v] => .ok (.text k, .text v)
      | _ => .error .badValue
    | .object [(k, _), (v, _)] => .ok (k, v.toValue)
    | .object _ => .error .badValue
    | _ => .error .wrongType

namespace Store

/-- Operations on a store. -/
abbrev M := ExceptT Fault (StateM Store)

/-- An empty store without a file. -/
def inMemory : Store := {}

/-- The store that a file on a disk carries. -/
def onFile (d : Disk) (p : Path) : Except Fault Store := do
  return { values := ← d.loadState p, backing := some p, disk := d }

/-- The record under a key. -/
def getValue (s : Store) (key : Value) (default : Value) : Except Fault Value := do
  return (s.values.find? (← key.key)).getD default

/-- The keys in order. -/
def keys (s : Store) : List Key :=
  Table.keys s.values

/-- The store with one more subscriber. -/
def subscribe (s : Store) (subscriber : Subscriber) : Store :=
  { s with subscribers := s.subscribers ++ [subscriber] }

/-! ### The file -/

/-- A change of the disk that is given up where the disk refuses. -/
def persist (change : Disk → Except Fault Disk) : M Bool := do
  let s ← get
  match change s.disk with
  | .ok disk => do
    set { s with disk }
    return true
  | .error (.disk _) => return false
  | .error fault => throw fault

/-- Writes the whole store to its file: beside it first, then in its place. -/
def save : M Unit := do
  match (← get).backing with
  | none => return
  | some path =>
    let draft := path.withEnding ".tmp"
    if ← persist (·.makeDirectories path.parent) then
      if ← persist (·.writeText draft "") then
        let text ← liftExcept (Json.print (.object (← get).values))
        if ← persist (·.writeText draft text) then
          discard <| persist (·.rename draft path)
where
  /-- The result of a computation that needs no store. -/
  liftExcept {α : Type} : Except Fault α → M α
    | .ok a => return a
    | .error fault => throw fault

/-! ### Changes -/

/-- A subscriber hears of a change. -/
def hear (subscriber : Subscriber) (key : Key) (record : Option Value) : M Unit :=
  modify fun s => { s with heard := s.heard ++ [⟨subscriber.name, key, record⟩] }

/-- What every subscriber does whatever it hears: recruit or fail. -/
def react (subscriber : Subscriber) : M Unit :=
  match subscriber.reaction with
  | .recruit => modify (·.subscribe { name := subscriber.name ++ "+" })
  | .fail => throw .badValue
  | .listen | .remove => return

/-- Tells the subscribers that a key was removed. -/
def announceRemoval (key : Key) : M Unit := do
  for subscriber in (← get).subscribers do
    hear subscriber key none
    react subscriber

/-- Removes the record under a key; a key that has none, or nothing, is not told of. -/
def removeValue (key : Value) : M Unit := do
  let s ← get
  unless s.values.isEmpty do
    match key.key with
    | .error fault => throw fault
    | .ok key =>
      set { s with values := s.values.erase key }
      match s.values.find? key with
      | none | some .null => pure ()
      | some _ => announceRemoval key
  save

/-- Tells the subscribers that a record was set. -/
def announce (key : Key) (record : Value) : M Unit := do
  for subscriber in (← get).subscribers do
    hear subscriber key (some record)
    react subscriber
    if subscriber.reaction = .remove then removeValue key.toValue

/-- Sets the record under a key. -/
def setValue (key record : Value) : M Unit := do
  match record.toTable, key.key with
  | .error fault, _ => throw fault
  | _, .error fault => throw fault
  | .ok members, .ok key =>
    modify fun s => { s with values := s.values.insert key (.object members) }
    announce key record
  save

end Store

end BatteryMonitor
