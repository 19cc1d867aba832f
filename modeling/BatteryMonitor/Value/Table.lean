import BatteryMonitor.Value.Basic

/-!
# Tables in order of insertion

A table pairs keys with entries and remembers the order in which the keys first came.  Writing to a key
that is there keeps its place and its first spelling (`Table.insert`); two spellings of a key are the
same by `Key.same`.
-/

namespace BatteryMonitor

/-- Entries by key, in the order of their first insertion. -/
abbrev Table (α : Type) := List (Key × α)

namespace Table

variable {α : Type}

/-- The entry of a key. -/
def find? : Table α → Key → Option α
  | [], _ => none
  | (k, a) :: rest, key => if k.same key then some a else find? rest key

/-- The key has an entry. -/
def contains (t : Table α) (key : Key) : Bool :=
  (find? t key).isSome

/-- The keys in order. -/
def keys (t : Table α) : List Key :=
  t.map (·.1)

/-- The table with an entry written; a new key goes to the end. -/
def insert : Table α → Key → α → Table α
  | [], key, a => [(key, a)]
  | (k, b) :: rest, key, a =>
    if k.same key then (k, a) :: rest else (k, b) :: insert rest key a

/-- The table without the entry of a key. -/
def erase : Table α → Key → Table α
  | [], _ => []
  | (k, a) :: rest, key => if k.same key then rest else (k, a) :: erase rest key

/-- The table of pairs that come in a row; a later pair overwrites an earlier one of its key. -/
def ofPairs (pairs : List (Key × α)) : Table α :=
  pairs.foldl (fun t p => insert t p.1 p.2) []

end Table

/-- A member of an object, or the value for a missing one. -/
def Table.getD (t : Table Value) (key : String) (default : Value) : Value :=
  (t.find? (.text key)).getD default

end BatteryMonitor
