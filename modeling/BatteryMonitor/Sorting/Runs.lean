import BatteryMonitor.Sorting.Merge

/-!
# Sorting by runs

A list is sorted by finding the runs in it and merging them (`sort`).  A run is a stretch in which no
element comes before its neighbour, or one in which each does, which is then turned round; short runs
are filled up to a least length by insertion.  Runs wait for each other so that those which are merged are
about as long: the border between two of them has a depth (`borderDepth`), and deep borders are merged away
first.

The sort is stable.  It asks for nothing but comparisons, and if the relation is no order, as when
undefined numbers are among the elements, it still answers with all elements, in an order that follows
from the comparisons which are made here.
-/

namespace BatteryMonitor.Sorting

variable {α : Type}

/-! ### Runs -/

/-- An element and those that follow it, as long as neighbours are related; and the rest. -/
def chain (related : α → α → Bool) : α → List α → List α × List α
  | x, [] => ([x], [])
  | x, y :: ys =>
    if related x y then
      let (run, rest) := chain related y ys
      (x :: run, rest)
    else ([x], y :: ys)

/-- The run that begins with two elements, as an ascending one; and the rest. -/
def firstRun (lt : α → α → Bool) (x y : α) (l : List α) : List α × List α :=
  if lt y x then
    let (run, rest) := chain (fun u v => lt v u) x (y :: l)
    (run.reverse, rest)
  else chain (fun u v => !lt v u) x (y :: l)

/-- A run with an element put in, behind all that it does not come before. -/
def insert (lt : α → α → Bool) (run : List α) (x : α) : List α :=
  let place := bisect .front (fun i => run[i]?.all (lt x)) 0 run.length
  run.take place ++ x :: run.drop place

/-- The run that a list begins with, filled up to a least length; and the rest. -/
def takeRun (lt : α → α → Bool) (least : Nat) : α → List α → List α × List α
  | x, [] => ([x], [])
  | x, y :: l =>
    let (run, rest) := firstRun lt x y l
    let missing := least - run.length
    ((rest.take missing).foldl (insert lt) run, rest.drop missing)

/-- The least length of a run: the length of the list, halved until it is less than 64, and rounded up
at last if something was lost. -/
def leastLength (n lost : Nat) : Nat :=
  if n < 64 then n + lost else leastLength (n / 2) (max lost (n % 2))

theorem length_chain (related : α → α → Bool) (x : α) (l : List α) :
    (chain related x l).2.length ≤ l.length := by
  induction l generalizing x with
  | nil => simp [chain]
  | cons y ys ih =>
    simp only [chain]
    split
    · exact Nat.le_succ_of_le (ih y)
    · simp

theorem length_takeRun (lt : α → α → Bool) (least : Nat) (x : α) (l : List α) :
    (takeRun lt least x l).2.length ≤ l.length := by
  cases l with
  | nil => simp [takeRun]
  | cons y l =>
    simp only [takeRun, firstRun, List.length_drop]
    split <;> exact Nat.le_trans (Nat.sub_le ..) (length_chain ..)

/-! ### Waiting runs -/

/-- Runs that wait to be merged. -/
structure Waiting (α : Type) where
  /-- the runs before the latest one, from the back, each with the depth of the border behind it -/
  earlier : List (List α × Nat)
  latest : List α
  patience : Nat

/-- How often a line of length `n` is halved until a point where it is cut lies between `a` and `b`. -/
def borderDepth (n a b : Nat) : Nat :=
  if _h : a / n = b / n ∧ a < b ∧ 0 < n then borderDepth n (2 * a) (2 * b) + 1 else 0
termination_by n - (b - a)
decreasing_by
  obtain ⟨same, less, pos⟩ := _h
  have h₁ := Nat.div_add_mod a n
  have h₂ := Nat.div_add_mod b n
  have h₃ := Nat.mod_lt b pos
  rw [same] at h₁
  omega

/-- Merges the latest run with those before it as long as their borders are deeper than a depth. -/
def settle (lt : α → α → Bool) (depth : Nat) : List (List α × Nat) → List α → Nat → Waiting α
  | [], latest, patience => { earlier := [], latest, patience }
  | (run, border) :: earlier, latest, patience =>
    if depth < border then
      let (merged, patience) := merge lt run latest patience
      settle lt depth earlier merged patience
    else { earlier := (run, border) :: earlier, latest, patience }

/-- One more run waits behind the others, of a list of length `n`. -/
def Waiting.push (lt : α → α → Bool) (n : Nat) (w : Waiting α) (run : List α) : Waiting α :=
  let start := (w.earlier.flatMap (·.1)).length
  let middle := 2 * start + w.latest.length
  let depth := borderDepth n middle (middle + w.latest.length + run.length)
  let settled := settle lt depth w.earlier w.latest w.patience
  { settled with earlier := (settled.latest, depth) :: settled.earlier, latest := run }

/-- The runs of the rest of a list of length `n` wait behind the others. -/
def Waiting.pushAll (lt : α → α → Bool) (n : Nat) (w : Waiting α) (l : List α) : Waiting α :=
  match l with
  | [] => w
  | x :: xs =>
    let found := takeRun lt (leastLength n 0) x xs
    pushAll lt n (w.push lt n found.1) found.2
termination_by l.length
decreasing_by exact Nat.lt_succ_of_le (length_takeRun ..)

/-- All runs as one; the runs are given from the back.  A short run is merged before the ones behind it. -/
def mergeAll (lt : α → α → Bool) (patience : Nat) : List (List α) → List α
  | [] => []
  | [run] => run
  | [c, b] => (merge lt b c patience).1
  | c :: b :: a :: runs =>
    if a.length < c.length then
      let (merged, patience) := merge lt a b patience
      mergeAll lt patience (c :: merged :: runs)
    else
      let (merged, patience) := merge lt b c patience
      mergeAll lt patience (merged :: a :: runs)
termination_by runs => runs.length

/-- The elements of a list in order. -/
def sort (lt : α → α → Bool) : List α → List α
  | [] => []
  | x :: xs =>
    let n := xs.length + 1
    let found := takeRun lt (leastLength n 0) x xs
    let first : Waiting α :=
      { earlier := [], latest := found.1, patience := Merging.usualPatience }
    let w := first.pushAll lt n found.2
    mergeAll lt w.patience (w.latest :: w.earlier.map (·.1))

end BatteryMonitor.Sorting
