import BatteryMonitor.Sorting.Search

/-!
# Merging two runs

Two sorted runs that lie one behind the other become one (`merge`).  The elements at the front of the
left run and at the back of the right run that are in place already stay there; the shorter of what is left
decides from which side the rest is worked off (`Merging`).  As long as the runs take turns the elements
are taken one by one; when one of them has come first often enough in a row, as many as come first are
searched for and taken at once (`Pace`).  How often is enough is learned: patience shrinks while the
stretches are long and grows when they are short again, and it is carried from merge to merge.

Among equal elements those of the left run go first.
-/

namespace BatteryMonitor.Sorting

variable {α : Type}

/-- Two runs that are worked off from one side. -/
structure Merging (α : Type) where
  /-- what is left of the run that goes first among equals -/
  first : List α
  /-- what is left of the other run -/
  second : List α
  /-- what was taken, the latest first -/
  taken : List α
  /-- how often in a row one run has to come first before stretches are taken -/
  patience : Nat

namespace Merging

/-- How many elements are left. -/
def size (m : Merging α) : Nat :=
  m.first.length + m.second.length

/-- Nothing is left to compare: the second run is used up, or the first is but for one element, which comes
after the whole of the second. -/
def isOver (m : Merging α) : Bool :=
  m.second.isEmpty || decide (m.first.length ≤ 1)

/-- What was taken, and the rest behind it. -/
def result (m : Merging α) : List α :=
  m.taken.reverse ++ m.second ++ m.first

/-- Takes elements of the first run. -/
def takeFirst (n : Nat) (m : Merging α) : Merging α :=
  { m with first := m.first.drop n, taken := (m.first.take n).reverse ++ m.taken }

/-- Takes elements of the second run. -/
def takeSecond (n : Nat) (m : Merging α) : Merging α :=
  { m with second := m.second.drop n, taken := (m.second.take n).reverse ++ m.taken }

/-- The second run comes first. -/
def secondLeads (before : α → α → Bool) (m : Merging α) : Bool :=
  match m.first, m.second with
  | x :: _, y :: _ => before y x
  | _, _ => false

/-- Takes all of the first run that comes before the second, and then one of the second; tells how many
came before. -/
def rushFirst (side : Side) (before : α → α → Bool) (m : Merging α) : Merging α × Nat :=
  match m.second with
  | [] => (m, 0)
  | y :: _ =>
    let n := leading side (before y) m.first
    let m := m.takeFirst n
    (if m.isOver then m else m.takeSecond 1, n)

/-- Takes all of the second run that comes before the first, and then one of the first; tells how many
came before. -/
def rushSecond (side : Side) (before : α → α → Bool) (m : Merging α) : Merging α × Nat :=
  match m.first with
  | [] => (m, 0)
  | x :: _ =>
    let n := leading side (fun y => !before y x) m.second
    let m := m.takeSecond n
    (if m.isOver then m else m.takeFirst 1, n)

/-- A stretch of each run, that of the left run first; tells the length of the longer one. -/
def stretches (side : Side) (before : α → α → Bool) (m : Merging α) : Merging α × Nat :=
  let (rush, rushBack) :=
    match side with
    | .front => (rushFirst side before, rushSecond side before)
    | .back => (rushSecond side before, rushFirst side before)
  let (m, n) := rush m
  if m.isOver then (m, n)
  else
    let (m, k) := rushBack m
    (m, max n k)

/-! ### Pace -/

/-- How the next elements are taken. -/
inductive Pace where
  /-- one by one; how often in a row the first run and the second have come first -/
  | single (firstWins secondWins : Nat)
  /-- in stretches -/
  | stretches

/-- The patience that a merge begins with, and the length from which on a stretch is a long one. -/
def usualPatience : Nat := 7

/-- Takes the next elements; tells how to go on. -/
def step (side : Side) (before : α → α → Bool) (m : Merging α) : Pace → Merging α × Pace
  | .single firstWins secondWins =>
    if m.secondLeads before then
      (m.takeSecond 1, if m.patience ≤ secondWins + 1 then .stretches else .single 0 (secondWins + 1))
    else
      (m.takeFirst 1, if m.patience ≤ firstWins + 1 then .stretches else .single (firstWins + 1) 0)
  | .stretches =>
    let (m, longest) := m.stretches side before
    if m.isOver then (m, .stretches)
    else if usualPatience ≤ longest then
      ({ m with patience := max 1 (m.patience - 1) }, .stretches)
    else ({ m with patience := m.patience + 1 }, .single 0 0)

/-! ### Every step takes something -/

theorem length_first_of_isOver_eq_false {m : Merging α} (h : m.isOver = false) :
    1 < m.first.length := by
  simp only [isOver, Bool.or_eq_false_iff, decide_eq_false_iff_not] at h
  omega

theorem length_second_of_isOver_eq_false {m : Merging α} (h : m.isOver = false) :
    0 < m.second.length := by
  simp only [isOver, Bool.or_eq_false_iff, List.isEmpty_eq_false_iff] at h
  exact List.length_pos_iff.2 h.1

theorem size_takeFirst (m : Merging α) (n : Nat) :
    (m.takeFirst n).size = m.first.length - n + m.second.length := by
  simp [size, takeFirst]

theorem size_takeSecond (m : Merging α) (n : Nat) :
    (m.takeSecond n).size = m.first.length + (m.second.length - n) := by
  simp [size, takeSecond]

theorem size_rushFirst_lt {side : Side} {before : α → α → Bool} {m : Merging α}
    (h : m.isOver = false) : (m.rushFirst side before).1.size < m.size := by
  have h₁ := length_first_of_isOver_eq_false h
  have h₂ := length_second_of_isOver_eq_false h
  unfold rushFirst
  split
  · next e => simp [e] at h₂
  · next y ys e =>
    generalize leading side (before y) m.first = n
    dsimp only
    split
    · next ended =>
      simp only [isOver, takeFirst, e, List.isEmpty_cons, Bool.false_or, decide_eq_true_eq,
        List.length_drop] at ended
      rw [size_takeFirst, size]
      omega
    · rw [size_takeSecond, size]
      simp only [takeFirst, List.length_drop]
      omega

theorem size_rushSecond_lt {side : Side} {before : α → α → Bool} {m : Merging α}
    (h : m.isOver = false) : (m.rushSecond side before).1.size < m.size := by
  have h₁ := length_first_of_isOver_eq_false h
  have h₂ := length_second_of_isOver_eq_false h
  unfold rushSecond
  split
  · next e => simp [e] at h₁
  · next x xs e =>
    generalize leading side (fun y => !before y x) m.second = n
    dsimp only
    split
    · next ended =>
      have : ¬m.first.length ≤ 1 := by omega
      simp only [isOver, takeSecond, this, decide_false, Bool.or_false, List.isEmpty_iff_length_eq_zero,
        List.length_drop] at ended
      rw [size_takeSecond, size]
      omega
    · rw [size_takeFirst, size]
      simp only [takeSecond, List.length_drop]
      omega

theorem size_stretches_lt {side : Side} {before : α → α → Bool} {m : Merging α}
    (h : m.isOver = false) : (m.stretches side before).1.size < m.size := by
  have first {m : Merging α} := @size_rushFirst_lt _ side before m
  have second {m : Merging α} := @size_rushSecond_lt _ side before m
  unfold stretches
  cases side <;> dsimp only <;> split
  · exact first h
  · next ended => exact Nat.lt_trans (second (by simpa using ended)) (first h)
  · exact second h
  · next ended => exact Nat.lt_trans (first (by simpa using ended)) (second h)

theorem size_step_lt {side : Side} {before : α → α → Bool} {m : Merging α} (pace : Pace)
    (h : m.isOver = false) : (m.step side before pace).1.size < m.size := by
  have h₁ := length_first_of_isOver_eq_false h
  have h₂ := length_second_of_isOver_eq_false h
  cases pace with
  | single firstWins secondWins =>
    simp only [step]
    split
    · rw [size_takeSecond, size]; omega
    · rw [size_takeFirst, size]; omega
  | stretches =>
    have := @size_stretches_lt _ side before m h
    simp only [step]
    split
    · exact this
    · split <;> exact this

/-- Takes elements until nothing is left to compare. -/
def run (side : Side) (before : α → α → Bool) (m : Merging α) (pace : Pace) : Merging α :=
  if _h : m.isOver then m
  else
    let next := m.step side before pace
    run side before next.1 next.2
termination_by m.size
decreasing_by exact size_step_lt pace (by simpa using _h)

end Merging

/-- Two runs worked off from one side; the second is known to come first.  Also tells the patience after
it. -/
def mergeFrom (side : Side) (before : α → α → Bool) (first second : List α) (patience : Nat) :
    List α × Nat :=
  let start : Merging α := { first, second, taken := [], patience }
  let done := (start.takeSecond 1).run side before (.single 0 0)
  (done.result, done.patience)

/-- Two runs as one; also tells the patience after it. -/
def merge (lt : α → α → Bool) (left right : List α) (patience : Nat) : List α × Nat :=
  match right with
  | [] => (left, patience)
  | y :: _ =>
    let settled := leading .front (lt y) left
    let backwards := (left.drop settled).reverse
    match backwards with
    | [] => (left ++ right, patience)
    | x :: _ =>
      let unsettled := right.length - leading .back (fun z => lt z x) right.reverse
      let a := left.drop settled
      let b := right.take unsettled
      if b.isEmpty then (left ++ right, patience)
      else
        let (merged, patience) :=
          if a.length ≤ b.length then mergeFrom .front lt a b patience
          else
            let (merged, patience) :=
              mergeFrom .back (fun u v => lt v u) b.reverse backwards patience
            (merged.reverse, patience)
        (left.take settled ++ merged ++ right.drop unsettled, patience)

end BatteryMonitor.Sorting
