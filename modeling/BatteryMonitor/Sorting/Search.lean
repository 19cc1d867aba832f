/-!
# Searching a sorted list

Where an element belongs in a sorted list is the first place that holds something beyond it.  That place
is found by halving a span of places (`bisect`), or, if it is expected near an end of the list, from that
end on, in steps that double, and by halving the last step (`leading`).

A relation that leaves some pairs uncompared gives no sorted lists, and then the place that is found depends
on the places that are looked at.  They are always the same ones: of the two middle places of an even
span it is the later in the list, whichever end the search came from (`Side.middle`).
-/

namespace BatteryMonitor.Sorting

/-- The end of a list from which its places are counted. -/
inductive Side where
  | front
  | back
  deriving DecidableEq

namespace Side

/-- The middle of a span of places; of two, the one nearer to the back. -/
def middle : Side → Nat → Nat → Nat
  | front, lo, hi => lo + (hi - lo) / 2
  | back, lo, hi => lo + (hi - lo - 1) / 2

theorem le_middle (side : Side) (lo hi : Nat) : lo ≤ side.middle lo hi := by
  cases side <;> exact Nat.le_add_right ..

theorem middle_lt (side : Side) (lo hi : Nat) (h : lo < hi) : side.middle lo hi < hi := by
  cases side <;> simp only [middle] <;> omega

end Side

/-- The first place of a span that is beyond, or the end of the span, found by halving. -/
def bisect (side : Side) (beyond : Nat → Bool) (lo hi : Nat) : Nat :=
  if lo < hi then
    let mid := side.middle lo hi
    if beyond mid then bisect side beyond lo mid else bisect side beyond (mid + 1) hi
  else hi
termination_by hi - lo
decreasing_by
  all_goals
    have h₁ := side.le_middle lo hi
    have h₂ := side.middle_lt lo hi ‹_›
    omega

/-- Steps of doubling length over the first `n` places: the last place that was not beyond, and the one
where the steps ended. -/
def stride (beyond : Nat → Bool) (n last next : Nat) : Nat × Nat :=
  if next < n then
    if beyond next then (last, next) else stride beyond n next (2 * next + 1)
  else (last, n)
termination_by n - next

/-- How many elements of a list come before the first that is beyond.  The list begins at the side that the
search starts from. -/
def leading {α : Type} (side : Side) (beyond : α → Bool) (l : List α) : Nat :=
  let isBeyond := fun i => l[i]?.all beyond
  if isBeyond 0 then 0
  else
    let (last, next) := stride isBeyond l.length 0 1
    bisect side isBeyond (last + 1) next

end BatteryMonitor.Sorting
