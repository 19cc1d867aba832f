import BatteryMonitor.Text.Basic

/-!
# Texts and their code points

A text is the row of its code points (`Text.ofPoints_eq`, `Text.points_injective`): a string has no
half of a pair among them, and a torn text has one.  So it is the row of their numbers as well
(`Text.codes_injective`), and the order of these is a total order of the texts.

Texts can be written if none of them is torn (`Text.exists_map_whole_iff`).
-/

namespace BatteryMonitor

theorem CodePoint.toNat_injective : Function.Injective CodePoint.toNat := by
  -- no character has the number of a half
  rintro (c | i) (d | j) h
  · exact congrArg char (Char.toNat_inj.1 h)
  · have hc : c.toNat < 0xd800 ∨ 0xdfff < c.toNat ∧ c.toNat < 0x110000 := c.valid
    have hj := j.isLt
    simp only [toNat] at h
    omega
  · have hd : d.toNat < 0xd800 ∨ 0xdfff < d.toNat ∧ d.toNat < 0x110000 := d.valid
    have hi := i.isLt
    simp only [toNat] at h
    omega
  · exact congrArg half (Fin.ext (Nat.add_left_cancel h))

namespace Text

variable {s t u : Text}

theorem areJoined_points (t : Text) : CodePoint.areJoined t.points = true := by
  cases t with
  | whole s =>
    have h := CodePoint.areJoined_map_append s.toList []
    rwa [List.append_nil] at h
  | torn t => exact t.isJoined

theorem isHalf_points_whole (s : String) : (whole s).points.any CodePoint.isHalf = false := by
  rw [points, List.any_map]
  exact List.any_eq_false.2 fun _ _ h => by cases h

/-- **A text is made of its code points.** -/
theorem ofPoints_eq {points : List CodePoint} {h : CodePoint.areJoined points = true}
    (ht : points = t.points) : ofPoints points h = t := by
  subst ht
  cases t with
  | whole s =>
    have hchars : (whole s).points.filterMap CodePoint.char? = s.toList := by
      rw [Text.points, List.filterMap_map]
      exact List.filterMap_some
    rw [ofPoints, dif_neg (by rw [isHalf_points_whole]; decide), hchars, String.ofList_toList]
  | torn t => exact dif_pos t.isTorn

theorem points_injective : Function.Injective points := by
  intro s t h
  exact (ofPoints_eq rfl).symm.trans (ofPoints_eq (h := s.areJoined_points) h)

theorem codes_injective : Function.Injective codes :=
  fun _ _ h => points_injective ((List.map_inj_right fun _ _ => (CodePoint.toNat_injective ·)).1 h)

/-! ### Order -/

theorem not_le : ¬ s ≤ t ↔ t < s :=
  Decidable.not_not

theorem le_total (s t : Text) : s ≤ t ∨ t ≤ s :=
  @List.le_total Nat _ _ s.codes t.codes

theorem le_trans (hst : s ≤ t) (htu : t ≤ u) : s ≤ u :=
  @List.le_trans Nat _ _ _ _ s.codes t.codes u.codes hst htu

theorem le_antisymm (hst : s ≤ t) (hts : t ≤ s) : s = t :=
  codes_injective (@List.le_antisymm Nat _ _ s.codes t.codes hst hts)

/-! ### Texts that are strings -/

/-- The text is no string. -/
def isTorn : Text → Bool
  | whole _ => false
  | torn _ => true

@[simp] theorem isTorn_prepend (front : String) (t : Text) : (t.prepend front).isTorn = t.isTorn := by
  cases t <;> rfl

@[simp] theorem isTorn_append (t : Text) (ending : String) : (t.append ending).isTorn = t.isTorn := by
  cases t <;> rfl

theorem exists_map_whole_iff {lines : List Text} :
    (∃ strings : List String, lines = strings.map whole) ↔ ∀ line ∈ lines, line.isTorn = false := by
  constructor
  · rintro ⟨strings, rfl⟩ line hline
    obtain ⟨s, -, rfl⟩ := List.mem_map.1 hline
    rfl
  · intro h
    induction lines with
    | nil => exact ⟨[], rfl⟩
    | cons line lines ih =>
      obtain ⟨hline, hlines⟩ := List.forall_mem_cons.1 h
      obtain ⟨strings, rfl⟩ := ih hlines
      cases line with
      | whole s => exact ⟨s :: strings, rfl⟩
      | torn t => cases hline

end Text

end BatteryMonitor
