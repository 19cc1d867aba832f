import BatteryMonitor.Proofs.Health
import BatteryMonitor.Proofs.Monotone
import BatteryMonitor.Telemetry.Curve
import Mathlib.Tactic.MkIffOfInductiveProp

/-!
# The discharge curve never turns

Between two points the charge is interpolated with five roundings, one for each operation
(`CurvePoint.between`).  Each of them keeps the order and leaves doubles where they are, so that the
charge grows with the voltage and is the tabulated one at both ends of the segment
(`CurvePoint.Above.between_mono`, `CurvePoint.Above.between_low`,
`CurvePoint.Above.between_high`).  The segments meet at their points, and so the whole curve
grows as well, by induction over the points (`Curve.chargeOn_mono`).

* `Curve.scan_spec`, `Curve.percent_inside` : a voltage between the first point and the last one is
  on some segment.
* `Curve.percent_value` : any number has a charge, which is the one of its value (`Curve.charge`).
* `Curve.charge_mono`, `Curve.charge_range`, `Curve.charge_point` : the charge grows with the
  voltage from 0 to 100, through all the points.
-/

namespace BatteryMonitor

open Binary64 Number

namespace CurvePoint

variable {high low : CurvePoint} {p q : ℚ} {v : Number}

/-- The voltage of a point as a rational. -/
def volts (point : CurvePoint) : ℚ :=
  match point.voltage.value with
  | .real q => q
  | _ => 0

/-- **Two points that make a segment**: some width apart, so that the difference is not lost, and with
voltages and percentages that are all small. -/
@[mk_iff]
structure Above (high low : CurvePoint) : Prop where
  high_value : high.voltage.value = .real high.volts
  low_value : low.voltage.value = .real low.volts
  volts_nonneg : 0 ≤ low.volts
  width : low.volts + 1 / 16 ≤ high.volts
  volts_le : high.volts ≤ 16
  percent_nonneg : 0 ≤ low.percent
  percent_le : low.percent ≤ high.percent
  percent_limit : high.percent ≤ 100

instance : DecidableRel Above := fun high low => decidable_of_iff' _ (above_iff high low)

/-- The rounded part of a segment that is below a voltage. -/
def part (high low : CurvePoint) (p : ℚ) : ℚ :=
  nearestDouble (nearestDouble (p - low.volts) / nearestDouble (high.volts - low.volts))

/-- The charge on a segment, with all its roundings. -/
def between (high low : CurvePoint) (p : ℚ) : ℚ :=
  nearestDouble (low.percent + nearestDouble (part high low p * (high.percent - low.percent)))

namespace Above

/-! ### One segment -/

theorem isDouble_percent (h : Above high low) : IsDouble low.percent ∧ IsDouble high.percent ∧
    IsDouble (high.percent - low.percent) := by
  obtain ⟨-, -, -, -, -, hnonneg, hle, hlimit⟩ := h
  refine ⟨isDouble_intCast (by omega), isDouble_intCast (by omega), ?_⟩
  rw [← Int.cast_sub]
  exact isDouble_intCast (by omega)

theorem rise_nonneg (h : Above high low) : (0 : ℚ) ≤ high.percent - low.percent := by
  exact_mod_cast Int.sub_nonneg.2 h.percent_le

theorem width_pos (h : Above high low) : 0 < nearestDouble (high.volts - low.volts) := by
  have hdouble := isDouble_mul_zpow (m := 1) (j := -4) (by decide) (by decide) (by decide)
  have hwidth : (1 : Int) * (2 : ℚ) ^ (-4 : Int) ≤ high.volts - low.volts := by
    norm_num
    linarith [h.width]
  exact lt_of_lt_of_le (by positivity) (hdouble.le_nearestDouble hwidth)

theorem part_mono (h : Above high low) : Monotone (part high low) := by
  intro p q hpq
  refine nearestDouble_mono ?_
  have hwidth := h.width_pos
  have habove := nearestDouble_mono (sub_le_sub_right hpq low.volts)
  gcongr

theorem part_low (high low : CurvePoint) : part high low low.volts = 0 := by
  rw [part, sub_self, nearestDouble_zero, zero_div, nearestDouble_zero]

theorem part_high (h : Above high low) : part high low high.volts = 1 := by
  have hone : IsDouble ((1 : Int) : ℚ) := isDouble_intCast (by decide)
  rw [part, div_self h.width_pos.ne']
  exact_mod_cast nearestDouble_of_isDouble hone

/-- **The charge grows on a segment.** -/
theorem between_mono (h : Above high low) : Monotone (between high low) := by
  intro p q hpq
  have hproduct := nearestDouble_mono
    (mul_le_mul_of_nonneg_right (h.part_mono hpq) h.rise_nonneg)
  exact nearestDouble_mono (by gcongr)

theorem between_low (h : Above high low) : between high low low.volts = low.percent := by
  rw [between, part_low, zero_mul, nearestDouble_zero, add_zero,
    nearestDouble_of_isDouble h.isDouble_percent.1]

theorem between_high (h : Above high low) : between high low high.volts = high.percent := by
  obtain ⟨-, hhigh, hrise⟩ := h.isDouble_percent
  rw [between, h.part_high, one_mul, nearestDouble_of_isDouble hrise, add_sub_cancel,
    nearestDouble_of_isDouble hhigh]

/-! ### What is computed on a segment -/

theorem product_range (h : Above high low) (hlow : low.volts ≤ p) (hhigh : p ≤ high.volts) :
    0 ≤ part high low p * (high.percent - low.percent) ∧
      part high low p * (high.percent - low.percent) ≤ high.percent - low.percent := by
  have hnonneg := h.part_mono hlow
  have hle := h.part_mono hhigh
  rw [part_low] at hnonneg
  rw [h.part_high] at hle
  exact ⟨mul_nonneg hnonneg h.rise_nonneg, mul_le_of_le_one_left h.rise_nonneg hle⟩

theorem part_value (h : Above high low) (hv : v.value = .real p) (hlow : low.volts ≤ p)
    (hhigh : p ≤ high.volts) : ∃ above ratio, v.sub (.double low.voltage) = .ok above ∧
      above.div (.double (high.voltage.sub low.voltage)) = .ok ratio ∧
      ratio.value = .real (part high low p) := by
  have hpos := h.width_pos
  obtain ⟨hhighValue, hlowValue, hnonneg, hwidth, hlimit, -, -, -⟩ := h
  have hexact : IsDouble p := isDouble_of_small hv (abs_lt.2 (by constructor <;> linarith))
  obtain ⟨x, hx, hxValue⟩ := toDouble_of_lt hv hexact.lt_beyond
  rw [nearestDouble_of_isDouble hexact] at hxValue
  have hwide : |high.volts - low.volts| < beyond := by
    rw [abs_of_nonneg (by linarith)]
    exact lt_beyond (k := 4) (by decide) (by linarith)
  have hle := sub_le_sub_right hhigh low.volts
  have habove := value_sub_of_lt hxValue hlowValue
    ((abs_le_abs_of_nonneg (sub_nonneg.2 hlow) hle).trans_lt hwide)
  have hspan := value_sub_of_lt hhighValue hlowValue hwide
  refine ⟨_, _, combine_double hx, double_div rfl hspan hpos.ne', value_div_of_lt habove hspan ?_⟩
  rw [abs_of_nonneg (div_nonneg (nearestDouble_nonneg (sub_nonneg.2 hlow)) hpos.le)]
  have hone := div_le_one_of_le₀ (nearestDouble_mono hle) hpos.le
  exact lt_beyond (k := 0) (by decide) (by rwa [pow_zero])

/-- **What is computed on a segment is the charge on it**, as no operation leaves the doubles. -/
theorem interpolate_value (h : Above high low) (hv : v.value = .real p) (hlow : low.volts ≤ p)
    (hhigh : p ≤ high.volts) : ∃ x, Curve.interpolate high low v = .ok x ∧
      x.value = .real (between high low p) := by
  obtain ⟨above, ratio, habove, hratio, hpart⟩ := h.part_value hv hlow hhigh
  obtain ⟨-, htop, hrise⟩ := h.isDouble_percent
  obtain ⟨hproduct, hproduct'⟩ := h.product_range hlow hhigh
  obtain ⟨-, -, -, -, -, hpercent, hpercent', hlimit⟩ := h
  have hbase : (ofInt low.percent).value = .real low.percent := value_ofInt (by omega)
  have hfactor : (ofInt (high.percent - low.percent)).value =
      .real (high.percent - low.percent) := by
    rw [← Int.cast_sub]
    exact value_ofInt (by omega)
  have hadded := value_mul_of_lt hpart hfactor
    ((abs_le_abs_of_nonneg hproduct hproduct').trans_lt hrise.lt_beyond)
  have hnonneg : (0 : ℚ) ≤ low.percent := by exact_mod_cast hpercent
  have hsum := value_add_of_lt hbase hadded
    ((abs_le_abs_of_nonneg (add_nonneg hnonneg (nearestDouble_nonneg hproduct))
      (by linarith [hrise.nearestDouble_le hproduct'])).trans_lt htop.lt_beyond)
  refine ⟨_, ?_, hsum⟩
  rw [Curve.interpolate, habove]
  change (above.div _ >>= fun ratio => _) = _
  rw [hratio]
  rfl

end Above

end CurvePoint

namespace Curve

open CurvePoint

variable {high low point : CurvePoint} {pts : List CurvePoint} {p q : ℚ} {v : Number}
  {a b : Extended}

/-! ### A row of segments -/

/-- The charge on a row of points, from the highest one down. -/
def chargeOn : List CurvePoint → ℚ → ℚ
  | high :: low :: rest, p =>
    if low.volts ≤ p then between high low p else chargeOn (low :: rest) p
  | _, _ => 0

theorem chargeOn_nonneg (hchain : pts.IsChain Above) (p : ℚ) : 0 ≤ chargeOn pts p := by
  fun_induction chargeOn pts p with
  | case1 high low rest p hlow =>
    have habove := (List.isChain_cons_cons.1 hchain).1
    calc (0 : ℚ) ≤ low.percent := by exact_mod_cast habove.percent_nonneg
      _ = between high low low.volts := habove.between_low.symm
      _ ≤ between high low p := habove.between_mono hlow
  | case2 high low rest p hlow ih => exact ih (List.isChain_cons_cons.1 hchain).2
  | case3 => exact le_rfl

theorem chargeOn_le (hchain : (high :: pts).IsChain Above) (hnonneg : 0 ≤ high.percent)
    (hp : p ≤ high.volts) : chargeOn (high :: pts) p ≤ high.percent := by
  induction pts generalizing high with
  | nil =>
    change (0 : ℚ) ≤ high.percent
    exact_mod_cast hnonneg
  | cons low rest ih =>
    obtain ⟨habove, hrest⟩ := List.isChain_cons_cons.1 hchain
    rw [chargeOn]
    split
    · exact (habove.between_mono hp).trans_eq habove.between_high
    · rename_i hlow
      have hle : (low.percent : ℚ) ≤ high.percent := by exact_mod_cast habove.percent_le
      exact (ih hrest habove.percent_nonneg (not_le.1 hlow).le).trans hle

/-- **The charge grows along a row of segments**: at the point where one of them ends and the next
one begins both have the same charge. -/
theorem chargeOn_mono (hchain : pts.IsChain Above) : Monotone (chargeOn pts) := by
  intro p q hpq
  induction pts with
  | nil => exact le_rfl
  | cons high pts ih =>
    cases pts with
    | nil => exact le_rfl
    | cons low rest =>
      obtain ⟨habove, hrest⟩ := List.isChain_cons_cons.1 hchain
      rw [chargeOn, chargeOn]
      by_cases hp : low.volts ≤ p
      · rw [if_pos hp, if_pos (hp.trans hpq)]
        exact habove.between_mono hpq
      · rw [if_neg hp]
        split
        · rename_i hq
          calc chargeOn (low :: rest) p ≤ low.percent :=
                chargeOn_le hrest habove.percent_nonneg (not_le.1 hp).le
            _ = between high low low.volts := habove.between_low.symm
            _ ≤ between high low q := habove.between_mono hq
        · exact ih hrest

theorem volts_lt (hchain : (high :: pts).IsChain Above) (hpoint : point ∈ pts) :
    point.volts < high.volts := by
  induction pts generalizing high with
  | nil => cases hpoint
  | cons low rest ih =>
    obtain ⟨habove, hrest⟩ := List.isChain_cons_cons.1 hchain
    have hlow : low.volts < high.volts := by linarith [habove.width]
    rcases List.mem_cons.1 hpoint with rfl | hpoint
    · exact hlow
    · exact (ih hrest hpoint).trans hlow

/-- **The row goes through its points**, the first one left apart. -/
theorem chargeOn_point (hchain : (high :: pts).IsChain Above) (hpoint : point ∈ pts) :
    chargeOn (high :: pts) point.volts = point.percent := by
  induction pts generalizing high with
  | nil => cases hpoint
  | cons low rest ih =>
    obtain ⟨habove, hrest⟩ := List.isChain_cons_cons.1 hchain
    rw [chargeOn]
    rcases List.mem_cons.1 hpoint with rfl | hpoint
    · rw [if_pos le_rfl, habove.between_low]
    · rw [if_neg (volts_lt hrest hpoint).not_ge]
      exact ih hrest hpoint

/-- **A voltage between the first point and another one is on some segment**, and that is where its
charge is computed. -/
theorem scan_spec (hchain : (high :: pts).IsChain Above) (hv : v.value = .real p)
    (hhigh : p ≤ high.volts) (hlow : ∃ low ∈ pts, low.volts ≤ p) :
    ∃ before upper lower after, high :: pts = before ++ upper :: lower :: after ∧
      Above upper lower ∧ lower.volts ≤ p ∧ p ≤ upper.volts ∧
      scan v (high :: pts) = interpolate upper lower v ∧
      chargeOn (high :: pts) p = between upper lower p := by
  induction pts generalizing high with
  | nil => simp at hlow
  | cons low rest ih =>
    obtain ⟨habove, hrest⟩ := List.isChain_cons_cons.1 hchain
    have hholds : (low.voltage.value.le v.value && v.value.le high.voltage.value) =
        decide (low.volts ≤ p) := by
      rw [hv, habove.high_value, habove.low_value, Extended.real_le, Extended.real_le,
        decide_eq_true hhigh, Bool.and_true]
    rw [scan, hholds, chargeOn]
    by_cases hp : low.volts ≤ p
    · rw [decide_eq_true hp, if_pos rfl, if_pos hp]
      exact ⟨[], high, low, rest, rfl, habove, hp, hhigh, rfl, rfl⟩
    · rw [decide_eq_false hp, if_neg Bool.false_ne_true, if_neg hp]
      have hfurther : ∃ low ∈ rest, low.volts ≤ p := by
        obtain ⟨lower, hmem, hlower⟩ := hlow
        rcases List.mem_cons.1 hmem with rfl | hmem
        · exact absurd hlower hp
        · exact ⟨lower, hmem, hlower⟩
      obtain ⟨before, upper, lower, after, heq, hspec⟩ := ih hrest (not_le.1 hp).le hfurther
      exact ⟨high :: before, upper, lower, after, congrArg (high :: ·) heq, hspec⟩

/-! ### The whole curve -/

/-- The charge in percent at a voltage, with all roundings. -/
def charge (a : Extended) : ℚ :=
  if fullVoltage.value.le a then 100
  else if a.le emptyVoltage.value then 0
  else
    match a with
    | .real p => chargeOn points p
    | _ => 0

theorem points_isChain : points.IsChain Above := by
  decide +kernel

theorem points_value : ∀ point ∈ points, point.voltage.value = .real point.volts := by
  decide +kernel

theorem exists_first : ∃ first rest, points = first :: rest ∧
    fullVoltage.value = .real first.volts ∧ first.percent = 100 :=
  ⟨_, _, rfl, by decide +kernel, rfl⟩

theorem exists_last : ∃ last ∈ points.tail,
    emptyVoltage.value = .real last.volts ∧ last.percent = 0 :=
  ⟨⟨9.00, 0⟩, by simp [points], by decide +kernel, rfl⟩

theorem charge_full (hfull : fullVoltage.value.le a = true) : charge a = 100 := by
  unfold charge
  rw [hfull, if_pos rfl]

theorem charge_empty (hempty : a.le emptyVoltage.value = true) : charge a = 0 := by
  have hfull : fullVoltage.value.le a ≠ true := fun hfull =>
    absurd (Extended.le_trans hfull hempty) (by decide +kernel)
  unfold charge
  rw [if_neg hfull, hempty, if_pos rfl]

theorem charge_inside (hfull : fullVoltage.value.le (.real p) = false)
    (hempty : (Extended.real p).le emptyVoltage.value = false) :
    charge (.real p) = chargeOn points p := by
  unfold charge
  rw [hfull, hempty, if_neg Bool.false_ne_true, if_neg Bool.false_ne_true]

theorem undefined_or_real (hfull : fullVoltage.value.le a = false)
    (hempty : a.le emptyVoltage.value = false) : a = .undefined ∨ ∃ p, a = .real p := by
  obtain ⟨first, -, -, hfirst, -⟩ := exists_first
  obtain ⟨last, -, hlast, -⟩ := exists_last
  rw [hfirst] at hfull
  rw [hlast] at hempty
  cases a with
  | undefined => exact .inl rfl
  | real p => exact .inr ⟨p, rfl⟩
  | bottom => cases hempty
  | top => cases hfull

/-- **A voltage strictly between the ends is on some segment of the curve**, so that the zero after
the last one is never reached. -/
theorem percent_spec (hv : v.value = .real p) (hfull : fullVoltage.value.le v.value = false)
    (hempty : v.value.le emptyVoltage.value = false) :
    ∃ before upper lower after, points = before ++ upper :: lower :: after ∧
      Above upper lower ∧ lower.volts ≤ p ∧ p ≤ upper.volts ∧
      percent v = interpolate upper lower v ∧ charge v.value = between upper lower p := by
  obtain ⟨first, rest, hpoints, hfirst, -⟩ := exists_first
  obtain ⟨last, hmem, hlast, -⟩ := exists_last
  have hchain := points_isChain
  rw [percent, hfull, hempty, if_neg Bool.false_ne_true, if_neg Bool.false_ne_true]
  rw [hv] at hfull hempty ⊢
  rw [charge_inside hfull hempty]
  rw [hfirst, Extended.real_le, decide_eq_false_iff_not, not_le] at hfull
  rw [hlast, Extended.real_le, decide_eq_false_iff_not, not_le] at hempty
  rw [hpoints] at hmem hchain ⊢
  exact scan_spec hchain hv hfull.le ⟨last, hmem, hempty.le⟩

theorem percent_inside (hempty : emptyVoltage.value.lt v.value = true)
    (hfull : v.value.lt fullVoltage.value = true) :
    ∃ before high low after, points = before ++ high :: low :: after ∧
      low.voltage.value.le v.value = true ∧ v.value.le high.voltage.value = true ∧
      percent v = interpolate high low v := by
  have hfull' := Extended.le_eq_false_of_lt hfull
  have hempty' := Extended.le_eq_false_of_lt hempty
  rcases undefined_or_real hfull' hempty' with hv | ⟨p, hv⟩
  · rw [hv] at hempty
    cases hempty
  obtain ⟨before, high, low, after, heq, habove, hlow, hhigh, hpercent, -⟩ :=
    percent_spec hv hfull' hempty'
  refine ⟨before, high, low, after, heq, ?_, ?_, hpercent⟩
  · rw [hv, habove.low_value, Extended.real_le, decide_eq_true hlow]
  · rw [hv, habove.high_value, Extended.real_le, decide_eq_true hhigh]

theorem scan_undefined (hv : v.value = .undefined) (pts : List CurvePoint) :
    scan v pts = .ok 0 := by
  fun_induction scan v pts with
  | case1 high low rest hholds =>
    have hnone (a : Extended) : a.le .undefined = false := by cases a <;> rfl
    rw [hv, hnone] at hholds
    cases hholds
  | case2 high low rest hholds ih => exact ih
  | case3 => rfl

/-- **Any number has a charge**, which depends on its value only. -/
theorem percent_value (v : Number) :
    ∃ x, percent v = .ok x ∧ x.value = .real (charge v.value) := by
  cases hfull : fullVoltage.value.le v.value with
  | true =>
    refine ⟨100, by rw [percent, hfull, if_pos rfl], ?_⟩
    rw [charge_full hfull]
    exact value_ofInt (m := 100) (by decide)
  | false =>
  cases hempty : v.value.le emptyVoltage.value with
  | true =>
    refine ⟨0, by rw [percent, hfull, hempty]; rfl, ?_⟩
    rw [charge_empty hempty]
    exact value_ofInt (m := 0) (by decide)
  | false =>
  rcases undefined_or_real hfull hempty with hv | ⟨p, hv⟩
  · refine ⟨0, ?_, ?_⟩
    · rw [percent, hfull, hempty]
      exact scan_undefined hv points
    · rw [hv]
      exact value_ofInt (m := 0) (by decide)
  · obtain ⟨-, upper, lower, -, -, habove, hlow, hhigh, hpercent, hcharge⟩ :=
      percent_spec hv hfull hempty
    rw [hpercent, hcharge]
    exact habove.interpolate_value hv hlow hhigh

/-- **The charge is in range.** -/
theorem charge_range (a : Extended) : 0 ≤ charge a ∧ charge a ≤ 100 := by
  obtain ⟨first, rest, hpoints, hfirst, hpercent⟩ := exists_first
  have hchain := points_isChain
  unfold charge
  split
  · norm_num
  rename_i hfull
  split
  · norm_num
  cases a with
  | real p =>
    refine ⟨chargeOn_nonneg hchain p, ?_⟩
    rw [hfirst, Extended.real_le, decide_eq_true_iff, not_le] at hfull
    rw [hpoints] at hchain ⊢
    have hle := chargeOn_le hchain (by rw [hpercent]; decide) hfull.le
    rw [hpercent] at hle
    exact_mod_cast hle
  | _ => constructor <;> norm_num

/-- **The charge grows with the voltage.** -/
theorem charge_mono (h : a.le b = true) : charge a ≤ charge b := by
  cases hfull : fullVoltage.value.le b with
  | true =>
    rw [charge_full hfull]
    exact (charge_range a).2
  | false =>
  cases hempty : a.le emptyVoltage.value with
  | true =>
    rw [charge_empty hempty]
    exact (charge_range b).1
  | false =>
  have hfull' : fullVoltage.value.le a = false :=
    Bool.eq_false_iff.2 fun hle => Bool.eq_false_iff.1 hfull (Extended.le_trans hle h)
  have hempty' : b.le emptyVoltage.value = false :=
    Bool.eq_false_iff.2 fun hle => Bool.eq_false_iff.1 hempty (Extended.le_trans h hle)
  rcases undefined_or_real hfull' hempty with rfl | ⟨p, rfl⟩
  · cases h
  rcases undefined_or_real hfull hempty' with rfl | ⟨q, rfl⟩
  · cases h
  rw [charge_inside hfull' hempty, charge_inside hfull hempty']
  rw [Extended.real_le, decide_eq_true_iff] at h
  exact chargeOn_mono points_isChain h

/-- **The curve goes through all its points.** -/
theorem charge_point (hpoint : point ∈ points) : charge point.voltage.value = point.percent := by
  obtain ⟨first, rest, hpoints, hfirst, hhundred⟩ := exists_first
  have hchain := points_isChain
  rw [points_value point hpoint]
  rw [hpoints] at hchain hpoint
  rcases List.mem_cons.1 hpoint with rfl | hrest
  · rw [← hfirst, charge_full (by decide +kernel), hhundred]
    rfl
  have hon := chargeOn_point hchain hrest
  rw [← hpoints] at hon
  have hfull : fullVoltage.value.le (.real point.volts) = false := by
    rw [hfirst, Extended.real_le]
    exact decide_eq_false (volts_lt hchain hrest).not_ge
  cases hempty : (Extended.real point.volts).le emptyVoltage.value with
  | false => rw [charge_inside hfull hempty, hon]
  | true =>
    -- no point is below the last one
    obtain ⟨last, hlast, hvalue, hzero⟩ := exists_last
    rw [hvalue, Extended.real_le, decide_eq_true_iff] at hempty
    rw [hpoints, List.tail_cons] at hlast
    have hle := chargeOn_mono hchain hempty
    have hnonneg := chargeOn_nonneg hchain point.volts
    rw [chargeOn_point hchain hlast, hzero, ← hpoints, hon] at hle
    rw [← hpoints, hon] at hnonneg
    rw [charge_empty (by rw [hvalue, Extended.real_le]; exact decide_eq_true hempty)]
    exact le_antisymm hnonneg (by exact_mod_cast hle)

end Curve

end BatteryMonitor
