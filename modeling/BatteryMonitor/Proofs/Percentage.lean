import BatteryMonitor.Proofs.Monotone
import BatteryMonitor.Proofs.Reading
import Mathlib.Tactic.FieldSimp

/-!
# The charge in percent

A charge in percent is a quotient of doubles, and it is rounded by adding a half and dropping the
fraction.  Both the quotient and the sum are rounded to doubles on the way
(`Reading.capacityPercentages_of_told`), which may bring a number that lies just below a half up to
that half.

* Capacities of 31 bits keep too far away from every half for that, and their percentage is rounded
  as the exact one is (`Reading.capacityPercentages_of_small`).
* The sum alone is harmless for any double from one and a half on
  (`Binary64.nearestDouble_add_half_lt_iff`).  So a charge of any size is shown in range iff the
  quotient stays below a hundred and a half (`Reading.charge_in_range_iff`).  A battery may well be
  above that while it relearns its capacity, and then it is shown above a hundred, whether it charges
  or not: only a charge of just a hundred is held at 99 (`Reading.charge_past_full`).
-/

namespace BatteryMonitor

namespace Binary64

variable {q : ℚ} {x y : Binary64}

/-! ### Adding a half -/

theorem IsDouble.exists_multiple {e : Int} (h : IsDouble q) (hq : (2 : ℚ) ^ (e + 52) ≤ q) :
    ∃ k : Nat, q = k * 2 ^ e := by
  obtain ⟨k, j, hk, -, -, habs⟩ := h
  have hpositive : 0 < q := lt_of_lt_of_le (by positivity) hq
  rw [abs_of_pos hpositive] at habs
  have hk' : (k : ℚ) < 2 ^ 53 := by exact_mod_cast hk
  have hless : q < 2 ^ (j + 53) := by
    rw [habs, show j + 53 = j + (53 : Nat) from rfl, two_zpow_add]
    gcongr
  have hplace := (zpow_lt_zpow_iff_right₀ one_lt_two).1 (hq.trans_lt hless)
  obtain ⟨i, hi⟩ := Int.eq_ofNat_of_zero_le (a := j - e) (by omega)
  refine ⟨k * 2 ^ i, ?_⟩
  rw [habs, show j = e + i by omega, two_zpow_add, Nat.cast_mul, Nat.cast_pow, Nat.cast_ofNat,
    mul_assoc]

theorem isDouble_half {n : Int} (h : n.natAbs < 2 ^ 53) : IsDouble (n / 2) := by
  have hdouble := isDouble_mul_zpow (j := -1) h (by decide) (by decide)
  rwa [zpow_neg_one, ← div_eq_mul_inv] at hdouble

section Half

variable {l n : Nat}

theorem unit_mul {i : Nat} (hi : l + i = 52) : (2 : ℚ) ^ ((l : Int) - 52) * 2 ^ i = 1 := by
  rw [← zpow_natCast, ← zpow_add₀ two_ne_zero, show ((l : Int) - 52 + i) = 0 by omega, zpow_zero]

/-- A double between a power of two and the half below an integer is a unit away from the half. -/
theorem IsDouble.le_half_sub (h : IsDouble q) (hl : l < 52) (hlow : (2 : ℚ) ^ l ≤ q)
    (hq : q < n - 1 / 2) : q ≤ n - 1 / 2 - 2 ^ ((l : Int) - 52) := by
  obtain ⟨k, rfl⟩ := h.exists_multiple (e := (l : Int) - 52) (by simpa using hlow)
  obtain ⟨i, hi⟩ := Nat.exists_eq_add_of_lt hl
  have hunit := unit_mul (l := l) (i := i + 1) (by omega)
  have hpow : (0 : ℚ) < 2 ^ ((l : Int) - 52) := by positivity
  generalize (2 : ℚ) ^ ((l : Int) - 52) = u at *
  have hhalf : (n - 1 / 2 : ℚ) = (2 * n - 1) * 2 ^ i * u := by
    calc (n - 1 / 2 : ℚ) = (n - 1 / 2) * (u * 2 ^ (i + 1)) := by rw [hunit, mul_one]
      _ = (2 * n - 1) * 2 ^ i * u := by ring
  -- both count whole units
  rw [hhalf] at hq ⊢
  have hcount : (k : Int) < (2 * n - 1) * 2 ^ i := by
    exact_mod_cast lt_of_mul_lt_mul_right hq hpow.le
  have hnext : (k : ℚ) + 1 ≤ (2 * n - 1) * 2 ^ i := by exact_mod_cast Int.add_one_le_iff.2 hcount
  linarith [mul_le_mul_of_nonneg_right hnext hpow.le]

theorem isDouble_sub_unit (hl : l < 52) (hn : 0 < n) (hn' : n ≤ 2 ^ (l + 1)) :
    IsDouble (n - 2 ^ ((l : Int) - 52)) := by
  obtain ⟨i, hi⟩ := Nat.exists_eq_add_of_lt hl
  have hunit := unit_mul (l := l) (i := i + 1) (by omega)
  have hfull : n * 2 ^ (i + 1) ≤ 2 ^ 53 :=
    calc n * 2 ^ (i + 1) ≤ 2 ^ (l + 1) * 2 ^ (i + 1) := Nat.mul_le_mul_right _ hn'
      _ = 2 ^ 53 := by rw [← Nat.pow_add, show l + 1 + (i + 1) = 53 by omega]
  have hone : 0 < n * 2 ^ (i + 1) := Nat.mul_pos hn (by positivity)
  have hcount : (n - 2 ^ ((l : Int) - 52) : ℚ) =
      ((n * 2 ^ (i + 1) : Nat) - 1 : Int) * 2 ^ ((l : Int) - 52) := by
    push_cast
    rw [sub_mul, one_mul, mul_right_comm, mul_assoc, hunit, mul_one]
  rw [hcount]
  exact isDouble_mul_zpow (by omega) (by omega) (by omega)

/-- **A double to which a half is added reaches an integer iff it does so exactly.**  The integer one
is an exception: the double just below a half reaches it. -/
theorem nearestDouble_add_half_lt_iff (hn : 2 ≤ n) (hn' : n ≤ 2 ^ 50) (h : IsDouble q) :
    nearestDouble (q + 1 / 2) < n ↔ q < n - 1 / 2 := by
  constructor
  · intro hless
    by_contra hreached
    have hdouble : IsDouble (n : Int) := isDouble_intCast (by omega)
    refine hless.not_ge (hdouble.le_nearestDouble ?_)
    push_cast
    linarith
  intro hless
  -- the power of two below the half
  have hlog : 2 ^ (n - 1).log2 ≤ n - 1 := Nat.log2_self_le (by omega)
  have hlog' : n - 1 < 2 ^ ((n - 1).log2 + 1) := Nat.lt_log2_self
  generalize (n - 1).log2 = l at hlog hlog'
  have hl : l < 50 := (Nat.pow_lt_pow_iff_right (by decide)).1 (by omega : 2 ^ l < 2 ^ 50)
  have hbelow : ((2 : ℚ) ^ l) + 1 ≤ n := by exact_mod_cast (by omega : 2 ^ l + 1 ≤ n)
  rcases le_total q (2 ^ l) with hq | hq
  · have hdouble : IsDouble ((2 * n - 1 : Int) / 2) := isDouble_half (by omega)
    refine (hdouble.nearestDouble_le ?_).trans_lt ?_ <;> push_cast <;> linarith
  · have hpow : (0 : ℚ) < 2 ^ ((l : Int) - 52) := by positivity
    have hdouble := isDouble_sub_unit (l := l) (n := n) (by omega) (by omega) (by omega)
    have hunit := h.le_half_sub (by omega) hq hless
    exact (hdouble.nearestDouble_le (by linarith)).trans_lt (by linarith)

end Half

theorem IsDouble.add_half_lt_beyond (h : IsDouble q) : |q| + 1 / 2 < beyond := by
  obtain ⟨k, j, hk, -, hj, hq⟩ := h
  have hk' : (k : ℚ) + 1 ≤ 2 ^ 53 := by exact_mod_cast hk
  have hone : (1 : ℚ) < 2 ^ (971 : Int) := one_lt_zpow₀ one_lt_two (by decide)
  have hlast : (k : ℚ) * 2 ^ j ≤ k * 2 ^ (971 : Int) :=
    mul_le_mul_of_nonneg_left (two_zpow_le hj) k.cast_nonneg
  rw [hq, beyond_eq]
  generalize (2 : ℚ) ^ (971 : Int) = last at *
  nlinarith

theorem value_abs (h : x.value = .real q) : x.abs.value = .real |q| := by
  obtain ⟨negative, m, e, hcanonical, rfl, -⟩ := exists_finite h
  obtain rfl := Extended.real.inj ((value_finite negative m e hcanonical).symm.trans h)
  rw [abs_signed, abs_of_nonneg (by positivity)]
  exact value_finite false m e hcanonical

theorem nonpos_of_isNegative (h : x.value = .real q) (hx : x.isNegative = true) : q ≤ 0 := by
  obtain ⟨negative, m, e, hcanonical, rfl, -⟩ := exists_finite h
  obtain rfl := Extended.real.inj ((value_finite negative m e hcanonical).symm.trans h)
  obtain rfl : negative = true := hx
  rw [if_pos rfl, Left.neg_nonpos_iff]
  positivity

end Binary64

namespace Number

open Binary64

variable {x y : Binary64} {p q : ℚ}

/-- **A half is added and the fraction dropped.** -/
theorem roundAway_of_nonneg (hx : x.value = .real q) (hq : 0 ≤ q) :
    (double x).roundAway = .ok (nearestDouble (q + 1 / 2)).floor := by
  have hhalf : (0.5 : Binary64).value = .real (1 / 2) := by decide +kernel
  have hnonneg : 0 ≤ |q| + 1 / 2 := by positivity
  have hroom := (isDouble_of_value hx).add_half_lt_beyond
  have hsum := value_add_of_lt (value_abs hx) hhalf (by rwa [abs_of_nonneg hnonneg])
  have hfloor : (x.abs.add 0.5).floor = .ok (nearestDouble (|q| + 1 / 2)).floor := by
    rw [Binary64.floor, toInteger, hsum]
  have hround : (double x).roundAway = .ok (if x.isNegative = true then
      -(nearestDouble (|q| + 1 / 2)).floor else (nearestDouble (|q| + 1 / 2)).floor) := by
    change ((x.abs.add 0.5).floor >>= fun magnitude => .ok _) = _
    rw [hfloor]
    rfl
  rw [hround, abs_of_nonneg hq]
  split
  · rename_i hnegative
    obtain rfl := le_antisymm (nonpos_of_isNegative hx hnegative) hq
    have hdouble : IsDouble ((1 : Int) / 2) := isDouble_half (by decide)
    rw [Int.cast_one] at hdouble
    have hnone : (1 / 2 : ℚ).floor = 0 := by decide +kernel
    rw [zero_add, nearestDouble_of_isDouble hdouble, hnone, neg_zero]
  · rfl

theorem roundAway_infinite (negative : Bool) :
    (double (infinite negative)).roundAway = .error .tooLarge := by
  cases negative <;> rfl

end Number

namespace Reading

open Binary64 Number

variable {r : Reading} {current full : Int}

/-! ### The percentage -/

/-- The quotient that a charge in percent is rounded from. -/
def percentage (current full : Int) : ℚ :=
  nearestDouble (nearestDouble (nearestDouble current * 100) / nearestDouble full)

/-- The charge is a percentage to which a half is added, and whose fraction is dropped then. -/
def charge (current full : Int) : Int := (nearestDouble (percentage current full + 1 / 2)).floor

theorem percentage_nonneg (hcurrent : 0 ≤ current) (hfull : 0 ≤ full) :
    0 ≤ percentage current full := by
  have hnumerator : (0 : ℚ) ≤ nearestDouble current :=
    nearestDouble_nonneg (by exact_mod_cast hcurrent)
  have hdenominator : (0 : ℚ) ≤ nearestDouble full := nearestDouble_nonneg (by exact_mod_cast hfull)
  exact nearestDouble_nonneg (div_nonneg (nearestDouble_nonneg (by positivity)) hdenominator)

theorem one_le_nearestDouble (h : 0 < full) : (1 : ℚ) ≤ nearestDouble full := by
  have hone : IsDouble ((1 : Int) : ℚ) := isDouble_intCast (by decide)
  rw [Int.cast_one] at hone
  exact hone.le_nearestDouble (by exact_mod_cast h)

theorem quotient_lt_beyond (hcurrent : 0 ≤ current) (hfull : 0 < full)
    (h : nearestDouble current * 100 < beyond) :
    |nearestDouble (nearestDouble current * 100) / nearestDouble full| < beyond := by
  have hone := one_le_nearestDouble hfull
  have hnonneg : 0 ≤ nearestDouble current := nearestDouble_nonneg (by exact_mod_cast hcurrent)
  have hproduct := isDouble_nearestDouble (q := nearestDouble current * 100)
    (by rwa [abs_of_nonneg (mul_nonneg hnonneg (by decide))])
  exact abs_div_lt_beyond hone hproduct.lt_beyond

theorem roundAway_percentage {x y : Binary64} (hx : x.value = .real (nearestDouble current))
    (hy : y.value = .real (nearestDouble full)) (hcurrent : 0 ≤ current) (hfull : 0 < full) :
    (Number.double ((x.mul 100).div y)).roundAway =
      if nearestDouble current * 100 < beyond then .ok (charge current full)
      else .error .tooLarge := by
  have hhundred : (100 : Binary64).value = .real 100 := value_ofInt (m := 100) (by decide)
  have hcurrent' : 0 ≤ nearestDouble current := nearestDouble_nonneg (by exact_mod_cast hcurrent)
  have hproduct : 0 ≤ nearestDouble current * 100 := by positivity
  split
  · rename_i hlt
    have hmul := value_mul_of_lt hx hhundred (by rwa [abs_of_nonneg hproduct])
    have hdiv := value_div_of_lt hmul hy (quotient_lt_beyond hcurrent hfull hlt)
    exact roundAway_of_nonneg hdiv (percentage_nonneg hcurrent hfull.le)
  · rename_i hle
    obtain ⟨negative, hinfinite⟩ := mul_of_le hx hhundred
      (by rw [abs_of_nonneg hproduct]; exact not_lt.1 hle)
    obtain ⟨s, m, e, hcanonical, rfl, -⟩ := exists_finite hy
    rw [hinfinite]
    exact roundAway_infinite _

/-- **The charge in percent of a reading that holds integers**, unless they or their product leave the
doubles. -/
theorem capacityPercentages_of_told (hcurrent : r.currentCapacity.Alike (.int current))
    (hfull : r.maxCapacity.Alike (.int full)) (hnonneg : 0 ≤ current) (hpos : 0 < full) :
    r.capacityPercentages =
      if current < beyond ∧ full < beyond ∧ nearestDouble current * 100 < beyond then
        .ok (if charge current full = 100 ∧ r.isCharging.truth = true then 99
          else charge current full, 100)
      else .error .tooLarge := by
  have hzero : r.maxCapacity.equalsInt 0 = false := by
    rw [hfull.equalsInt]
    exact decide_eq_false (by exact_mod_cast hpos.ne')
  have habs : |(current : ℚ)| = current := abs_of_nonneg (by exact_mod_cast hnonneg)
  have habs' : |(full : ℚ)| = full := abs_of_pos (by exact_mod_cast hpos)
  unfold capacityPercentages
  rw [hzero, hcurrent.number, hfull.number, if_neg Bool.false_ne_true]
  change ((Number.int current).mul (.double 100) >>= fun product =>
    product.div (.int full) >>= fun quotient => (Number.double quotient).roundAway >>= fun charge =>
      .ok (if charge = 100 && r.isCharging.truth then 99 else charge, 100)) = _
  by_cases hlt : current < beyond
  · obtain ⟨x, hx, hx'⟩ := toDouble_of_lt (n := .int current) rfl (by rw [habs]; exact_mod_cast hlt)
    have hmul : (Number.int current).mul (.double 100) = .ok (.double (x.mul 100)) :=
      combine_double hx
    by_cases hlt' : full < beyond
    · obtain ⟨y, hy, hy'⟩ := toDouble_of_lt (n := .int full) rfl (by rw [habs']; exact_mod_cast hlt')
      have hdiv : (Number.double (x.mul 100)).div (.int full) = .ok ((x.mul 100).div y) :=
        double_div hy hy' (one_pos.trans_le (one_le_nearestDouble hpos)).ne'
      simp only [hmul, hdiv, roundAway_percentage hx' hy' hnonneg hpos, bind, Except.bind]
      by_cases hproduct : nearestDouble current * 100 < beyond
      · rw [if_pos hproduct, if_pos ⟨hlt, hlt', hproduct⟩]
        simp only [Bool.and_eq_true, decide_eq_true_eq]
      · rw [if_neg hproduct, if_neg fun h => hproduct h.2.2]
    · have hdiv : (Number.double (x.mul 100)).div (.int full) = .error .tooLarge :=
        double_div_fault (toDouble_of_le (by rw [habs']; exact_mod_cast not_lt.1 hlt'))
      simp only [hmul, hdiv, bind, Except.bind]
      rw [if_neg fun h => hlt' h.2.1]
  · have hmul : (Number.int current).mul (.double 100) = .error .tooLarge :=
      combine_double_fault (toDouble_of_le (by rw [habs]; exact_mod_cast not_lt.1 hlt))
    rw [hmul, if_neg fun h => hlt h.1]
    rfl

/-! ### Capacities of 31 bits -/

section Small

theorem percentage_of_small (hcurrent : 0 ≤ current ∧ current < 2 ^ 31)
    (hfull : 0 < full ∧ full < 2 ^ 31) :
    percentage current full = nearestDouble (current * 100 / full) := by
  have hproduct : IsDouble ((current * 100 : Int) : ℚ) := isDouble_intCast (by omega)
  push_cast at hproduct
  rw [percentage, nearestDouble_of_isDouble (isDouble_intCast (m := current) (by omega)),
    nearestDouble_of_isDouble (isDouble_intCast (m := full) (by omega)),
    nearestDouble_of_isDouble hproduct]

theorem quotient_range (hcurrent : 0 ≤ current) (hfull : 0 < full ∧ full < 2 ^ 31) :
    (current * 100 / full : ℚ) = 0 ∨ (2 : ℚ) ^ (-1021 : Int) ≤ current * 100 / full := by
  rcases hcurrent.eq_or_lt with rfl | hpos
  · exact .inl (by simp)
  · right
    have hfull' : (0 : ℚ) < full := by exact_mod_cast hfull.1
    have hlimit : (full : ℚ) ≤ 2 ^ (31 : Int) := by exact_mod_cast hfull.2.le
    have hone : (1 : ℚ) ≤ current * 100 := by exact_mod_cast (by omega : 1 ≤ current * 100)
    calc (2 : ℚ) ^ (-1021 : Int) ≤ 2 ^ (-31 : Int) := two_zpow_le (by decide)
      _ = 1 / 2 ^ (31 : Int) := by rw [zpow_neg, one_div]
      _ ≤ current * 100 / full := by gcongr

/-- A half that is reached stays reached, by the quotient and by the sum. -/
theorem le_charge_of_small {percent : Int} (hcurrent : 0 ≤ current ∧ current < 2 ^ 31)
    (hfull : 0 < full ∧ full < 2 ^ 31) (hpercent : percent.natAbs ≤ 2 ^ 40)
    (h : percent * (2 * full) ≤ 200 * current + full) : percent ≤ charge current full := by
  have hfull' : (0 : ℚ) < full := by exact_mod_cast hfull.1
  have hreached : ((2 * percent - 1 : Int) / 2 : ℚ) ≤ current * 100 / full := by
    rw [div_le_div_iff₀ two_pos hfull']
    have hcast : (percent * (2 * full) : ℚ) ≤ 200 * current + full := by exact_mod_cast h
    push_cast
    linarith
  have hhalf := (isDouble_half (n := 2 * percent - 1) (by omega)).le_nearestDouble hreached
  rw [← percentage_of_small hcurrent hfull] at hhalf
  push_cast at hhalf
  refine Rat.le_floor_iff.2 ((isDouble_intCast (by omega)).le_nearestDouble ?_)
  linarith

/-- A half that is not reached is too far away to be reached by rounding. -/
theorem charge_lt_of_small {percent : Int} (hcurrent : 0 ≤ current ∧ current < 2 ^ 31)
    (hfull : 0 < full ∧ full < 2 ^ 31) (hpercent : 1 ≤ percent)
    (h : 200 * current + full < percent * (2 * full)) : charge current full < percent := by
  have hfull' : (0 : ℚ) < full := by exact_mod_cast hfull.1
  have hone : (1 : ℚ) ≤ percent := by exact_mod_cast hpercent
  have hmoved := nearestDouble_le_mul (quotient_range hcurrent.1 hfull)
  rw [← percentage_of_small hcurrent hfull] at hmoved
  have hgap : (200 * current + full + 1 : ℚ) ≤ percent * (2 * full) := by exact_mod_cast h
  have hlimit : (current : ℚ) < 2 ^ 31 ∧ (full : ℚ) < 2 ^ 31 := by
    exact_mod_cast And.intro hcurrent.2 hfull.2
  have hleast : (2 : ℚ) ^ (-1020 : Int) ≤ percent :=
    (zpow_le_one_of_nonpos₀ one_le_two (by decide)).trans hone
  refine Rat.floor_lt_iff.2 (nearestDouble_lt hleast ?_)
  calc (percentage current full + 1 / 2) * (1 + 1 / 2 ^ 53)
      ≤ ((current : ℚ) * 100 / full * (1 + 1 / 2 ^ 53) + 1 / 2) * (1 + 1 / 2 ^ 53) := by gcongr
    _ = (200 * (current : ℚ) * (1 + 1 / 2 ^ 53) + full) * (1 + 1 / 2 ^ 53) / (2 * full) := by
        field_simp
        ring
    _ < percent := by
        rw [div_lt_iff₀ (by positivity)]
        linarith

/-- **The charge of small integers is the exact percentage**, rounded with a half going up. -/
theorem charge_of_small (hcurrent : 0 ≤ current ∧ current < 2 ^ 31)
    (hfull : 0 < full ∧ full < 2 ^ 31) :
    charge current full = (200 * current + full) / (2 * full) := by
  have hdivisor : 0 < 2 * full := by omega
  have hle := Int.ediv_mul_le (200 * current + full) hdivisor.ne'
  have hlt := Int.lt_ediv_add_one_mul_self (200 * current + full) hdivisor
  have hnonneg : 0 ≤ (200 * current + full) / (2 * full) := Int.ediv_nonneg (by omega) hdivisor.le
  have hlimit := Int.ediv_le_self (2 * full) (show 0 ≤ 200 * current + full by omega)
  refine le_antisymm (Int.lt_add_one_iff.1 ?_) ?_
  · exact charge_lt_of_small hcurrent hfull (by omega) hlt
  · exact le_charge_of_small hcurrent hfull (by omega) hle

/-- **The charge in percent of small integers is exact**: the quotient is rounded with a half going up,
and a battery that charges is held at 99. -/
theorem capacityPercentages_of_small (hcurrent : r.currentCapacity.Alike (.int current))
    (hfull : r.maxCapacity.Alike (.int full)) (hcurrent' : 0 ≤ current ∧ current < 2 ^ 31)
    (hfull' : 0 < full ∧ full < 2 ^ 31) :
    r.capacityPercentages = .ok (
      let percent := (200 * current + full) / (2 * full)
      if percent = 100 ∧ r.isCharging.truth = true then (99, 100) else (percent, 100)) := by
  have hbeyond {n : Int} (hn : n < 2 ^ 31) : n < beyond := by
    have hpower : (n : ℚ) ≤ 2 ^ 31 := by exact_mod_cast hn.le
    exact_mod_cast lt_beyond (by decide) hpower
  have hproduct : nearestDouble current * 100 < beyond := by
    rw [nearestDouble_of_isDouble (isDouble_intCast (by omega))]
    refine lt_beyond (k := 38) (by decide) ?_
    exact_mod_cast (by omega : current * 100 ≤ 2 ^ 38)
  rw [capacityPercentages_of_told hcurrent hfull hcurrent'.1 hfull'.1,
    if_pos ⟨hbeyond hcurrent'.2, hbeyond hfull'.2, hproduct⟩, charge_of_small hcurrent' hfull']
  dsimp only
  split <;> rfl

/-- A charge just below 99.5, by less than one part in `2^32`, is shown as 99. -/
theorem capacityPercentages_of_small_belowHalf :
    let r : Reading := { currentCapacity := .int 2136746181, maxCapacity := .int 2147483599 }
    r.capacityPercentages = .ok (99, 100) := by
  intro r
  have hcurrent : r.currentCapacity.Alike (.int 2136746181) := .refl _
  have hfull : r.maxCapacity.Alike (.int 2147483599) := .refl _
  exact capacityPercentages_of_small hcurrent hfull (by decide) (by decide)

end Small

/-! ### Charges in range -/

/-- The charge is more than is shown of a full battery. -/
def Overfull (current full : Int) : Prop := 201 / 2 ≤ percentage current full

theorem charge_le_hundred_iff (h : IsDouble (percentage current full)) :
    charge current full ≤ 100 ↔ ¬ Overfull current full := by
  have hreach := nearestDouble_add_half_lt_iff (n := 101) (by decide) (by decide) h
  rw [← Int.lt_add_one_iff, charge, Rat.floor_lt_iff, Overfull, not_le]
  norm_num at hreach ⊢
  exact hreach

theorem overfull_iff_of_small (hcurrent : 0 ≤ current ∧ current < 2 ^ 31)
    (hfull : 0 < full ∧ full < 2 ^ 31) : Overfull current full ↔ 201 * full ≤ 200 * current := by
  have hquotient : |(current * 100 / full : ℚ)| < beyond := by
    have hone : (1 : ℚ) ≤ full := by exact_mod_cast hfull.1
    have hproduct : IsDouble ((current * 100 : Int) : ℚ) := isDouble_intCast (by omega)
    push_cast at hproduct
    exact abs_div_lt_beyond hone hproduct.lt_beyond
  have hdouble : IsDouble (percentage current full) := by
    rw [percentage_of_small hcurrent hfull]
    exact isDouble_nearestDouble hquotient
  rw [← not_iff_not, ← charge_le_hundred_iff hdouble, charge_of_small hcurrent hfull,
    ← Int.lt_add_one_iff, Int.ediv_lt_iff_lt_mul (by omega)]
  omega

theorem not_overfull_of_le (hcurrent : 0 ≤ current) (h : current ≤ full) :
    ¬ Overfull current full := by
  rw [Overfull, not_le]
  rcases hcurrent.eq_or_lt with rfl | hpos
  · simp [percentage, nearestDouble_zero]
  have hone := one_le_nearestDouble hpos
  have hle : nearestDouble current ≤ nearestDouble full := nearestDouble_mono (by exact_mod_cast h)
  have hleast : (2 : ℚ) ^ (-1020 : Int) ≤ 1 := zpow_le_one_of_nonpos₀ one_le_two (by decide)
  have hleast' : (2 : ℚ) ^ (-1021 : Int) ≤ 1 := zpow_le_one_of_nonpos₀ one_le_two (by decide)
  have hmoved := nearestDouble_le_mul (q := nearestDouble current * 100) (.inr (by linarith))
  refine nearestDouble_lt (by linarith) ?_
  have hquotient : nearestDouble (nearestDouble current * 100) / nearestDouble full ≤
      100 * (1 + 1 / 2 ^ 53) := by
    rw [div_le_iff₀ (by linarith)]
    linarith
  linarith

theorem charge_cases {capacity : Int × Int} (hcurrent : r.currentCapacity.Alike (.int current))
    (hfull : r.maxCapacity.Alike (.int full)) (hcurrent' : 0 ≤ current) (hfull' : 0 ≤ full)
    (h : r.capacityPercentages = .ok capacity) : 0 ≤ capacity.1 ∧
      (capacity.1 ≤ 100 ↔ ¬ Overfull current full) ∧
      (r.isCharging.truth = true → (capacity.1 ≤ 99 ↔ ¬ Overfull current full)) := by
  rcases hfull'.eq_or_lt with rfl | hpos
  · have hzero : r.maxCapacity.equalsInt 0 = true := by
      rw [hfull.equalsInt]
      rfl
    rw [capacityPercentages, if_pos hzero] at h
    cases h
    have hnot : ¬ Overfull current 0 := by
      rw [Overfull, percentage, Int.cast_zero, nearestDouble_zero, div_zero, nearestDouble_zero]
      norm_num
    exact ⟨le_rfl, iff_of_true (by decide) hnot, fun _ => iff_of_true (by decide) hnot⟩
  rw [capacityPercentages_of_told hcurrent hfull hcurrent' hpos] at h
  split at h
  · rename_i hlt
    cases h
    have hnonneg : 0 ≤ charge current full := by
      refine Rat.le_floor_iff.2 (nearestDouble_nonneg ?_)
      linarith [percentage_nonneg hcurrent' hpos.le]
    rw [← charge_le_hundred_iff (isDouble_nearestDouble (quotient_lt_beyond hcurrent' hpos hlt.2.2))]
    by_cases hheld : charge current full = 100 ∧ r.isCharging.truth = true
    · rw [if_pos hheld, hheld.1]
      exact ⟨by decide, by decide, fun _ => by decide⟩
    · rw [if_neg hheld]
      refine ⟨hnonneg, .rfl, fun hcharges => ?_⟩
      have hother : charge current full ≠ 100 := fun heq => hheld ⟨heq, hcharges⟩
      omega
  · cases h

/-- **A charge is shown in range iff the quotient stays below a hundred and a half**, for a battery
that charges as for one that does not.  It does so up to the full capacity. -/
theorem charge_in_range_iff {state : BatteryState} {c : Conditions} {now : Binary64}
    {snapshot : Snapshot} {latched : Bool} (hcurrent : r.currentCapacity.Alike (.int current))
    (hfull : r.maxCapacity.Alike (.int full)) (hcurrent' : 0 ≤ current) (hfull' : 0 ≤ full)
    (h : r.report state c now = .ok (snapshot, latched)) :
    (∃ shown : Int, snapshot.toRecord.find? (.text "Current Capacity") = some (.int shown) ∧
      ((0 ≤ shown ∧ shown ≤ 100) ↔ ¬ Overfull current full) ∧
      (r.isCharging.truth = true → ((0 ≤ shown ∧ shown ≤ 99) ↔ ¬ Overfull current full))) ∧
    (current ≤ full → ¬ Overfull current full) ∧
    (current < 2 ^ 31 → 0 < full ∧ full < 2 ^ 31 →
      (Overfull current full ↔ 201 * full ≤ 200 * current)) := by
  obtain ⟨capacity, health, hcapacity, -, rfl⟩ := report_eq_ok h
  obtain ⟨hnonneg, hrange, hcharging⟩ := charge_cases hcurrent hfull hcurrent' hfull' hcapacity
  refine ⟨⟨capacity.1, rfl, ?_, fun hcharges => ?_⟩, not_overfull_of_le hcurrent',
    fun hlt hsmall => ?_⟩
  · rw [← hrange, and_iff_right hnonneg]
  · rw [← hcharging hcharges, and_iff_right hnonneg]
  · exact overfull_iff_of_small ⟨hcurrent', hlt⟩ hsmall

/-- A battery that charges at 100.4% is held at 99. -/
theorem charge_in_range_iff_relearning :
    let r : Reading :=
      { isCharging := .bool true, currentCapacity := .int 5020, maxCapacity := .int 5000 }
    ∃ snapshot latched shown, r.report {} {} 0 = .ok (snapshot, latched) ∧
      snapshot.toRecord.find? (.text "Current Capacity") = some (.int shown) ∧
      0 ≤ shown ∧ shown ≤ 99 := by
  intro r
  have hcapacity : r.capacityPercentages = .ok (99, 100) := eq_ok_of_toOption (by decide +kernel)
  obtain ⟨snapshot, latched, h⟩ : ∃ snapshot latched, r.report {} {} 0 = .ok (snapshot, latched) :=
    ⟨_, _, by rw [report, hcapacity]; rfl⟩
  obtain ⟨⟨shown, hshown, -, hcharging⟩, -, hsmall⟩ :=
    charge_in_range_iff (.refl (.int 5020)) (.refl (.int 5000)) (by decide) (by decide) h
  have hnot : ¬ Overfull 5020 5000 := mt (hsmall (by decide) (by decide)).1 (by decide)
  exact ⟨snapshot, latched, shown, h, hshown, (hcharging rfl).2 hnot⟩

/-- **A battery that charges past its full capacity is shown above a hundred**: not held at 99, and
more than the maximum that is shown beside it. -/
theorem charge_past_full :
    let r : Reading :=
      { isCharging := .bool true, currentCapacity := .int 101, maxCapacity := .int 100 }
    ∃ snapshot latched, r.isCharging.truth = true ∧ r.report {} {} 0 = .ok (snapshot, latched) ∧
      snapshot.toRecord.find? (.text "Current Capacity") = some (.int 101) ∧
      snapshot.toRecord.find? (.text "Max Capacity") = some (.int 100) := by
  intro r
  have hcapacity : r.capacityPercentages = .ok (101, 100) := eq_ok_of_toOption (by decide +kernel)
  exact ⟨_, _, rfl, by rw [report, hcapacity]; rfl, rfl, rfl⟩

end Reading

end BatteryMonitor
