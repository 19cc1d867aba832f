import BatteryMonitor.Decimal.Shortest
import BatteryMonitor.Proofs.Nearest
import Mathlib.Tactic.NormNum

/-!
# The shortest decimal of a double is read as the double

Which double a decimal is read as depends on its value alone (`Decimal.toBinary64_congr`), so that it
may be written with its point in any place and with zeros at its end (`Decimal.value_strip`).  The
multiples of `10^k` are near enough to a double for one of them to be read as it if `10^k` is less
than the gap next to the double (`Decimal.toBinary64_of_near`), and where the seventeenth digit
stands it is.  So a shortest decimal is always found, and it is read as the double that it was made
for (`Decimal.toBinary64_shortest`).
-/

namespace BatteryMonitor

namespace Decimal

variable {n d : Nat} {x y : Decimal}

/-! ### The value of a decimal -/

/-- The number that a decimal stands for. -/
def value (x : Decimal) : ℚ := x.significand * (10 : ℚ) ^ x.exponent

/-- The place before the leading digit. -/
def top (x : Decimal) : Int := x.exponent + length x.significand

theorem length_spec (n : Nat) : n < 10 ^ length n ∧ (n ≠ 0 → 10 ^ length n ≤ 10 * n) := by
  fun_induction length n with
  | case1 n h => omega
  | case2 n h ih => rw [pow_succ]; omega

theorem ten_zpow_pos (e : Int) : (0 : ℚ) < 10 ^ e := by positivity

theorem ten_zpow_le {j k : Int} (h : j ≤ k) : (10 : ℚ) ^ j ≤ 10 ^ k :=
  zpow_le_zpow_right₀ (by norm_num) h

theorem significand_eq_zero_iff : x.significand = 0 ↔ x.value = 0 := by
  rw [value, mul_eq_zero_iff_right (ten_zpow_pos _).ne', Nat.cast_eq_zero]

theorem value_lt_top (x : Decimal) : x.value < 10 ^ x.top := by
  have hlength : (x.significand : ℚ) < 10 ^ length x.significand := by
    exact_mod_cast (length_spec x.significand).1
  rw [top, add_comm, zpow_add₀ (by norm_num), zpow_natCast, value]
  exact mul_lt_mul_of_pos_right hlength (ten_zpow_pos _)

theorem top_le_value (h : x.significand ≠ 0) : (10 : ℚ) ^ (x.top - 1) ≤ x.value := by
  have hlength : (10 : ℚ) ^ length x.significand ≤ 10 * x.significand := by
    exact_mod_cast (length_spec x.significand).2 h
  have hpos := ten_zpow_pos x.exponent
  rw [zpow_sub_one₀ (by norm_num), top, add_comm, zpow_add₀ (by norm_num), zpow_natCast, value,
    mul_inv_le_iff₀ (by norm_num)]
  nlinarith

/-- **The value determines the place before the leading digit.** -/
theorem top_congr (hx : x.significand ≠ 0) (hy : y.significand ≠ 0) (h : x.value = y.value) :
    x.top = y.top := by
  have hle {x y : Decimal} (hx : x.significand ≠ 0) (h : x.value = y.value) : x.top ≤ y.top := by
    have hlt : (10 : ℚ) ^ (x.top - 1) < 10 ^ y.top :=
      (top_le_value hx).trans_lt (h ▸ value_lt_top y)
    have := (zpow_lt_zpow_iff_right₀ (by norm_num : (1 : ℚ) < 10)).1 hlt
    omega
  exact le_antisymm (hle hx h) (hle hy h.symm)

theorem tens_pos (k : Nat) : 0 < Nat.pow 10 k := Nat.pow_pos (by decide)

theorem ratio_eq_value (x : Decimal) :
    ((x.significand * Nat.pow 10 x.exponent.toNat : Nat) : ℚ) / (Nat.pow 10 (-x.exponent).toNat : Nat) =
      x.value := by
  have hscale := Rounding.cast_scale (b := 10) (by decide) x.significand 1 (-x.exponent)
  rw [neg_neg, one_mul, Nat.cast_one, div_one, zpow_neg, div_inv_eq_mul] at hscale
  exact hscale

/-! ### Reading a decimal -/

/-- **Which double a decimal is read as depends on its value alone.** -/
theorem toBinary64_congr (negative : Bool) (h : x.value = y.value) :
    x.toBinary64 negative = y.toBinary64 negative := by
  unfold toBinary64
  dsimp only
  by_cases hx : x.significand = 0
  · have hy : y.significand = 0 := significand_eq_zero_iff.2 (h ▸ significand_eq_zero_iff.1 hx)
    rw [if_pos (.inl hx), if_pos (.inl hy)]
  · have hy : y.significand ≠ 0 := fun hy =>
      hx (significand_eq_zero_iff.2 (h.trans (significand_eq_zero_iff.1 hy)))
    have htop : x.exponent + length x.significand = y.exponent + length y.significand :=
      top_congr hx hy h
    have hratio := (ratio_eq_value x).trans (h.trans (ratio_eq_value y).symm)
    rw [htop, Binary64.ofRatio_congr negative (tens_pos _) (tens_pos _) hratio]
    simp only [hx, hy]

theorem toBinary64_true (x : Decimal) : x.toBinary64 true = (x.toBinary64 false).neg := by
  have hparts (m : Nat) (e : Int) :
      Binary64.ofParts true m e = (Binary64.ofParts false m e).neg := by
    unfold Binary64.ofParts
    split <;> rfl
  have hratio (n d : Nat) : Binary64.ofRatio true n d = (Binary64.ofRatio false n d).neg := by
    unfold Binary64.ofRatio
    dsimp only
    split
    · rfl
    · split <;> exact hparts _ _
  unfold toBinary64
  dsimp only
  split
  · rfl
  · split
    · rfl
    · exact hratio _ _

variable {m : Nat} {e : Int}

/-- **A decimal that is nearer to a double than half the gap next to it is read as that double.** -/
theorem toBinary64_of_near (negative : Bool) (hcanonical : Binary64.Canonical m e) (hm : m ≠ 0)
    (h : |x.value - m * 2 ^ e| < Binary64.gap m e / 2) :
    x.toBinary64 negative = .finite negative m e hcanonical := by
  obtain ⟨-, hleast, hmost, -⟩ := id hcanonical
  have hlower : (2 : ℚ) ^ (-1075 : Int) < x.value :=
    (Binary64.two_zpow_le (by omega : (-1075 : Int) ≤ e - 1)).trans_lt
      (Binary64.lt_of_near_of_ne_zero hm h)
  have hupper : x.value < 2 ^ (1024 : Int) :=
    (Binary64.lt_of_near hcanonical h).trans_le
      (Binary64.two_zpow_le (by omega : e + 53 ≤ 1024))
  have hx : x.significand ≠ 0 := fun hzero => by
    rw [significand_eq_zero_iff.1 hzero] at hlower
    exact absurd hlower (not_lt.2 (by positivity))
  have htop : ¬ x.top < -330 := fun htop => by
    have hsmall : (10 : ℚ) ^ (-331 : Int) ≤ 2 ^ (-1075 : Int) := by
      rw [zpow_neg, zpow_neg]
      refine inv_anti₀ (by positivity) ?_
      exact_mod_cast (by decide +kernel : (2 : Nat) ^ 1075 ≤ 10 ^ 331)
    have := (value_lt_top x).trans_le ((ten_zpow_le (by omega : x.top ≤ -331)).trans hsmall)
    exact absurd this (not_lt.2 hlower.le)
  have htop' : ¬ 310 < x.top := fun htop => by
    have hlarge : (2 : ℚ) ^ (1024 : Int) ≤ 10 ^ (310 : Int) := by
      exact_mod_cast (by decide +kernel : (2 : Nat) ^ 1024 ≤ 10 ^ 310)
    have := (hlarge.trans (ten_zpow_le (by omega : 310 ≤ x.top - 1))).trans (top_le_value hx)
    exact absurd hupper (not_lt.2 this)
  unfold top at htop htop'
  rw [toBinary64, if_neg (not_or.2 ⟨hx, htop⟩), if_neg htop']
  refine Binary64.ofRatio_of_near negative hcanonical hm (tens_pos _) ?_
  rw [ratio_eq_value]
  exact h

theorem significand_ne_zero {negative : Bool} {hcanonical : Binary64.Canonical m e} (hm : m ≠ 0)
    (h : x.toBinary64 negative = .finite negative m e hcanonical) : x.significand ≠ 0 := by
  intro hx
  rw [toBinary64, if_pos (.inl hx)] at h
  injection h with _ hzero
  exact hm hzero.symm

/-! ### The shortest decimal -/

/-- **Zeros at the end do not count.** -/
theorem value_strip (x : Decimal) : x.strip.value = x.value := by
  fun_induction strip x with
  | case1 x h ih =>
    obtain ⟨k, hk⟩ := Nat.dvd_of_mod_eq_zero h.2
    rw [ih, value, value, hk, Nat.mul_div_cancel_left k (by decide), zpow_add_one₀ (by norm_num)]
    push_cast
    ring
  | case2 x h => rfl

theorem leadingPlace_le (hn : 0 < n) (hd : 0 < d) : (10 : ℚ) ^ leadingPlace n d ≤ n / d := by
  have hd' : (0 : ℚ) < d := by exact_mod_cast hd
  unfold leadingPlace
  dsimp only
  simp only [Rounding.reaches_iff (b := 10) (by decide) hd, Nat.cast_ofNat]
  split
  · assumption
  · have hn' : (10 : ℚ) ^ length n ≤ 10 * n := by exact_mod_cast (length_spec n).2 hn.ne'
    have hlength : (d : ℚ) ≤ 10 ^ length d := by exact_mod_cast (length_spec d).1.le
    rw [le_div_iff₀ hd']
    calc (10 : ℚ) ^ ((length n : Int) - length d - 1) * d
        ≤ 10 ^ ((length n : Int) - length d - 1) * 10 ^ length d := by gcongr
      _ = 10 ^ length n / 10 := by
        rw [← zpow_natCast, ← zpow_natCast, ← zpow_add₀ (by norm_num),
          show (length n : Int) - length d - 1 + length d = length n - 1 by omega,
          zpow_sub_one₀ (by norm_num), div_eq_mul_inv]
      _ ≤ n := by linarith

theorem abs_nearest_value_le (hd : 0 < d) (place : Int) :
    |(⟨Rounding.nearest (n * Nat.pow 10 (-place).toNat) (d * Nat.pow 10 place.toNat), place⟩ :
      Decimal).value - n / d| ≤ 10 ^ place / 2 := by
  have hpow := ten_zpow_pos place
  have hscale := Rounding.cast_scale (b := 10) (by decide) n d place
  have hnear := Rounding.abs_nearest_sub_le (n := n * Nat.pow 10 (-place).toNat)
    (Rounding.scale_pos (b := 10) (e := place) (by decide) hd)
  rw [hscale, Nat.cast_ofNat] at hnear
  generalize Rounding.nearest (n * Nat.pow 10 (-place).toNat) (d * Nat.pow 10 place.toNat) = k at hnear ⊢
  have hsplit : (⟨k, place⟩ : Decimal).value - n / d = (k - n / d / 10 ^ place) * 10 ^ place := by
    rw [value, sub_mul, div_mul_cancel₀ _ hpow.ne']
  rw [hsplit, abs_mul, abs_of_pos hpow]
  nlinarith

theorem toBinary64_of_neighbour? {b : Binary64} {place : Int} (h : neighbour? b n d place = some x) :
    x.toBinary64 false = b := by
  unfold neighbour? at h
  dsimp only at h
  split at h
  · obtain rfl := Option.some.inj h
    assumption
  · split at h
    · obtain rfl := Option.some.inj h
      assumption
    · split at h
      · obtain rfl := Option.some.inj h
        assumption
      · cases h

/-- A double of 53 bits has fewer than seventeen digits before its gap. -/
theorem lt_gap_mul (hcanonical : Binary64.Canonical m e) :
    (m * 2 ^ e : ℚ) < 10 ^ 16 * Binary64.gap m e := by
  have hpow : (0 : ℚ) < 2 ^ e := by positivity
  unfold Binary64.gap
  split
  · rename_i h
    rw [h.1, Binary64.cast_two_pow, zpow_sub_one₀ two_ne_zero]
    norm_num
    linarith
  · have hfull : (m : ℚ) < 2 ^ 53 := by exact_mod_cast hcanonical.1
    nlinarith

/-- **Of the decimals with seventeen digits one is read as the double.** -/
theorem neighbour?_seventeen (hcanonical : Binary64.Canonical m e) (hm : m ≠ 0) (hn : 0 < n)
    (hd : 0 < d) (hvalue : (n / d : ℚ) = m * 2 ^ e) :
    (neighbour? (.finite false m e hcanonical) n d (leadingPlace n d - 16)).isSome = true := by
  have hlead := leadingPlace_le hn hd
  have hgap := lt_gap_mul hcanonical
  have hplace : (10 : ℚ) ^ (leadingPlace n d - 16) < Binary64.gap m e := by
    rw [zpow_sub₀ (by norm_num), div_lt_iff₀ (by positivity), mul_comm]
    exact (hlead.trans_eq hvalue).trans_lt hgap
  have hnear := abs_nearest_value_le (n := n) hd (leadingPlace n d - 16)
  rw [hvalue] at hnear
  have hread := toBinary64_of_near false hcanonical hm (hnear.trans_lt (by linarith))
  unfold neighbour?
  dsimp only
  rw [if_pos hread]
  rfl

/-- **The shortest decimal of a double is read as the double.** -/
theorem toBinary64_shortest (negative : Bool) (hcanonical : Binary64.Canonical m e) (hm : m ≠ 0) :
    (shortest (m * Nat.pow 2 e.toNat) (Nat.pow 2 (-e).toNat)).toBinary64 negative =
      .finite negative m e hcanonical := by
  have hn : 0 < m * Nat.pow 2 e.toNat := Nat.mul_pos (Nat.pos_of_ne_zero hm) (Nat.pow_pos (by decide))
  have hd : 0 < Nat.pow 2 (-e).toNat := Nat.pow_pos (by decide)
  have hself := Binary64.ofRatio_parts false hcanonical hm
  have hvalue := Binary64.ratio_parts m e
  generalize m * Nat.pow 2 e.toNat = n at hn hself hvalue ⊢
  generalize Nat.pow 2 (-e).toNat = d at hd hself hvalue ⊢
  have hpositive : (shortest n d).toBinary64 false = .finite false m e hcanonical := by
    unfold shortest
    dsimp only
    rw [hself]
    split
    · rename_i x hfound
      obtain ⟨k, -, hk⟩ := List.exists_of_findSome?_eq_some hfound
      rw [toBinary64_congr false (value_strip x)]
      exact toBinary64_of_neighbour? hk
    · rename_i hnone
      have hlast := List.findSome?_eq_none_iff.1 hnone 16 (by decide)
      have hsome := neighbour?_seventeen hcanonical hm hn hd hvalue
      rw [show leadingPlace n d - 16 = leadingPlace n d - (16 : Nat) from rfl, hlast] at hsome
      cases hsome
  cases negative with
  | false => exact hpositive
  | true => rw [toBinary64_true, hpositive]; rfl

end Decimal

end BatteryMonitor
