import BatteryMonitor.Proofs.Nearest

/-!
# The integer part of a rounded quotient

A quotient of two integers is rounded to a double before its fraction is dropped, and rounding may
reach the next integer.  It moves the quotient by at most half a place
(`Binary64.abs_rounded_sub_le`), and so:

* a quotient that is a double itself is not moved (`Binary64.rounded_of_isDouble`);
* of integers below `2^53` the quotient is too far from the next integer to reach it, so that its
  integer part is the one of the exact quotient (`Binary64.floor_rounded`,
  `Number.div_truncate_of_lt`);
* beyond that only the two ends matter: a quotient reaches the power of two above its place iff it
  is at most half a place below it (`Binary64.nearest_eq_top_iff`).  At the last place that power is
  no double any more, and there is no quotient (`Binary64.value_ofRatio_of_lt`,
  `Binary64.ofRatio_of_le`); next to one it decides whether the integer part is zero
  (`Binary64.one_le_rounded_iff`).
-/

namespace BatteryMonitor

namespace Rounding

variable {n d m : Nat} {q : ℚ}

theorem towardZero_of_nonneg (h : 0 ≤ q) : towardZero q = q.floor := by
  rw [towardZero, Int.tdiv_eq_ediv_of_nonneg (Rat.num_nonneg.2 h), Rat.floor_def]

theorem towardZero_neg (q : ℚ) : towardZero (-q) = -towardZero q := by
  rw [towardZero, towardZero, Rat.neg_num, Rat.neg_den, Int.neg_tdiv]

end Rounding

namespace Binary64

variable {n d : Nat} {e : Int} {q : ℚ}

/-! ### The rounded quotient -/

/-- **A quotient is moved by at most half a place.** -/
theorem abs_rounded_sub_le (hd : 0 < d) (he : placeOf n d = e) :
    |rounded n d - n / d| ≤ 2 ^ e / 2 := by
  have hpow : (0 : ℚ) < 2 ^ e := by positivity
  have hnear := Rounding.abs_nearest_sub_le (n := n * Nat.pow 2 (-e).toNat)
    (places_pos (e := e) hd)
  rw [cast_places] at hnear
  have hscaled : rounded n d - n / d =
      (Rounding.nearest (n * Nat.pow 2 (-e).toNat) (d * Nat.pow 2 e.toNat) - n / d / 2 ^ e) *
        2 ^ e := by
    rw [rounded_eq he, sub_mul, div_mul_cancel₀ _ hpow.ne']
  rw [hscaled, abs_mul, abs_of_pos hpow]
  linarith [mul_le_mul_of_nonneg_right hnear hpow.le]

theorem natCast_le_rounded {k : Nat} (hd : 0 < d) (he : placeOf n d ≤ 0) (h : (k : ℚ) ≤ n / d) :
    (k : ℚ) ≤ rounded n d := by
  obtain ⟨j, hj⟩ := Int.eq_ofNat_of_zero_le (a := -placeOf n d) (by omega)
  obtain hplace : placeOf n d = -j := by omega
  have hcount : (k : ℚ) = (k * Nat.pow 2 j : Nat) * 2 ^ (-j : Int) := by
    rw [Nat.cast_mul, cast_two_pow, mul_assoc, ← zpow_natCast, ← zpow_add₀ two_ne_zero]
    simp
  rw [rounded_eq hplace, hcount]
  gcongr
  exact Rounding.le_nearest (places_pos hd) ((le_places_iff hd).2 (hcount ▸ h))

/-- **From the end of the doubles on a quotient is rounded to no number.** -/
theorem ofRatio_of_le (negative : Bool) (hd : 0 < d) (h : (beyond : ℚ) ≤ n / d) :
    ofRatio negative n d = infinite negative := by
  have hpositive : (0 : ℚ) < n / d := lt_of_lt_of_le (by rw [beyond_eq]; positivity) h
  have hn : 0 < n := by
    rcases Nat.eq_zero_or_pos n with rfl | hn
    · simp at hpositive
    · exact hn
  obtain ⟨-, hupper, -⟩ := placeOf_spec hn hd
  generalize he : placeOf n d = e at hupper
  have htop := nearest_eq_top_iff hn hd he
  have hplace : 971 ≤ e := by
    by_contra hlast
    have hpower : (2 : ℚ) ^ (e + 53) ≤ 2 ^ (1023 : Int) := two_zpow_le (by omega)
    linarith [two_zpow_lt_beyond]
  have hnone {m : Nat} {j : Int} (hj : 971 < j) : ofParts negative m j = infinite negative :=
    dif_neg fun hcanonical => absurd hcanonical.2.2.1 (by omega)
  rw [ofRatio, if_neg hn.ne', he]
  dsimp only
  split
  · exact hnone (by omega)
  · rename_i hround
    refine hnone (lt_of_le_of_ne hplace ?_)
    rintro rfl
    exact hround (htop.2 (beyond_eq ▸ h))

/-- What is rounded to one is at most half a place below it, or greater. -/
theorem one_le_rounded_iff (hd : 0 < d) : 1 ≤ rounded n d ↔ (1 - 1 / 2 ^ 54 : ℚ) ≤ n / d := by
  rcases Nat.eq_zero_or_pos n with rfl | hn
  · rw [rounded_zero]
    norm_num
  obtain ⟨-, hupper, hlower⟩ := placeOf_spec hn hd
  generalize he : placeOf n d = e at hupper hlower
  rcases lt_trichotomy e (-53) with hsmall | rfl | hlarge
  -- less than a half is rounded to at most a half
  · have hpower : (2 : ℚ) ^ (e + 53) ≤ 1 / 2 :=
      (two_zpow_le (k := -1) (by omega)).trans_eq (by norm_num)
    have hround := nearest_places_le (e := e) (j := e + 53) hd (by omega) hupper.le
    have hlimit : (1 / 2 : ℚ) < 1 - 1 / 2 ^ 54 := by norm_num
    rw [rounded_eq he]
    exact iff_of_false (by linarith) (by linarith)
  · have hfull := (nearest_placeOf hn hd he).1
    have hpow : (2 : ℚ) ^ (-53 : Int) = 1 / 2 ^ 53 := by norm_num
    have htop := nearest_eq_top_iff hn hd he
    rw [show (2 ^ 53 - 1 / 2) * (2 : ℚ) ^ (-53 : Int) = 1 - 1 / 2 ^ 54 by norm_num] at htop
    rw [← htop, rounded_eq he, hpow, mul_one_div, one_le_div (by positivity), ← cast_two_pow,
      Nat.cast_le]
    exact ⟨fun h => le_antisymm hfull h, fun h => h.ge⟩
  · have hone : (1 : ℚ) ≤ n / d := by
      have hpower : (2 : ℚ) ^ (0 : Int) ≤ 2 ^ (e + 52) := two_zpow_le (by omega)
      rw [zpow_zero] at hpower
      exact hpower.trans (hlower.resolve_left (by omega))
    refine iff_of_true (one_le_rounded hd hone) ?_
    norm_num at hone ⊢
    linarith

theorem placeOf_le_zero (hn : 0 < n) (hd : 0 < d) (hlimit : n < 2 ^ 53) : placeOf n d ≤ 0 := by
  rcases (placeOf_spec hn hd).2.2 with hleast | hlower
  · rw [hleast]
    decide
  · have hone : (1 : ℚ) ≤ d := by exact_mod_cast hd
    have hless : (n / d : ℚ) < 2 ^ (53 : Int) :=
      (div_le_self n.cast_nonneg hone).trans_lt (by exact_mod_cast hlimit)
    have hplace := (zpow_lt_zpow_iff_right₀ one_lt_two).1 (hlower.trans_lt hless)
    omega

theorem rounded_le_mul (hn : 0 < n) (hd : 0 < d) (hplace : placeOf n d ≠ -1074) :
    rounded n d ≤ (n / d : ℚ) * (1 + 1 / 2 ^ 53) := by
  have hlower := (placeOf_spec hn hd).2.2.resolve_left hplace
  rw [show placeOf n d + 52 = placeOf n d + (52 : Nat) from rfl, two_zpow_add] at hlower
  have hhalf := (abs_le.1 (abs_rounded_sub_le hd (n := n) rfl)).2
  linarith

theorem rounded_lt_next (hd : 0 < d) (hlimit : n < 2 ^ 53) : rounded n d < (n / d : Nat) + 1 := by
  have hnonneg : (0 : ℚ) ≤ (n / d : Nat) := Nat.cast_nonneg _
  rcases Nat.eq_zero_or_pos n with rfl | hn
  · rw [rounded_zero]
    exact add_pos_of_nonneg_of_pos hnonneg one_pos
  by_cases hleast : placeOf n d = -1074
  -- at the least place everything is far below one
  · have hupper := (placeOf_spec hn hd).2.1
    rw [hleast] at hupper
    have hround := rounded_le hd (j := -1074 + 53) (by decide) hupper.le
    have htiny : (2 : ℚ) ^ (-1074 + 53 : Int) < 2 ^ (0 : Int) :=
      (zpow_lt_zpow_iff_right₀ one_lt_two).2 (by decide)
    rw [zpow_zero] at htiny
    exact (hround.trans_lt htiny).trans_le (le_add_of_nonneg_left hnonneg)
  · have hd' : (0 : ℚ) < d := by exact_mod_cast hd
    have hnext : (n : ℚ) + 1 ≤ ((n / d : Nat) + 1) * d := by
      exact_mod_cast Nat.lt_mul_of_div_lt (Nat.lt_succ_self (n / d)) hd
    have hmoved : (n : ℚ) / 2 ^ 53 < 1 :=
      (div_lt_one (by positivity)).2 (by exact_mod_cast hlimit)
    have hscaled : (n / d : ℚ) * (1 + 1 / 2 ^ 53) * d = n + n / 2 ^ 53 := by
      rw [mul_right_comm, div_mul_cancel₀ _ hd'.ne', mul_add, mul_one, mul_one_div]
    refine lt_of_mul_lt_mul_right ?_ hd'.le
    calc rounded n d * d ≤ (n / d : ℚ) * (1 + 1 / 2 ^ 53) * d := by
          gcongr
          exact rounded_le_mul hn hd hleast
      _ < ((n / d : Nat) + 1) * d := by rw [hscaled]; linarith

/-- **The integer part of a quotient survives rounding** if its dividend has 53 bits. -/
theorem floor_rounded (hd : 0 < d) (hlimit : n < 2 ^ 53) :
    (rounded n d).floor = (n / d : Nat) := by
  rcases Nat.eq_zero_or_pos n with rfl | hn
  · rw [rounded_zero, Nat.zero_div]
    rfl
  have hreached : ((n / d : Nat) : ℚ) ≤ n / d := by
    rw [le_div_iff₀ (by exact_mod_cast hd)]
    exact_mod_cast Nat.div_mul_le_self n d
  refine le_antisymm ?_ (Rat.le_floor_iff.2 ?_)
  · exact Int.lt_add_one_iff.1 (Rat.floor_lt_iff.2 (by exact_mod_cast rounded_lt_next hd hlimit))
  · exact_mod_cast natCast_le_rounded hd (placeOf_le_zero hn hd hlimit) hreached

/-! ### Numbers that are doubles -/

/-- The number is one of those that doubles stand for. -/
def IsDouble (q : ℚ) : Prop :=
  ∃ (k : Nat) (j : Int), k < 2 ^ 53 ∧ -1074 ≤ j ∧ j ≤ 971 ∧ |q| = k * 2 ^ j

theorem isDouble_mul_zpow {m : Int} {j : Int} (h : m.natAbs < 2 ^ 53) (hleast : -1074 ≤ j)
    (hmost : j ≤ 971) : IsDouble (m * 2 ^ j) := by
  refine ⟨m.natAbs, j, h, hleast, hmost, ?_⟩
  rw [abs_mul, abs_of_pos (by positivity : (0 : ℚ) < 2 ^ j), ← Int.cast_abs, Int.abs_eq_natAbs,
    Int.cast_natCast]

theorem isDouble_intCast {m : Int} (h : m.natAbs < 2 ^ 53) : IsDouble m := by
  have hdouble := isDouble_mul_zpow (j := 0) h (by decide) (by decide)
  rwa [zpow_zero, mul_one] at hdouble

theorem IsDouble.lt_beyond (h : IsDouble q) : |q| < beyond := by
  obtain ⟨k, j, hk, -, hj, hq⟩ := h
  have hk' : (k : ℚ) + 1 ≤ 2 ^ 53 := by exact_mod_cast hk
  rw [hq, beyond_eq]
  calc (k : ℚ) * 2 ^ j ≤ k * 2 ^ (971 : Int) := by gcongr; exact one_le_two
    _ < _ := by gcongr; linarith

/-- **A quotient that is a double is rounded to itself.** -/
theorem rounded_of_isDouble (hd : 0 < d) (h : IsDouble (n / d)) : rounded n d = n / d := by
  rcases Nat.eq_zero_or_pos n with rfl | hn
  · rw [rounded_zero, Nat.cast_zero, zero_div]
  obtain ⟨k, j, hk, hleast, -, hq⟩ := h
  rw [abs_of_nonneg (by positivity)] at hq
  obtain ⟨-, -, hlower⟩ := placeOf_spec hn hd
  generalize he : placeOf n d = e at hlower
  have hk' : (k : ℚ) < 2 ^ 53 := by exact_mod_cast hk
  -- its own place is not below the one of the quotient
  have hplace : e ≤ j := by
    rcases hlower with rfl | hlower
    · exact hleast
    · have hless : (n / d : ℚ) < 2 ^ (j + 53) := by
        rw [hq, show j + 53 = j + (53 : Nat) from rfl, two_zpow_add]
        gcongr
      have := (zpow_lt_zpow_iff_right₀ one_lt_two).1 (hlower.trans_lt hless)
      omega
  obtain ⟨i, hi⟩ := Int.eq_ofNat_of_zero_le (a := j - e) (by omega)
  have hcount : (n / d : ℚ) = (k * Nat.pow 2 i : Nat) * 2 ^ e := by
    rw [hq, show j = e + i by omega, two_zpow_add, Nat.cast_mul, cast_two_pow, mul_assoc]
  have hnearest : Rounding.nearest (n * Nat.pow 2 (-e).toNat) (d * Nat.pow 2 e.toNat) =
      k * Nat.pow 2 i := by
    refine Rounding.nearest_eq_of_near (places_pos hd) ?_
    rw [cast_places, hcount, mul_div_cancel_right₀ _ (by positivity), sub_self, abs_zero]
    norm_num
  rw [rounded_eq he, hnearest, ← hcount]

theorem value_ofRat_of_isDouble (zeroSign : Bool) (h : IsDouble q) :
    (ofRat zeroSign q).value = .real q := by
  have habs : |q| = (q.num.natAbs : ℚ) / q.den := by
    rw [Rat.abs_def, Rat.divInt_eq_div, Int.cast_natCast, Int.cast_natCast]
  have hdouble : IsDouble (q.num.natAbs / q.den) := by
    obtain ⟨k, j, hk, hleast, hmost, hq⟩ := h
    exact ⟨k, j, hk, hleast, hmost, by rw [← habs, abs_abs, hq]⟩
  rw [ofRat, value_ofRatio_of_lt _ q.den_pos (habs ▸ h.lt_beyond),
    rounded_of_isDouble q.den_pos hdouble, ← habs]
  congr 1
  rcases lt_trichotomy q 0 with hneg | rfl | hpos
  · have hnum := Rat.num_neg.2 hneg
    rw [if_neg hnum.ne, decide_eq_true hnum, if_pos rfl, abs_of_neg hneg, neg_neg]
  · simp
  · have hnum := Rat.num_pos.2 hpos
    rw [if_neg hnum.ne', decide_eq_false hnum.le.not_gt, if_neg Bool.false_ne_true,
      abs_of_pos hpos]

/-- **A product that is a double is not rounded.** -/
theorem value_mul {x y : Binary64} {p q : ℚ} (hx : x.value = .real p) (hy : y.value = .real q)
    (h : IsDouble (p * q)) : (x.mul y).value = .real (p * q) := by
  obtain ⟨s, m, e, hcanonical, rfl, rfl⟩ := exists_finite hx
  obtain ⟨s', m', e', hcanonical', rfl, rfl⟩ := exists_finite hy
  exact value_ofRat_of_isDouble _ h

/-- **An integer that is a double is not rounded.** -/
theorem ofInt_eq_ofRat (n : Int) : ofInt n = ofRat false n := by
  rw [ofInt, ofRat, Rat.num_intCast, Rat.den_intCast]
  split
  · rename_i hzero
    rw [hzero]
    rfl
  · rfl

theorem value_ofInt {m : Int} (h : m.natAbs < 2 ^ 53) : (ofInt m).value = .real m := by
  rw [ofInt_eq_ofRat]
  exact value_ofRat_of_isDouble false (isDouble_intCast h)

/-- What is left of a rounded quotient without its fraction. -/
theorem truncate_of_value {x : Binary64} {negative : Bool} (hq : 0 ≤ q)
    (h : x.value = .real (if negative then -q else q)) :
    x.truncate = .ok (if negative then -q.floor else q.floor) := by
  rw [truncate, toInteger, h]
  dsimp only
  cases negative with
  | false => simp only [Bool.false_eq_true, if_false, Rounding.towardZero_of_nonneg hq]
  | true => simp only [if_true, Rounding.towardZero_neg, Rounding.towardZero_of_nonneg hq]

end Binary64

namespace Number

open Binary64

variable {m n : Int}

theorem toDouble_of_value {q : ℚ} (h : (ofInt n).value = .real q) :
    (int n).toDouble = .ok (ofInt n) := by
  unfold toDouble
  dsimp only
  split
  · rename_i negative hinfinite
    rw [hinfinite] at h
    cases negative <;> cases h
  · rfl

theorem eq_tooLarge_of_toDouble {fault : Fault} (h : (int n).toDouble = .error fault) :
    fault = .tooLarge := by
  unfold toDouble at h
  dsimp only at h
  split at h
  · exact (Except.error.inj h).symm
  · cases h

/-- One of the two integers is negative. -/
def signsDiffer (m n : Int) : Bool := decide (m < 0) != decide (n < 0)

theorem tdiv_eq (m n : Int) : m.tdiv n =
    let size : Int := (m.natAbs / n.natAbs : Nat)
    if signsDiffer m n then -size else size := by
  have hsize : ((m.natAbs / n.natAbs : Nat) : Int) = (m.natAbs : Int).tdiv n.natAbs := rfl
  rw [hsize, signsDiffer]
  rcases Int.lt_or_le m 0 with hm | hm <;> rcases Int.lt_or_le n 0 with hn | hn
  · rw [Int.ofNat_natAbs_of_nonpos hm.le, Int.ofNat_natAbs_of_nonpos hn.le]
    simp [hm, hn]
  · rw [Int.ofNat_natAbs_of_nonpos hm.le, Int.natAbs_of_nonneg hn]
    simp [hm, hn.not_gt]
  · rw [Int.natAbs_of_nonneg hm, Int.ofNat_natAbs_of_nonpos hn.le]
    simp [hm.not_gt, hn]
  · rw [Int.natAbs_of_nonneg hm, Int.natAbs_of_nonneg hn]
    simp [hm.not_gt, hn.not_gt]

theorem beyond_le_iff (hn : n ≠ 0) :
    (beyond : ℚ) ≤ m.natAbs / n.natAbs ↔ beyond * |n| ≤ |m| := by
  rw [Nat.cast_natAbs, Nat.cast_natAbs, le_div_iff₀ (by exact_mod_cast abs_pos.2 hn)]
  exact_mod_cast Iff.rfl

theorem near_one_le_iff (hn : n ≠ 0) :
    (1 - 1 / 2 ^ 54 : ℚ) ≤ m.natAbs / n.natAbs ↔ (2 ^ 54 - 1) * |n| ≤ 2 ^ 54 * |m| := by
  have hnear : (1 - 1 / 2 ^ 54 : ℚ) = (2 ^ 54 - 1 : Int) / 2 ^ 54 := by norm_num
  rw [Nat.cast_natAbs, Nat.cast_natAbs, hnear,
    div_le_div_iff₀ (by positivity) (by exact_mod_cast abs_pos.2 hn), mul_comm ((|m| : Int) : ℚ)]
  exact_mod_cast Iff.rfl

theorem div_of_lt (hn : n ≠ 0) (h : (m.natAbs / n.natAbs : ℚ) < beyond) :
    (int m).div (int n) = .ok (ofRatio (signsDiffer m n) m.natAbs n.natAbs) := by
  have hvalue := value_ofRatio_of_lt (signsDiffer m n) (Int.natAbs_pos.2 hn) h
  simp only [div, if_neg hn]
  split
  · rename_i negative hinfinite
    rw [show ofRatio (signsDiffer m n) m.natAbs n.natAbs = _ from hinfinite] at hvalue
    cases negative <;> cases hvalue
  · rfl

/-- **The quotient of two integers without its fraction**, if there is a double for it. -/
theorem div_truncate (hn : n ≠ 0) (h : (m.natAbs / n.natAbs : ℚ) < beyond) :
    ((int m).div (int n) >>= truncate) =
      .ok (let size := (rounded m.natAbs n.natAbs).floor
        if signsDiffer m n then -size else size) := by
  have hvalue := value_ofRatio_of_lt (signsDiffer m n) (Int.natAbs_pos.2 hn) h
  rw [div_of_lt hn h]
  exact truncate_of_value (rounded_nonneg _ _) hvalue

theorem div_of_beyond_le (hn : n ≠ 0) (h : (beyond : ℚ) ≤ m.natAbs / n.natAbs) :
    (int m).div (int n) = .error .tooLarge := by
  have hinfinite := ofRatio_of_le (signsDiffer m n) (Int.natAbs_pos.2 hn) h
  simp only [div, if_neg hn]
  rw [show ofRatio (decide (m < 0) != decide (n < 0)) m.natAbs n.natAbs = _ from hinfinite]

/-- **Dividing integers of few digits and dropping the fraction is exact.** -/
theorem div_truncate_of_lt (hn : n ≠ 0) (hm : m.natAbs < 2 ^ 53) :
    ((int m).div (int n) >>= truncate) = .ok (m.tdiv n) := by
  have hd : 0 < n.natAbs := Int.natAbs_pos.2 hn
  have hlt : (m.natAbs / n.natAbs : ℚ) < beyond := by
    have hle : (m.natAbs / n.natAbs : ℚ) ≤ m.natAbs :=
      div_le_self (Nat.cast_nonneg _) (by exact_mod_cast hd)
    have hdouble := (isDouble_intCast hm).lt_beyond
    rw [← Int.cast_abs, Int.abs_eq_natAbs, Int.cast_natCast] at hdouble
    exact hle.trans_lt hdouble
  rw [div_truncate hn hlt, floor_rounded hd hm, tdiv_eq]

end Number

end BatteryMonitor
