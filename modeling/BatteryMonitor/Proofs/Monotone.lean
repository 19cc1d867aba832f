import BatteryMonitor.Proofs.Effect
import BatteryMonitor.Proofs.Truncation
import Mathlib.Order.Monotone.Odd

/-!
# Rounding keeps the order

The double nearest to a rational (`Binary64.nearestDouble`) is no smaller for a greater rational
(`Binary64.nearestDouble_mono`).  What is a double itself is not moved, and so a rational and its
double are on the same side of every double, or meet on it
(`Binary64.IsDouble.le_nearestDouble`, `Binary64.IsDouble.nearestDouble_le`): rounding may reach a
bound but never passes it, as long as the bound is a double.  To tell whether it is reached takes
more, namely that it is further away than the rounding moves anything
(`Binary64.nearestDouble_lt`).  Quotients of small integers are that far apart unless they are equal,
and so they may be compared after they were rounded (`Binary64.nearestDouble_div_le_iff`).

An operation on doubles is the exact one and then one rounding, unless it leaves the doubles
(`Binary64.value_add_of_lt` and its like), so that the order goes through it.
-/

namespace BatteryMonitor

theorem Extended.real_le (p q : ℚ) : (real p).le (.real q) = decide (p ≤ q) := by
  rw [Bool.eq_iff_iff, decide_eq_true_iff, le_iff_lt_or_eq]
  simp [le, lt, eq]

theorem Extended.le_eq_false_of_lt {a b : Extended} (h : a.lt b = true) : b.le a = false := by
  cases a <;> cases b <;> first | rfl | cases h | skip
  rename_i p q
  rw [real_le]
  exact decide_eq_false (not_le.2 (of_decide_eq_true h))

namespace Rounding

variable {n d n' d' : Nat} {p q : ℚ}

theorem natAbs_div_den (q : ℚ) : (q.num.natAbs : ℚ) / q.den = |q| := by
  rw [Rat.abs_def, Rat.divInt_eq_div, Int.cast_natCast, Int.cast_natCast]

/-- **Rounding to an integer keeps the order** of quotients. -/
theorem nearest_mono (hd : 0 < d) (hd' : 0 < d') (h : (n / d : ℚ) ≤ n' / d') :
    nearest n d ≤ nearest n' d' := by
  by_contra hless
  have hnext : (nearest n' d' : ℚ) + 1 ≤ nearest n d := by exact_mod_cast not_le.1 hless
  have hbelow := (abs_le.1 (abs_nearest_sub_le (n := n) hd)).2
  have habove := (abs_le.1 (abs_nearest_sub_le (n := n') hd')).1
  -- only a tie could be in between, but then the two quotients are one
  have heq : (n / d : ℚ) = n' / d' := by linarith
  exact hless (nearest_congr hd hd' heq).le

theorem toNearest_neg (q : ℚ) : toNearest (-q) = -toNearest q := by
  unfold toNearest
  rw [Rat.neg_num, Rat.neg_den, Int.natAbs_neg]
  rcases lt_trichotomy q.num 0 with hneg | hzero | hpos
  · rw [if_neg (by omega), if_pos hneg, neg_neg]
  · simp [hzero, nearest, q.den_pos]
  · rw [if_pos (by omega), if_neg hpos.le.not_gt]

theorem toNearest_of_nonneg (h : 0 ≤ q) : toNearest q = nearest q.num.natAbs q.den := by
  unfold toNearest
  rw [if_neg (Rat.num_nonneg.2 h).not_gt]

theorem toNearest_le (h : p ≤ q) : toNearest p ≤ toNearest q := by
  refine monotone_of_odd_of_monotoneOn_nonneg toNearest_neg (fun p hp q hq h => ?_) h
  rw [toNearest_of_nonneg hp, toNearest_of_nonneg hq, Nat.cast_le]
  refine nearest_mono p.den_pos q.den_pos ?_
  rwa [natAbs_div_den, natAbs_div_den, abs_of_nonneg hp, abs_of_nonneg hq]

theorem toNearest_intCast (n : Int) : toNearest n = n := by
  have hnearest : nearest n.natAbs 1 = n.natAbs := by
    unfold nearest
    rw [Nat.mod_one, Nat.div_one]
    rfl
  unfold toNearest
  rw [Rat.num_intCast, Rat.den_intCast, hnearest]
  dsimp only
  split <;> omega

end Rounding

namespace Binary64

variable {n d n' d' : Nat} {p q : ℚ} {x y : Binary64}

/-! ### The rounded quotient -/

theorem rounded_mono (hd : 0 < d) (hd' : 0 < d') (h : (n / d : ℚ) ≤ n' / d') :
    rounded n d ≤ rounded n' d' := by
  rcases Nat.eq_zero_or_pos n with rfl | hn
  · rw [rounded_zero]
    exact rounded_nonneg n' d'
  have hn' : 0 < n' := by
    have hpositive : (0 : ℚ) < n' / d' := lt_of_lt_of_le (by positivity) h
    rcases Nat.eq_zero_or_pos n' with rfl | hn'
    · simp at hpositive
    · exact hn'
  obtain ⟨hleast, hupper, hlower⟩ := placeOf_spec hn hd
  obtain ⟨hleast', hupper', hlower'⟩ := placeOf_spec hn' hd'
  obtain ⟨hfull, -⟩ := nearest_placeOf hn hd rfl
  obtain ⟨-, hnormal⟩ := nearest_placeOf hn' hd' rfl
  rcases lt_trichotomy (placeOf n d) (placeOf n' d') with hless | heq | hgreater
  -- the smaller one does not get past the power of two that the other one does not fall below
  · have hlow := hnormal.resolve_left (by omega)
    calc rounded n d ≤ (Nat.pow 2 53 : Nat) * 2 ^ placeOf n d := by
          rw [rounded_eq rfl]
          gcongr
      _ = (Nat.pow 2 52 : Nat) * 2 ^ (placeOf n d + 1) := by
          rw [cast_two_pow, cast_two_pow, zpow_add_one₀ two_ne_zero]
          ring
      _ ≤ (Nat.pow 2 52 : Nat) * 2 ^ placeOf n' d' := by
          gcongr
          · exact one_le_two
          · exact hless
      _ ≤ rounded n' d' := by
          rw [rounded_eq rfl]
          gcongr
  · rw [rounded_eq heq, rounded_eq rfl]
    gcongr
    refine Rounding.nearest_mono (places_pos hd) (places_pos hd') ?_
    rw [cast_places, cast_places]
    gcongr
  · have hpower := two_zpow_le (show placeOf n' d' + 53 ≤ placeOf n d + 52 by omega)
    have hlow := hlower.resolve_left (by omega)
    linarith

/-! ### The nearest double of a rational -/

/-- The double nearest to `q` as a number, if doubles went on for ever. -/
def nearestDouble (q : ℚ) : ℚ :=
  if q < 0 then -rounded q.num.natAbs q.den else rounded q.num.natAbs q.den

theorem nearestDouble_of_nonneg (h : 0 ≤ q) : nearestDouble q = rounded q.num.natAbs q.den :=
  if_neg h.not_gt

theorem nearestDouble_zero : nearestDouble 0 = 0 :=
  (nearestDouble_of_nonneg le_rfl).trans (rounded_zero _)

theorem nearestDouble_div (hd : 0 < d) : nearestDouble (n / d) = rounded n d := by
  have hnonneg : (0 : ℚ) ≤ n / d := by positivity
  rw [nearestDouble_of_nonneg hnonneg]
  have hquotient := (Rounding.natAbs_div_den (n / d)).trans (abs_of_nonneg hnonneg)
  exact le_antisymm (rounded_mono (Rat.den_pos _) hd hquotient.le)
    (rounded_mono hd (Rat.den_pos _) hquotient.ge)

theorem nearestDouble_neg (q : ℚ) : nearestDouble (-q) = -nearestDouble q := by
  unfold nearestDouble
  rw [Rat.neg_num, Rat.neg_den, Int.natAbs_neg]
  rcases lt_trichotomy q 0 with hneg | rfl | hpos
  · rw [if_neg (by linarith), if_pos hneg, neg_neg]
  · simp [rounded_zero]
  · rw [if_pos (by linarith), if_neg hpos.le.not_gt]

/-- **Rounding to a double keeps the order.** -/
theorem nearestDouble_mono : Monotone nearestDouble := by
  refine monotone_of_odd_of_monotoneOn_nonneg nearestDouble_neg fun p hp q hq h => ?_
  rw [nearestDouble_of_nonneg hp, nearestDouble_of_nonneg hq]
  refine rounded_mono p.den_pos q.den_pos ?_
  rwa [Rounding.natAbs_div_den, Rounding.natAbs_div_den, abs_of_nonneg hp, abs_of_nonneg hq]

theorem nearestDouble_nonneg (h : 0 ≤ q) : 0 ≤ nearestDouble q :=
  nearestDouble_zero ▸ nearestDouble_mono h

theorem IsDouble.neg (h : IsDouble q) : IsDouble (-q) := by
  unfold IsDouble
  rwa [abs_neg]

theorem nearestDouble_of_isDouble (h : IsDouble q) : nearestDouble q = q := by
  have hpositive {p : ℚ} (hp : 0 ≤ p) (h : IsDouble p) : nearestDouble p = p := by
    have hquotient := (Rounding.natAbs_div_den p).trans (abs_of_nonneg hp)
    rw [nearestDouble_of_nonneg hp, rounded_of_isDouble p.den_pos (by rwa [hquotient]), hquotient]
  rcases le_total 0 q with hq | hq
  · exact hpositive hq h
  · rw [← neg_inj, ← nearestDouble_neg]
    exact hpositive (by linarith) h.neg

namespace IsDouble

/-- **Rounding does not fall below a bound** that is a double. -/
theorem le_nearestDouble (hp : IsDouble p) (h : p ≤ q) : p ≤ nearestDouble q :=
  nearestDouble_of_isDouble hp ▸ nearestDouble_mono h

/-- **Nor does it get above one.** -/
theorem nearestDouble_le (hp : IsDouble p) (h : q ≤ p) : nearestDouble q ≤ p :=
  (nearestDouble_mono h).trans_eq (nearestDouble_of_isDouble hp)

end IsDouble

/-- Above the least place a rational is moved by at most its `2^53`rd part. -/
theorem abs_nearestDouble_sub_le (h : q = 0 ∨ (2 : ℚ) ^ (-1021 : Int) ≤ q) :
    |nearestDouble q - q| ≤ q / 2 ^ 53 := by
  rcases h with rfl | h
  · rw [nearestDouble_zero, sub_zero, abs_zero, zero_div]
  have hpositive : 0 < q := lt_of_lt_of_le (by positivity) h
  have hquotient := (Rounding.natAbs_div_den q).trans (abs_of_pos hpositive)
  have hnum : 0 < q.num.natAbs := Int.natAbs_pos.2 (Rat.num_pos.2 hpositive).ne'
  obtain ⟨-, hupper, hlower⟩ := placeOf_spec hnum q.den_pos
  have hhalf := abs_rounded_sub_le q.den_pos (n := q.num.natAbs) rfl
  rw [hquotient, ← nearestDouble_of_nonneg hpositive.le] at hhalf
  rw [hquotient] at hupper hlower
  have hplace : placeOf q.num.natAbs q.den ≠ -1074 := by
    intro hleast
    rw [hleast] at hupper
    exact absurd h (not_le.2 hupper)
  have hlow := hlower.resolve_left hplace
  rw [show placeOf q.num.natAbs q.den + 52 = placeOf q.num.natAbs q.den + (52 : Nat) from rfl,
    two_zpow_add] at hlow
  refine hhalf.trans ?_
  rw [div_le_div_iff₀ two_pos (by positivity)]
  linarith

theorem nearestDouble_le_mul (h : q = 0 ∨ (2 : ℚ) ^ (-1021 : Int) ≤ q) :
    nearestDouble q ≤ q * (1 + 1 / 2 ^ 53) := by
  linarith [(abs_le.1 (abs_nearestDouble_sub_le h)).2]

theorem mul_le_nearestDouble (h : q = 0 ∨ (2 : ℚ) ^ (-1021 : Int) ≤ q) :
    q * (1 - 1 / 2 ^ 53) ≤ nearestDouble q := by
  linarith [(abs_le.1 (abs_nearestDouble_sub_le h)).1]

/-- **Rounding does not reach what is further away** than the `2^53`rd part. -/
theorem nearestDouble_lt (hp : (2 : ℚ) ^ (-1020 : Int) ≤ p) (h : q * (1 + 1 / 2 ^ 53) < p) :
    nearestDouble q < p := by
  rcases le_total ((2 : ℚ) ^ (-1021 : Int)) q with hq | hq
  · exact (nearestDouble_le_mul (.inr hq)).trans_lt h
  · have hsmall : IsDouble ((2 : ℚ) ^ (-1021 : Int)) := by
      have hdouble := isDouble_mul_zpow (m := 1) (j := -1021) (by decide) (by decide) (by decide)
      rwa [Int.cast_one, one_mul] at hdouble
    have hless : (2 : ℚ) ^ (-1021 : Int) < 2 ^ (-1020 : Int) :=
      zpow_lt_zpow_right₀ one_lt_two (by decide)
    exact (hsmall.nearestDouble_le hq).trans_lt (hless.trans_le hp)

/-- **A comparison of rounded quotients is exact** as long as the dividend of the limit has less
than 53 bits when it is brought to the other divisor. -/
theorem nearestDouble_div_le_iff {a b m k : Int} (hb : 0 < b) (hk : 0 < k)
    (hlimit : (2 : ℚ) ^ (-1021 : Int) ≤ a / b) (hsmall : 2 * (a * k) + 1 < 2 ^ 53) :
    nearestDouble (m / k) ≤ nearestDouble (a / b) ↔ m * b ≤ a * k := by
  have hb' : (0 : ℚ) < b := by exact_mod_cast hb
  have hk' : (0 : ℚ) < k := by exact_mod_cast hk
  constructor
  · intro hle
    by_contra hless
    -- the quotients are further apart than rounding moves them
    have hgap : (a * k : ℚ) + 1 ≤ m * b := by exact_mod_cast Int.add_one_le_iff.2 (not_le.1 hless)
    have hsmall' : (2 * (a * k) + 1 : ℚ) < 2 ^ 53 := by exact_mod_cast hsmall
    have hapart : (a / b : ℚ) * (1 + 1 / 2 ^ 53) < m / k * (1 - 1 / 2 ^ 53) := by
      rw [div_mul_eq_mul_div, div_mul_eq_mul_div, div_lt_div_iff₀ hb' hk']
      linarith
    have habove : (a / b : ℚ) ≤ m / k := by
      rw [div_le_div_iff₀ hb' hk']
      linarith
    have hup := nearestDouble_le_mul (.inr hlimit)
    have hdown := mul_le_nearestDouble (.inr (hlimit.trans habove))
    linarith
  · intro hle
    refine nearestDouble_mono ?_
    rw [div_le_div_iff₀ hk' hb']
    exact_mod_cast hle

/-! ### Operations as rounded ones -/

theorem lt_beyond {k : Nat} (hk : k ≤ 1023) (h : q ≤ 2 ^ k) : q < beyond := by
  have hpower : (2 : ℚ) ^ (k : Int) ≤ 2 ^ (1023 : Int) := two_zpow_le (by omega)
  rw [zpow_natCast] at hpower
  exact h.trans_lt (hpower.trans_lt two_zpow_lt_beyond)

/-- A quotient by one at least leaves the doubles no sooner than its dividend. -/
theorem abs_div_lt_beyond (hone : 1 ≤ q) (h : |p| < beyond) : |p / q| < beyond := by
  rw [abs_div, abs_of_pos (one_pos.trans_le hone)]
  exact (div_le_self (abs_nonneg p) hone).trans_lt h

theorem isDouble_of_value (h : x.value = .real q) : IsDouble q := by
  obtain ⟨negative, m, e, hcanonical, rfl, -⟩ := exists_finite h
  obtain rfl := Extended.real.inj ((value_finite negative m e hcanonical).symm.trans h)
  refine ⟨m, e, hcanonical.1, hcanonical.2.1, hcanonical.2.2.1, ?_⟩
  rw [abs_signed, abs_of_nonneg (by positivity)]

theorem value_literal_of_lt (hd : 0 < d) (h : (n / d : ℚ) < beyond) :
    (ofRatio false n d).value = .real (nearestDouble (n / d)) := by
  rw [value_ofRatio_of_lt false hd h, nearestDouble_div hd, if_neg Bool.false_ne_true]

theorem value_ofRat_of_lt (zeroSign : Bool) (h : |q| < beyond) :
    (ofRat zeroSign q).value = .real (nearestDouble q) := by
  rw [ofRat, value_ofRatio_of_lt _ q.den_pos (by rwa [Rounding.natAbs_div_den]), nearestDouble]
  congr 1
  rcases lt_trichotomy q 0 with hneg | rfl | hpos
  · have hnum := Rat.num_neg.2 hneg
    rw [if_neg hnum.ne, decide_eq_true hnum, if_pos rfl, if_pos hneg]
  · simp [rounded_zero]
  · have hnum := Rat.num_pos.2 hpos
    rw [if_neg hnum.ne', decide_eq_false hnum.le.not_gt, if_neg Bool.false_ne_true,
      if_neg hpos.le.not_gt]

theorem isDouble_nearestDouble (h : |q| < beyond) : IsDouble (nearestDouble q) :=
  isDouble_of_value (value_ofRat_of_lt false h)

theorem ofRat_of_le (zeroSign : Bool) (h : (beyond : ℚ) ≤ |q|) :
    ∃ negative, ofRat zeroSign q = infinite negative :=
  ⟨_, ofRatio_of_le _ q.den_pos (by rwa [Rounding.natAbs_div_den])⟩

theorem value_neg (h : x.value = .real q) : x.neg.value = .real (-q) := by
  obtain ⟨negative, m, e, hcanonical, rfl, rfl⟩ := exists_finite h
  cases negative <;> simp [neg, value, scaled_eq]

theorem value_add_of_lt (hx : x.value = .real p) (hy : y.value = .real q) (h : |p + q| < beyond) :
    (x.add y).value = .real (nearestDouble (p + q)) := by
  obtain ⟨s, m, e, hcanonical, rfl, rfl⟩ := exists_finite hx
  obtain ⟨s', m', e', hcanonical', rfl, rfl⟩ := exists_finite hy
  exact value_ofRat_of_lt _ h

theorem value_sub_of_lt (hx : x.value = .real p) (hy : y.value = .real q) (h : |p - q| < beyond) :
    (x.sub y).value = .real (nearestDouble (p - q)) := by
  rw [sub_eq_add_neg] at h ⊢
  exact value_add_of_lt hx (value_neg hy) h

theorem value_mul_of_lt (hx : x.value = .real p) (hy : y.value = .real q) (h : |p * q| < beyond) :
    (x.mul y).value = .real (nearestDouble (p * q)) := by
  obtain ⟨s, m, e, hcanonical, rfl, rfl⟩ := exists_finite hx
  obtain ⟨s', m', e', hcanonical', rfl, rfl⟩ := exists_finite hy
  exact value_ofRat_of_lt _ h

theorem mul_of_le (hx : x.value = .real p) (hy : y.value = .real q) (h : (beyond : ℚ) ≤ |p * q|) :
    ∃ negative, x.mul y = infinite negative := by
  obtain ⟨s, m, e, hcanonical, rfl, rfl⟩ := exists_finite hx
  obtain ⟨s', m', e', hcanonical', rfl, rfl⟩ := exists_finite hy
  exact ofRat_of_le _ h

theorem value_div_of_lt (hx : x.value = .real p) (hy : y.value = .real q) (h : |p / q| < beyond) :
    (x.div y).value = .real (nearestDouble (p / q)) := by
  obtain ⟨s, m, e, hcanonical, rfl, rfl⟩ := exists_finite hx
  obtain ⟨s', m', e', hcanonical', rfl, rfl⟩ := exists_finite hy
  exact value_ofRat_of_lt _ h

end Binary64

namespace Number

open Binary64

variable {n : Number} {q : ℚ}

theorem isDouble_of_small (hn : n.value = .real q) (h : |q| < 2 ^ 53) : IsDouble q := by
  cases n with
  | double x => exact isDouble_of_value hn
  | int m =>
    obtain rfl := Extended.real.inj hn
    refine isDouble_intCast ?_
    zify
    exact_mod_cast h

/-- **The nearest double of a number**, if it does not leave the doubles. -/
theorem toDouble_of_lt (hn : n.value = .real q) (h : |q| < beyond) :
    ∃ x, n.toDouble = .ok x ∧ x.value = .real (nearestDouble q) := by
  cases n with
  | double x =>
    refine ⟨x, rfl, ?_⟩
    rw [nearestDouble_of_isDouble (isDouble_of_value hn)]
    exact hn
  | int m =>
    obtain rfl := Extended.real.inj hn
    have hvalue := value_ofRat_of_lt false h
    rw [← ofInt_eq_ofRat] at hvalue
    exact ⟨ofInt m, toDouble_of_value hvalue, hvalue⟩

theorem toDouble_of_le {m : Int} (h : (beyond : ℚ) ≤ |(m : ℚ)|) :
    (int m).toDouble = .error .tooLarge := by
  obtain ⟨negative, hinfinite⟩ := ofRat_of_le false h
  rw [← ofInt_eq_ofRat] at hinfinite
  simp only [toDouble, hinfinite]

section Mixed

variable {x y : Binary64} {ints : Int → Int → Int} {doubles : Binary64 → Binary64 → Binary64}
  {fault : Fault}

theorem combine_double (hn : n.toDouble = .ok x) :
    combine ints doubles n (.double y) = .ok (.double (doubles x y)) := by
  cases n with
  | int m => exact bind_eq_ok.2 ⟨x, hn, rfl⟩
  | double z =>
    cases hn
    rfl

theorem combine_double_fault (hn : n.toDouble = .error fault) :
    combine ints doubles n (.double y) = .error fault := by
  cases n with
  | int m =>
    change ((int m).toDouble >>= fun x => (.ok (double (doubles x y)) : Except Fault Number)) = _
    rw [hn]
    rfl
  | double z => cases hn

theorem double_div_eq (x : Binary64) (n : Number) : (double x).div n = n.toDouble >>= fun y =>
    if y.value.isZero then .error .divisionByZero else .ok (x.div y) := by
  cases n <;> rfl

theorem double_div (hn : n.toDouble = .ok y) (hy : y.value = .real q) (hq : q ≠ 0) :
    (double x).div n = .ok (x.div y) := by
  have hzero : y.value.isZero = false := by
    rw [hy]
    exact decide_eq_false hq
  rw [double_div_eq, hn]
  exact if_neg (by rw [hzero]; exact Bool.false_ne_true)

theorem double_div_fault (hn : n.toDouble = .error fault) : (double x).div n = .error fault := by
  rw [double_div_eq, hn]
  rfl

end Mixed

theorem int_div {m k : Int} (hk : 0 < k) (h : |(m / k : ℚ)| < beyond) :
    ∃ x, (int m).div (int k) = .ok x ∧ x.value = .real (nearestDouble (m / k)) := by
  have hd : 0 < k.natAbs := Int.natAbs_pos.2 hk.ne'
  have hsize : (m.natAbs / k.natAbs : ℚ) = |(m / k : ℚ)| := by
    rw [abs_div, Nat.cast_natAbs, Nat.cast_natAbs, Int.cast_abs, Int.cast_abs]
  have hk' : (0 : ℚ) < k := by exact_mod_cast hk
  have hlt := hsize.trans_lt h
  refine ⟨_, div_of_lt hk.ne' hlt, ?_⟩
  rw [value_ofRatio_of_lt _ hd hlt, ← nearestDouble_div hd, hsize, signsDiffer,
    decide_eq_false hk.not_gt, Bool.bne_false]
  congr 1
  rcases lt_or_ge m 0 with hneg | hpos
  · have hless : (m / k : ℚ) < 0 := div_neg_of_neg_of_pos (by exact_mod_cast hneg) hk'
    rw [decide_eq_true hneg, if_pos rfl, abs_of_neg hless, nearestDouble_neg, neg_neg]
  · have hnonneg : (0 : ℚ) ≤ m / k := div_nonneg (by exact_mod_cast hpos) hk'.le
    rw [decide_eq_false (not_lt.2 hpos), if_neg Bool.false_ne_true, abs_of_nonneg hnonneg]

end Number

end BatteryMonitor
