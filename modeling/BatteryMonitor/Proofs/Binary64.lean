import BatteryMonitor.Value.Arithmetic
import Mathlib.Algebra.Order.Field.Power
import Mathlib.Data.Rat.Cast.Order
import Mathlib.Tactic.Linarith
import Mathlib.Tactic.Positivity
import Mathlib.Tactic.Ring

/-!
# Doubles that stay within bounds

A rounded result may be infinite, and one that is cannot become an integer.  Here it is shown when
it is not.  A quotient below the end of the doubles is rounded to a number
(`Binary64.value_ofRatio_of_lt`), and rounding moves none past a power of two
(`Binary64.value_ofRatio`), so that a result is bounded by the power of two that bounds the exact
one: `Binary64.Within k x` says that `x` is a number of at most `2^k` without its sign, and is
handed on by the operations (`Within.add`, `Within.mul`, `Within.div`).  A double that is within
bounds has an integer part (`Within.exists_toInteger`).
-/

namespace BatteryMonitor

namespace Rounding

variable {n d k : Nat}

theorem nearest_le (h : n ≤ k * d) : nearest n d ≤ k := by
  rcases Nat.eq_zero_or_pos d with rfl | hd
  · obtain rfl : n = 0 := by simpa using h
    exact Nat.zero_le k
  · unfold nearest
    dsimp only
    split
    · exact Nat.div_le_of_le_mul (Nat.mul_comm k d ▸ h)
    · rename_i hup
      -- what is rounded up has a rest, so that it is not `k * d` itself
      have hrest : n ≠ k * d := by
        rintro rfl
        rw [Nat.mul_mod_left] at hup
        omega
      exact (Nat.div_lt_iff_lt_mul hd).2 (by omega)

theorem le_nearest (hd : 0 < d) (h : k * d ≤ n) : k ≤ nearest n d := by
  have hle : k ≤ n / d := (Nat.le_div_iff_mul_le hd).2 h
  unfold nearest
  dsimp only
  split <;> omega

theorem le_nearest_iff_of_even {m : Nat} (hd : 0 < d) (hm : m % 2 = 0) :
    m ≤ nearest n d ↔ m * d * 2 ≤ n * 2 + d := by
  have hlt : n % d < d := Nat.mod_lt n hd
  have hsplit : n / d * d + n % d = n := Nat.div_add_mod' n d
  unfold nearest
  dsimp only
  rcases Nat.lt_trichotomy m (n / d + 1) with hbelow | heq | habove
  · have hle : m * d ≤ n / d * d := Nat.mul_le_mul_right d (by omega)
    exact iff_of_true (by split <;> omega) (by omega)
  · -- the number below is odd, so that a tie goes up
    have hodd : n / d % 2 = 1 := by omega
    have hmul : m * d = n / d * d + d := by rw [heq, Nat.succ_mul]
    constructor
    · intro h
      split at h <;> omega
    · intro h
      rw [if_neg (by omega)]
      omega
  · have hle : (n / d + 2) * d ≤ m * d := Nat.mul_le_mul_right d (by omega)
    rw [Nat.add_mul] at hle
    exact iff_of_false (by split <;> omega) (by omega)

/-! ### Counting in powers of a base -/

section Scale

variable {b n d c : Nat} {e : Int}

theorem cast_scale (hb : 0 < b) (n d : Nat) (e : Int) :
    ((n * Nat.pow b (-e).toNat : Nat) : ℚ) / (d * Nat.pow b e.toNat : Nat) =
      n / d / (b : ℚ) ^ e := by
  have hb' : (b : ℚ) ≠ 0 := by exact_mod_cast hb.ne'
  rcases Int.le_total 0 e with he | he
  · obtain ⟨j, rfl⟩ := Int.eq_ofNat_of_zero_le he
    simp [div_div]
  · obtain ⟨j, hj⟩ := Int.eq_ofNat_of_zero_le (a := -e) (by omega)
    obtain rfl : e = -j := by omega
    simp [mul_div_right_comm]

theorem scale_pos (hb : 0 < b) (hd : 0 < d) : 0 < d * Nat.pow b e.toNat :=
  Nat.mul_pos hd (Nat.pow_pos hb)

theorem le_scale_iff (hb : 0 < b) (hd : 0 < d) :
    c * (d * Nat.pow b e.toNat) ≤ n * Nat.pow b (-e).toNat ↔ (c : ℚ) * b ^ e ≤ n / d := by
  have hpow : (0 : ℚ) < (b : ℚ) ^ e := zpow_pos (by exact_mod_cast hb) e
  have hscale : (0 : ℚ) < (d * Nat.pow b e.toNat : Nat) := by exact_mod_cast scale_pos hb hd
  rw [← le_div_iff₀ hpow, ← cast_scale hb, le_div_iff₀ hscale, ← Nat.cast_mul, Nat.cast_le]

theorem reaches_iff (hb : 0 < b) (hd : 0 < d) (k : Int) :
    (if 0 ≤ k then d * Nat.pow b k.toNat ≤ n else d ≤ n * Nat.pow b (-k).toNat) ↔
      (b : ℚ) ^ k ≤ n / d := by
  have hone := le_scale_iff (n := n) (c := 1) (e := k) hb hd
  rw [Nat.cast_one, one_mul, one_mul] at hone
  rw [← hone]
  split
  · rw [Int.toNat_eq_zero.2 (by omega : -k ≤ 0)]
    simp
  · rw [Int.toNat_eq_zero.2 (by omega : k ≤ 0)]
    simp

end Scale

end Rounding

namespace Binary64

/-! ### The value of parts -/

theorem scaled_eq (n e : Int) : scaled n e = n * (2 : ℚ) ^ e := by
  unfold scaled
  split
  · rename_i he
    obtain ⟨j, rfl⟩ := Int.eq_ofNat_of_zero_le he
    simp
  · rename_i he
    obtain ⟨j, hj⟩ := Int.eq_ofNat_of_zero_le (a := -e) (by omega)
    obtain rfl : e = -j := by omega
    rw [Rat.mkRat_eq_div, zpow_neg, ← div_eq_mul_inv]
    simp

theorem value_finite (negative : Bool) (m : Nat) (e : Int) (h : Canonical m e) :
    (finite negative m e h).value = .real (if negative then -(m * (2 : ℚ) ^ e) else m * 2 ^ e) := by
  cases negative <;> simp [value, scaled_eq]

/-! ### Rounding -/

section Places

variable {n d c : Nat} {e : Int}

theorem cast_places (n d : Nat) (e : Int) :
    ((n * Nat.pow 2 (-e).toNat : Nat) : ℚ) / (d * Nat.pow 2 e.toNat : Nat) =
      n / d / (2 : ℚ) ^ e :=
  Rounding.cast_scale two_pos n d e

theorem places_pos (hd : 0 < d) : 0 < d * Nat.pow 2 e.toNat :=
  Rounding.scale_pos two_pos hd

theorem le_places_iff (hd : 0 < d) :
    c * (d * Nat.pow 2 e.toNat) ≤ n * Nat.pow 2 (-e).toNat ↔ (c : ℚ) * 2 ^ e ≤ n / d :=
  Rounding.le_scale_iff two_pos hd

theorem places_le_iff (hd : 0 < d) :
    n * Nat.pow 2 (-e).toNat ≤ c * (d * Nat.pow 2 e.toNat) ↔ (n / d : ℚ) ≤ c * 2 ^ e := by
  have hpow : (0 : ℚ) < 2 ^ e := by positivity
  have hplaces : (0 : ℚ) < (d * Nat.pow 2 e.toNat : Nat) := by exact_mod_cast places_pos hd
  rw [← div_le_iff₀ hpow, ← cast_places, div_le_iff₀ hplaces, ← Nat.cast_mul, Nat.cast_le]

theorem log2_bounds (hn : 0 < n) (hd : 0 < d) :
    (2 : ℚ) ^ ((n.log2 : Int) - d.log2 - 1) ≤ n / d ∧
      (n / d : ℚ) < 2 ^ ((n.log2 : Int) - d.log2 + 1) := by
  have hd' : (0 : ℚ) < d := by exact_mod_cast hd
  have htwo : (2 : ℚ) ≠ 0 := two_ne_zero
  have hn₁ : (2 : ℚ) ^ (n.log2 : Int) ≤ n := by
    exact_mod_cast Nat.log2_self_le (Nat.ne_of_gt hn)
  have hn₂ : (n : ℚ) < 2 ^ ((n.log2 : Int) + 1) := by exact_mod_cast Nat.lt_log2_self
  have hd₁ : (2 : ℚ) ^ (d.log2 : Int) ≤ d := by
    exact_mod_cast Nat.log2_self_le (Nat.ne_of_gt hd)
  have hd₂ : (d : ℚ) ≤ 2 ^ ((d.log2 : Int) + 1) := by
    exact_mod_cast Nat.le_of_lt Nat.lt_log2_self
  rw [le_div_iff₀ hd', div_lt_iff₀ hd']
  constructor
  · calc (2 : ℚ) ^ ((n.log2 : Int) - d.log2 - 1) * d
        ≤ 2 ^ ((n.log2 : Int) - d.log2 - 1) * 2 ^ ((d.log2 : Int) + 1) := by gcongr
      _ = 2 ^ (n.log2 : Int) := by rw [← zpow_add₀ htwo]; congr 1; omega
      _ ≤ n := hn₁
  · calc (n : ℚ) < 2 ^ ((n.log2 : Int) + 1) := hn₂
      _ = 2 ^ ((n.log2 : Int) - d.log2 + 1) * 2 ^ (d.log2 : Int) := by
        rw [← zpow_add₀ htwo]; congr 1; omega
      _ ≤ 2 ^ ((n.log2 : Int) - d.log2 + 1) * d := by gcongr

/-- The exponent of the last place leaves 53 places before it, and not less unless it is the least
one. -/
theorem placeOf_spec (hn : 0 < n) (hd : 0 < d) : -1074 ≤ placeOf n d ∧
    (n / d : ℚ) < 2 ^ (placeOf n d + 53) ∧
      (placeOf n d = -1074 ∨ (2 : ℚ) ^ (placeOf n d + 52) ≤ n / d) := by
  obtain ⟨hlower, hupper⟩ := log2_bounds hn hd
  have hle {j k : Int} (h : j ≤ k) : (2 : ℚ) ^ j ≤ 2 ^ k := zpow_le_zpow_right₀ one_le_two h
  generalize hk : (n.log2 : Int) - d.log2 = k at hlower hupper
  have hplace : placeOf n d = max (if (2 : ℚ) ^ k ≤ n / d then k - 52 else k - 53) (-1074) := by
    rw [← hk]
    exact congrArg (max · _) (if_congr (Rounding.reaches_iff two_pos hd _) rfl rfl)
  rw [hplace]
  split
  · rename_i hreached
    refine ⟨by omega, hupper.trans_le (hle (by omega)), ?_⟩
    rcases Int.le_total (k - 52) (-1074) with hleast | hmost
    · exact .inl (by omega)
    · exact .inr ((hle (by omega)).trans hreached)
  · rename_i hmissed
    refine ⟨by omega, (not_le.1 hmissed).trans_le (hle (by omega)), ?_⟩
    rcases Int.le_total (k - 53) (-1074) with hleast | hmost
    · exact .inl (by omega)
    · exact .inr ((hle (by omega)).trans hlower)

theorem nearest_places_le (hd : 0 < d) {j : Int} (hj : e ≤ j) (h : (n / d : ℚ) ≤ 2 ^ j) :
    (Rounding.nearest (n * Nat.pow 2 (-e).toNat) (d * Nat.pow 2 e.toNat) : ℚ) * 2 ^ e ≤ 2 ^ j := by
  obtain ⟨i, hi⟩ := Int.eq_ofNat_of_zero_le (a := j - e) (by omega)
  have hpow : (2 : ℚ) ^ j = (Nat.pow 2 i : Nat) * 2 ^ e := by
    rw [show j = i + e by omega, zpow_add₀ two_ne_zero]
    simp
  rw [hpow] at h ⊢
  gcongr
  exact Rounding.nearest_le ((places_le_iff hd).2 h)

theorem le_nearest_places (hd : 0 < d) {j : Int} (hj : e ≤ j) (h : (2 : ℚ) ^ j ≤ n / d) :
    (2 : ℚ) ^ j ≤
      (Rounding.nearest (n * Nat.pow 2 (-e).toNat) (d * Nat.pow 2 e.toNat) : ℚ) * 2 ^ e := by
  obtain ⟨i, hi⟩ := Int.eq_ofNat_of_zero_le (a := j - e) (by omega)
  have hpow : (2 : ℚ) ^ j = (Nat.pow 2 i : Nat) * 2 ^ e := by
    rw [show j = i + e by omega, zpow_add₀ two_ne_zero]
    simp
  rw [hpow] at h ⊢
  gcongr
  exact Rounding.le_nearest (places_pos hd) ((le_places_iff hd).2 h)

theorem nearest_placeOf (hn : 0 < n) (hd : 0 < d) (he : placeOf n d = e) :
    Rounding.nearest (n * Nat.pow 2 (-e).toNat) (d * Nat.pow 2 e.toNat) ≤ Nat.pow 2 53 ∧
      (e = -1074 ∨
        Nat.pow 2 52 ≤ Rounding.nearest (n * Nat.pow 2 (-e).toNat) (d * Nat.pow 2 e.toNat)) := by
  obtain ⟨-, hupper, hlower⟩ := placeOf_spec hn hd
  rw [he] at hupper hlower
  have hsplit (j : Nat) : (2 : ℚ) ^ (e + j) = (Nat.pow 2 j : Nat) * 2 ^ e := by
    rw [zpow_add₀ two_ne_zero, mul_comm]
    simp
  constructor
  · exact Rounding.nearest_le ((places_le_iff hd).2 (hsplit 53 ▸ hupper.le))
  · refine hlower.imp_right fun hlower => ?_
    exact Rounding.le_nearest (places_pos hd) ((le_places_iff hd).2 (hsplit 52 ▸ hlower))

theorem placeOf_le (hn : 0 < n) (hd : 0 < d) (he : placeOf n d = e) {j : Int}
    (h : (n / d : ℚ) ≤ 2 ^ j) : e = -1074 ∨ e + 52 ≤ j := by
  obtain ⟨-, -, hlower⟩ := placeOf_spec hn hd
  rw [he] at hlower
  exact hlower.imp_right fun hlower =>
    (zpow_le_zpow_iff_right₀ one_lt_two).1 (hlower.trans h)

theorem one_le_nearest_placeOf (hn : 0 < n) (hd : 0 < d) (he : placeOf n d = e)
    (h : (1 : ℚ) ≤ n / d) : (1 : ℚ) ≤
      Rounding.nearest (n * Nat.pow 2 (-e).toNat) (d * Nat.pow 2 e.toNat) * 2 ^ e := by
  rcases Int.le_total e 0 with hneg | hpos
  · simpa using le_nearest_places (e := e) (j := 0) hd hneg (by simpa using h)
  · have hsignificand := (nearest_placeOf hn hd he).2.resolve_left (by omega)
    refine one_le_mul_of_one_le_of_one_le ?_ (one_le_zpow₀ one_le_two hpos)
    exact_mod_cast (Nat.one_le_two_pow (n := 52)).trans hsignificand

end Places

theorem cast_two_pow (j : Nat) : ((Nat.pow 2 j : Nat) : ℚ) = 2 ^ j := by
  rw [Nat.pow_eq, Nat.cast_pow, Nat.cast_ofNat]

theorem abs_signed (negative : Bool) (q : ℚ) : |if negative then -q else q| = |q| := by
  cases negative <;> simp

theorem value_ofParts (negative : Bool) {m : Nat} {e : Int} (h : Canonical m e) :
    (ofParts negative m e).value =
      .real (if negative then -(m * (2 : ℚ) ^ e) else m * 2 ^ e) := by
  rw [ofParts, dif_pos h, value_finite]

/-! ### The rounded quotient -/

section Rounded

variable {n d : Nat} {e : Int}

theorem two_zpow_le {j k : Int} (h : j ≤ k) : (2 : ℚ) ^ j ≤ 2 ^ k := zpow_le_zpow_right₀ one_le_two h

theorem two_zpow_add (e : Int) (j : Nat) : (2 : ℚ) ^ (e + j) = 2 ^ j * 2 ^ e := by
  rw [zpow_add₀ two_ne_zero, mul_comm, zpow_natCast]

/-- The double nearest to `n / d` as a number, if doubles went on for ever. -/
def rounded (n d : Nat) : ℚ :=
  let e := placeOf n d
  (Rounding.nearest (n * Nat.pow 2 (-e).toNat) (d * Nat.pow 2 e.toNat) : ℚ) * 2 ^ e

theorem rounded_eq (he : placeOf n d = e) : rounded n d =
    (Rounding.nearest (n * Nat.pow 2 (-e).toNat) (d * Nat.pow 2 e.toNat) : ℚ) * 2 ^ e := by
  rw [rounded, he]

theorem rounded_nonneg (n d : Nat) : 0 ≤ rounded n d := by
  unfold rounded
  positivity

theorem rounded_zero (d : Nat) : rounded 0 d = 0 := by
  unfold rounded Rounding.nearest
  simp

theorem rounded_le (hd : 0 < d) {j : Int} (hj : -1074 ≤ j) (h : (n / d : ℚ) ≤ 2 ^ j) :
    rounded n d ≤ 2 ^ j := by
  rcases Nat.eq_zero_or_pos n with rfl | hn
  · rw [rounded_zero]
    positivity
  · have hplace := placeOf_le hn hd rfl h
    exact nearest_places_le hd (by omega) h

theorem one_le_rounded (hd : 0 < d) (h : (1 : ℚ) ≤ n / d) : 1 ≤ rounded n d := by
  rcases Nat.eq_zero_or_pos n with rfl | hn
  · norm_num at h
  · exact one_le_nearest_placeOf hn hd rfl h

/-- Where doubles end: half a place above the largest one. -/
def beyond : Int := 2 ^ 1024 - 2 ^ 970

theorem beyond_eq : (beyond : ℚ) = (2 ^ 53 - 1 / 2) * 2 ^ (971 : Int) := by
  have hlast : (2 : ℚ) ^ 971 = 2 ^ 970 * 2 := pow_succ 2 970
  have hend : (2 : ℚ) ^ 1024 = 2 ^ 53 * 2 ^ 971 := by rw [← pow_add]
  rw [beyond, zpow_ofNat, Int.cast_sub, Int.cast_pow, Int.cast_pow, Int.cast_ofNat, hend, hlast]
  generalize (2 : ℚ) ^ 970 = half
  linarith

theorem two_zpow_lt_beyond : (2 : ℚ) ^ (1023 : Int) < beyond := by
  rw [beyond_eq, show (1023 : Int) = 971 + (52 : Nat) by rfl, two_zpow_add]
  gcongr
  norm_num

/-- **The power of two above its place is reached by a quotient from half a place below it on.** -/
theorem nearest_eq_top_iff (hn : 0 < n) (hd : 0 < d) (he : placeOf n d = e) :
    Rounding.nearest (n * Nat.pow 2 (-e).toNat) (d * Nat.pow 2 e.toNat) = Nat.pow 2 53 ↔
      (2 ^ 53 - 1 / 2) * (2 : ℚ) ^ e ≤ n / d := by
  have hpow : (0 : ℚ) < 2 ^ e := by positivity
  obtain ⟨hfull, -⟩ := nearest_placeOf hn hd he
  have hreach := Rounding.le_nearest_iff_of_even (n := n * Nat.pow 2 (-e).toNat)
    (m := Nat.pow 2 53) (places_pos (e := e) hd) (by decide)
  have hplaces : (0 : ℚ) < (d * Nat.pow 2 e.toNat : Nat) := by exact_mod_cast places_pos hd
  rw [← le_div_iff₀ hpow, ← cast_places, le_div_iff₀ hplaces]
  refine ⟨fun h => ?_, fun h => le_antisymm hfull (hreach.2 ?_)⟩
  · have hcount : ((Nat.pow 2 53 : Nat) * (d * Nat.pow 2 e.toNat : Nat) * 2 : ℚ) ≤
      (n * Nat.pow 2 (-e).toNat : Nat) * 2 + (d * Nat.pow 2 e.toNat : Nat) := by
      exact_mod_cast hreach.1 h.ge
    rw [cast_two_pow] at hcount
    linarith
  · have hcount : ((Nat.pow 2 53 : Nat) * (d * Nat.pow 2 e.toNat : Nat) * 2 : ℚ) ≤
      (n * Nat.pow 2 (-e).toNat : Nat) * 2 + (d * Nat.pow 2 e.toNat : Nat) := by
      rw [cast_two_pow]
      linarith
    exact_mod_cast hcount

/-- **Below the end of the doubles a quotient is rounded to a number.** -/
theorem value_ofRatio_of_lt (negative : Bool) (hd : 0 < d) (h : (n / d : ℚ) < beyond) :
    (ofRatio negative n d).value =
      .real (if negative then -rounded n d else rounded n d) := by
  rcases Nat.eq_zero_or_pos n with rfl | hn
  · rw [ofRatio, if_pos rfl, zero, value_finite, rounded_zero]
    simp
  obtain ⟨hleast, -, hlower⟩ := placeOf_spec hn hd
  generalize he : placeOf n d = e at hleast hlower
  obtain ⟨hfull, hnormal⟩ := nearest_placeOf hn hd he
  have htop := nearest_eq_top_iff hn hd he
  rw [ofRatio, if_neg hn.ne', rounded_eq he, he]
  dsimp only
  have hpow : (0 : ℚ) < 2 ^ e := by positivity
  -- the last place is the one of the largest double
  have hplace : e ≤ 971 := by
    by_contra hlast
    have hlow := hlower.resolve_left (by omega)
    have hpower : (2 : ℚ) ^ (1024 : Int) ≤ 2 ^ (e + 52) := two_zpow_le (by omega)
    have hend : (beyond : ℚ) ≤ 2 ^ (1024 : Int) := by
      rw [beyond_eq, show (1024 : Int) = 971 + (53 : Nat) by rfl, two_zpow_add]
      gcongr
      norm_num
    linarith
  generalize Rounding.nearest (n * Nat.pow 2 (-e).toNat) (d * Nat.pow 2 e.toNat) = m at *
  split
  · rename_i hround
    have hbelow : e ≠ 971 := by
      rintro rfl
      exact absurd (htop.1 hround) (not_le.2 (beyond_eq ▸ h))
    have hhalf : (m : ℚ) * 2 ^ e = (Nat.pow 2 52 : Nat) * 2 ^ (e + 1) := by
      rw [hround, cast_two_pow, cast_two_pow, zpow_add_one₀ two_ne_zero]
      ring
    rw [value_ofParts negative ⟨by decide, by omega, by omega, .inl (Nat.le_refl _)⟩, hhalf]
  · rename_i hround
    exact value_ofParts negative ⟨Nat.lt_of_le_of_ne hfull hround, hleast, hplace, hnormal.symm⟩

/-- **Rounding moves no number past a power of two**, as long as that is a double itself. -/
theorem value_ofRatio (negative : Bool) {n d k : Nat} (hd : 0 < d) (hk : k ≤ 1023)
    (h : (n / d : ℚ) ≤ 2 ^ k) : ∃ q : ℚ, (ofRatio negative n d).value = .real q ∧ |q| ≤ 2 ^ k ∧
      ((1 : ℚ) ≤ n / d → 1 ≤ |q|) := by
  have hlt : (n / d : ℚ) < beyond := by
    have hpower : (2 : ℚ) ^ (k : Int) ≤ 2 ^ (1023 : Int) := two_zpow_le (by omega)
    rw [zpow_natCast] at hpower
    exact h.trans_lt (hpower.trans_lt two_zpow_lt_beyond)
  have habs : |if negative then -rounded n d else rounded n d| = rounded n d := by
    rw [abs_signed, abs_of_nonneg (rounded_nonneg n d)]
  refine ⟨_, value_ofRatio_of_lt negative hd hlt, habs.trans_le ?_,
    fun hone => (one_le_rounded hd hone).trans_eq habs.symm⟩
  exact_mod_cast rounded_le (j := k) hd (by omega) (by exact_mod_cast h)

end Rounded

theorem value_ofRat (zeroSign : Bool) {q : ℚ} {k : Nat} (hk : k ≤ 1023) (h : |q| ≤ 2 ^ k) :
    ∃ p : ℚ, (ofRat zeroSign q).value = .real p ∧ |p| ≤ 2 ^ k ∧ (1 ≤ |q| → 1 ≤ |p|) := by
  have habs : |q| = (q.num.natAbs : ℚ) / q.den := by
    rw [Rat.abs_def, Rat.divInt_eq_div, Int.cast_natCast, Int.cast_natCast]
  rw [habs] at h ⊢
  exact value_ofRatio _ q.den_pos hk h

/-! ### Bounds that are handed on -/

/-- The double is a number of at most `2^k` without its sign. -/
def Within (k : Nat) (x : Binary64) : Prop := ∃ q : ℚ, x.value = .real q ∧ |q| ≤ 2 ^ k

theorem within_ofRat (zeroSign : Bool) {q : ℚ} {k : Nat} (hk : k ≤ 1023) (h : |q| ≤ 2 ^ k) :
    (ofRat zeroSign q).Within k := by
  obtain ⟨p, hp, hle, -⟩ := value_ofRat zeroSign hk h
  exact ⟨p, hp, hle⟩

theorem within_ofRatio (negative : Bool) {n d k : Nat} (hd : 0 < d) (hk : k ≤ 1023)
    (h : n ≤ 2 ^ k) : (ofRatio negative n d).Within k := by
  have hd' : (1 : ℚ) ≤ d := by exact_mod_cast hd
  have hn : (n : ℚ) ≤ 2 ^ k := by exact_mod_cast h
  obtain ⟨p, hp, hle, -⟩ := value_ofRatio negative hd hk
    ((div_le_self n.cast_nonneg hd').trans hn)
  exact ⟨p, hp, hle⟩

theorem exists_finite {x : Binary64} {q : ℚ} (h : x.value = .real q) : ∃ negative m e hcanonical,
    x = finite negative m e hcanonical ∧ scaled (if negative then -m else m) e = q := by
  cases x with
  | finite negative m e hcanonical => exact ⟨negative, m, e, hcanonical, rfl, Extended.real.inj h⟩
  | infinite negative => cases negative <;> cases h
  | nan tag => cases h

namespace Within

variable {x y : Binary64} {j k : Nat}

theorem abs (h : x.Within k) : x.abs.Within k := by
  obtain ⟨q, hq, hle⟩ := h
  obtain ⟨negative, m, e, hcanonical, rfl, -⟩ := exists_finite hq
  obtain rfl := Extended.real.inj ((value_finite negative m e hcanonical).symm.trans hq)
  refine ⟨_, value_finite false m e hcanonical, ?_⟩
  rw [abs_signed] at hle ⊢
  exact hle

theorem add (hx : x.Within k) (hy : y.Within k) (hk : k + 1 ≤ 1023) : (x.add y).Within (k + 1) := by
  obtain ⟨p, hp, hp'⟩ := hx
  obtain ⟨q, hq, hq'⟩ := hy
  obtain ⟨s, m, e, hcanonical, rfl, rfl⟩ := exists_finite hp
  obtain ⟨s', m', e', hcanonical', rfl, rfl⟩ := exists_finite hq
  refine within_ofRat _ hk ((abs_add_le _ _).trans ?_)
  calc _ ≤ (2 : ℚ) ^ k + 2 ^ k := add_le_add hp' hq'
    _ = 2 ^ (k + 1) := by rw [pow_succ, mul_two]

theorem mul (hx : x.Within j) (hy : y.Within k) (hjk : j + k ≤ 1023) :
    (x.mul y).Within (j + k) := by
  obtain ⟨p, hp, hp'⟩ := hx
  obtain ⟨q, hq, hq'⟩ := hy
  obtain ⟨s, m, e, hcanonical, rfl, rfl⟩ := exists_finite hp
  obtain ⟨s', m', e', hcanonical', rfl, rfl⟩ := exists_finite hq
  refine within_ofRat _ hjk ?_
  rw [abs_mul, pow_add]
  exact mul_le_mul hp' hq' (abs_nonneg _) (by positivity)

/-- A quotient by a number that is at least one is no greater. -/
theorem div (hx : x.Within k) {q : ℚ} (hy : y.value = .real q) (hone : 1 ≤ |q|) (hk : k ≤ 1023) :
    (x.div y).Within k := by
  obtain ⟨p, hp, hp'⟩ := hx
  obtain ⟨s, m, e, hcanonical, rfl, rfl⟩ := exists_finite hp
  obtain ⟨s', m', e', hcanonical', rfl, rfl⟩ := exists_finite hy
  refine within_ofRat _ hk ?_
  rw [abs_div]
  exact (div_le_self (abs_nonneg _) hone).trans hp'

theorem exists_toInteger (h : x.Within k) (f : Rat → Int) : ∃ n, x.toInteger f = .ok n := by
  obtain ⟨q, hq, -⟩ := h
  exact ⟨f q, by rw [toInteger, hq]⟩

end Within

end Binary64

/-! ### Arithmetic that does not fail -/

namespace Number

variable {k : Nat}

theorem toDouble_int {n : Int} (hk : k ≤ 1023) (h : n.natAbs ≤ Nat.pow 2 k) : ∃ x q,
    (int n).toDouble = .ok x ∧ x.value = .real q ∧ |q| ≤ 2 ^ k ∧ (n ≠ 0 → 1 ≤ |q|) := by
  have hn : ((n.natAbs : ℚ) / (1 : Nat)) ≤ 2 ^ k := by
    rw [Nat.cast_one, div_one]
    exact_mod_cast h
  obtain ⟨q, hq, hle, hone⟩ := Binary64.value_ofRatio (decide (n < 0)) Nat.one_pos hk hn
  refine ⟨Binary64.ofInt n, q, ?_, hq, hle, fun hne => hone ?_⟩
  · simp only [toDouble, Binary64.ofInt]
    split
    · rename_i negative hinfinite
      rw [hinfinite] at hq
      cases negative <;> cases hq
    · rfl
  · rw [Nat.cast_one, div_one]
    exact_mod_cast Int.natAbs_pos.2 hne

theorem div_int_int {m n : Int} (hk : k ≤ 1023) (hm : m.natAbs ≤ Nat.pow 2 k) (hn : n ≠ 0) :
    ∃ x, (int m).div (int n) = .ok x ∧ x.Within k := by
  have hwithin := Binary64.within_ofRatio (decide (m < 0) != decide (n < 0))
    (Int.natAbs_pos.2 hn) hk hm
  refine ⟨_, ?_, hwithin⟩
  obtain ⟨q, hq, -⟩ := hwithin
  simp only [div, if_neg hn]
  split
  · rename_i negative hinfinite
    rw [hinfinite] at hq
    cases negative <;> cases hq
  · rfl

theorem div_double_int {x : Binary64} {n : Int} (hk : k ≤ 1023) (hx : x.Within k)
    (hrange : n.natAbs ≤ Nat.pow 2 k) (hn : n ≠ 0) :
    ∃ y, (double x).div (int n) = .ok y ∧ y.Within k := by
  obtain ⟨y, q, hy, hq, -, hone⟩ := toDouble_int hk hrange
  have hzero : y.value.isZero = false := by
    rw [hq]
    refine decide_eq_false fun hzero => absurd (hone hn) ?_
    rw [hzero, abs_zero]
    norm_num
  refine ⟨x.div y, ?_, hx.div hq (hone hn) hk⟩
  simp only [div, show (double x).toDouble = .ok x from rfl, hy, bind, Except.bind, pure,
    Except.pure, hzero, Bool.false_eq_true, if_false]

end Number

end BatteryMonitor
