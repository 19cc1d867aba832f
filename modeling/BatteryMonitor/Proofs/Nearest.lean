import BatteryMonitor.Proofs.Binary64
import Mathlib.Tactic.Ring

/-!
# The double nearest to a quotient

A quotient is rounded at the place of its last digit, and only its value counts for that
(`Binary64.ofRatio_congr`).  Next to a double the doubles are a gap apart, which is half as wide below a
power of two as above it (`Binary64.gap`).  What is nearer to a double than half of that gap is rounded
to it (`Binary64.ofRatio_of_near`), and so the double itself is (`Binary64.ofRatio_parts`).
-/

namespace BatteryMonitor

namespace Rounding

variable {n d n' d' m : Nat}

theorem abs_nearest_sub_le (hd : 0 < d) : |(nearest n d : ℚ) - n / d| ≤ 1 / 2 := by
  have hd' : (0 : ℚ) < d := by exact_mod_cast hd
  have hlt : n % d < d := Nat.mod_lt n hd
  have hsplit : (n : ℚ) / d = (n / d : Nat) + (n % d : Nat) / d := by
    rw [eq_comm, ← mul_left_inj' hd'.ne', add_mul, div_mul_cancel₀ _ hd'.ne',
      div_mul_cancel₀ _ hd'.ne']
    exact_mod_cast Nat.div_add_mod' n d
  unfold nearest
  dsimp only
  rw [hsplit, abs_le]
  split
  · rename_i hdown
    have hrest : ((n % d : Nat) : ℚ) / d ≤ 1 / 2 := by
      rw [div_le_div_iff₀ hd' two_pos]
      exact_mod_cast (by omega : n % d * 2 ≤ 1 * d)
    have hpos : (0 : ℚ) ≤ ((n % d : Nat) : ℚ) / d := by positivity
    constructor <;> linarith
  · rename_i hup
    have hrest : (1 / 2 : ℚ) ≤ ((n % d : Nat) : ℚ) / d := by
      rw [div_le_div_iff₀ two_pos hd']
      exact_mod_cast (by omega : 1 * d ≤ n % d * 2)
    have hone : ((n % d : Nat) : ℚ) / d ≤ 1 := by
      rw [div_le_one hd']
      exact_mod_cast hlt.le
    push_cast
    constructor <;> linarith

theorem nearest_eq_of_near (hd : 0 < d) (h : |(n / d : ℚ) - m| < 1 / 2) : nearest n d = m := by
  have hnear := abs_nearest_sub_le (n := n) hd
  have hdist : |((nearest n d : Int) - (m : Int) : ℚ)| < 1 := by
    calc |((nearest n d : Int) - (m : Int) : ℚ)|
        = |((nearest n d : ℚ) - n / d) + (n / d - m)| := by push_cast; ring_nf
      _ ≤ |(nearest n d : ℚ) - n / d| + |(n / d : ℚ) - m| := abs_add_le _ _
      _ < 1 := by linarith
  have hint : |(nearest n d : Int) - m| < 1 := by exact_mod_cast hdist
  have := Int.abs_lt_one_iff.1 hint
  omega

theorem nearest_mul {c : Nat} (hc : 0 < c) : nearest (n * c) (d * c) = nearest n d := by
  unfold nearest
  dsimp only
  rw [Nat.mul_div_mul_right _ _ hc, Nat.mul_mod_mul_right, ← Nat.mul_assoc]
  simp only [Nat.mul_lt_mul_right hc, Nat.mul_left_inj hc.ne']

/-- **Rounding looks at the value of a quotient only.** -/
theorem nearest_congr (hd : 0 < d) (hd' : 0 < d') (h : (n / d : ℚ) = n' / d') :
    nearest n d = nearest n' d' := by
  have hcross : n * d' = n' * d := by
    have h₁ : (d : ℚ) ≠ 0 := by exact_mod_cast hd.ne'
    have h₂ : (d' : ℚ) ≠ 0 := by exact_mod_cast hd'.ne'
    rw [div_eq_div_iff h₁ h₂] at h
    exact_mod_cast h
  rw [← nearest_mul hd', hcross, Nat.mul_comm d d', nearest_mul hd]

end Rounding

namespace Binary64

variable {n d n' d' m : Nat} {e : Int}

/-! ### The place of the last digit -/

theorem two_zpow_sub_one (e : Int) : (2 : ℚ) ^ (e - 1) = 2 ^ e / 2 := by
  rw [zpow_sub_one₀ two_ne_zero, div_eq_mul_inv]

/-- **The place is the one that leaves 53 digits before it**, or the least one. -/
theorem placeOf_eq (hn : 0 < n) (hd : 0 < d) (hleast : -1074 ≤ e)
    (hupper : (n / d : ℚ) < 2 ^ (e + 53)) (hlower : e = -1074 ∨ (2 : ℚ) ^ (e + 52) ≤ n / d) :
    placeOf n d = e := by
  obtain ⟨hleast', hupper', hlower'⟩ := placeOf_spec hn hd
  -- each of the two places is at most the other one
  have hle {i j : Int} (hi : -1074 ≤ i) (hj : j = -1074 ∨ (2 : ℚ) ^ (j + 52) ≤ n / d)
      (hi' : (n / d : ℚ) < 2 ^ (i + 53)) : j ≤ i := by
    rcases hj with rfl | hj
    · exact hi
    · have := (zpow_lt_zpow_iff_right₀ one_lt_two).1 (hj.trans_lt hi')
      omega
  exact le_antisymm (hle hleast hlower' hupper) (hle hleast' hlower hupper')

theorem placeOf_congr (hn : 0 < n) (hd : 0 < d) (hn' : 0 < n') (hd' : 0 < d')
    (h : (n / d : ℚ) = n' / d') : placeOf n d = placeOf n' d' := by
  obtain ⟨hleast, hupper, hlower⟩ := placeOf_spec hn' hd'
  rw [← h] at hupper hlower
  exact placeOf_eq hn hd hleast hupper hlower

/-- **Rounding to a double looks at the value of a quotient only.** -/
theorem ofRatio_congr (negative : Bool) (hd : 0 < d) (hd' : 0 < d') (h : (n / d : ℚ) = n' / d') :
    ofRatio negative n d = ofRatio negative n' d' := by
  have hzero : n = 0 ↔ n' = 0 := by
    have h₁ : (d : ℚ) ≠ 0 := by exact_mod_cast hd.ne'
    have h₂ : (d' : ℚ) ≠ 0 := by exact_mod_cast hd'.ne'
    rw [div_eq_div_iff h₁ h₂] at h
    have hcross : n * d' = n' * d := by exact_mod_cast h
    constructor
    · rintro rfl
      simpa [hd.ne'] using hcross.symm
    · rintro rfl
      simpa [hd'.ne'] using hcross
  unfold ofRatio
  by_cases hn : n = 0
  · rw [if_pos hn, if_pos (hzero.1 hn)]
  · have hn' : n' ≠ 0 := mt hzero.2 hn
    rw [if_neg hn, if_neg hn', placeOf_congr (Nat.pos_of_ne_zero hn) hd (Nat.pos_of_ne_zero hn') hd' h]
    generalize placeOf n' d' = e
    have hnearest : Rounding.nearest (n * Nat.pow 2 (-e).toNat) (d * Nat.pow 2 e.toNat) =
        Rounding.nearest (n' * Nat.pow 2 (-e).toNat) (d' * Nat.pow 2 e.toNat) :=
      Rounding.nearest_congr (places_pos hd) (places_pos hd') (by rw [cast_places, cast_places, h])
    dsimp only
    rw [hnearest]

theorem ofRatio_of_place (negative : Bool) (hn : 0 < n) (hd : 0 < d) (he : placeOf n d = e)
    (h : |(n / d : ℚ) - m * 2 ^ e| < 2 ^ e / 2) : ofRatio negative n d =
      if m = Nat.pow 2 53 then ofParts negative (Nat.pow 2 52) (e + 1) else ofParts negative m e := by
  have hpow : (0 : ℚ) < 2 ^ e := by positivity
  have hscaled : |(n / d : ℚ) / 2 ^ e - m| < 1 / 2 := by
    have hsub : (n / d : ℚ) / 2 ^ e - m = (n / d - m * 2 ^ e) / 2 ^ e := by
      rw [sub_div, mul_div_cancel_right₀ _ hpow.ne']
    rw [hsub, abs_div, abs_of_pos hpow, div_lt_iff₀ hpow]
    linarith
  have hnearest : Rounding.nearest (n * Nat.pow 2 (-e).toNat) (d * Nat.pow 2 e.toNat) = m :=
    Rounding.nearest_eq_of_near (places_pos hd) (by rwa [cast_places])
  rw [ofRatio, if_neg hn.ne', he]
  dsimp only
  rw [hnearest]

/-! ### Next to a double -/

/-- How far the next double is, below or above, whichever is nearer. -/
def gap (m : Nat) (e : Int) : ℚ :=
  if m = Nat.pow 2 52 ∧ e ≠ -1074 then 2 ^ (e - 1) else 2 ^ e

theorem gap_pos (m : Nat) (e : Int) : 0 < gap m e := by
  unfold gap
  split <;> positivity

theorem gap_le (m : Nat) (e : Int) : gap m e ≤ 2 ^ e := by
  unfold gap
  split
  · exact two_zpow_le (by omega)
  · exact le_rfl

theorem ofParts_of_canonical (negative : Bool) (h : Canonical m e) :
    ofParts negative m e = finite negative m e h :=
  dif_pos h

section Near

variable {q : ℚ}

theorem lt_of_near (hcanonical : Canonical m e) (h : |q - m * 2 ^ e| < gap m e / 2) :
    q < 2 ^ (e + 53) := by
  have hpow : (0 : ℚ) < 2 ^ e := by positivity
  have hfull : (m : ℚ) + 1 ≤ 2 ^ 53 := by exact_mod_cast hcanonical.1
  have hgap := gap_le m e
  have habove := (abs_lt.1 h).2
  rw [show e + 53 = e + (53 : Nat) from rfl, two_zpow_add]
  nlinarith

theorem lt_of_near_of_ne_zero (hm : m ≠ 0) (h : |q - m * 2 ^ e| < gap m e / 2) :
    2 ^ (e - 1) < q := by
  have hpow : (0 : ℚ) < 2 ^ e := by positivity
  have hone : (1 : ℚ) ≤ m := by exact_mod_cast Nat.one_le_iff_ne_zero.2 hm
  have hgap := gap_le m e
  have hbelow := (abs_lt.1 h).1
  rw [two_zpow_sub_one]
  nlinarith

/-- What is near to a double and has one digit less is next to a power of two. -/
theorem eq_of_near_of_lt (hcanonical : Canonical m e) (hne : e ≠ -1074) (hlow : q < 2 ^ (e + 52))
    (h : |q - m * 2 ^ e| < gap m e / 2) : m = Nat.pow 2 52 := by
  have hpow : (0 : ℚ) < 2 ^ e := by positivity
  have hmin : Nat.pow 2 52 ≤ m := hcanonical.2.2.2.resolve_right hne
  have hgap := gap_le m e
  have hbelow := (abs_lt.1 h).1
  rw [show e + 52 = e + (52 : Nat) from rfl, two_zpow_add] at hlow
  have hlt : (m : ℚ) < 2 ^ 52 + 1 := by nlinarith
  exact le_antisymm (Nat.le_of_lt_succ (by exact_mod_cast hlt)) hmin

end Near

/-- Just below a power of two a quotient has its last digit one place lower, and is rounded up to the
power. -/
theorem ofRatio_of_near_below (negative : Bool) (hcanonical : Canonical (Nat.pow 2 52) e)
    (hne : e ≠ -1074) (hn : 0 < n) (hd : 0 < d) (hlow : (n / d : ℚ) < 2 ^ (e + 52))
    (h : |(n / d : ℚ) - (Nat.pow 2 52 : Nat) * 2 ^ e| < gap (Nat.pow 2 52) e / 2) :
    ofRatio negative n d = finite negative (Nat.pow 2 52) e hcanonical := by
  have hleast := hcanonical.2.1
  have hpow : (0 : ℚ) < 2 ^ e := by positivity
  rw [gap, if_pos ⟨rfl, hne⟩] at h
  -- the power with its digits counted from the lower place
  have hpower : ((Nat.pow 2 52 : Nat) : ℚ) * 2 ^ e = (Nat.pow 2 53 : Nat) * 2 ^ (e - 1) := by
    rw [two_zpow_sub_one, cast_two_pow, cast_two_pow]
    ring
  have hplace : placeOf n d = e - 1 := by
    refine placeOf_eq hn hd (by omega) (by rwa [show e - 1 + 53 = e + 52 by omega]) (.inr ?_)
    have hbelow := (abs_lt.1 h).1
    rw [two_zpow_sub_one, cast_two_pow] at hbelow
    rw [show e - 1 + 52 = e + (51 : Nat) by omega, two_zpow_add]
    nlinarith
  rw [hpower] at h
  rw [ofRatio_of_place negative hn hd hplace h, if_pos rfl, sub_add_cancel]
  exact ofParts_of_canonical negative hcanonical

/-- **What is nearer to a double than half the gap is rounded to it.** -/
theorem ofRatio_of_near (negative : Bool) (hcanonical : Canonical m e) (hm : m ≠ 0) (hd : 0 < d)
    (h : |(n / d : ℚ) - m * 2 ^ e| < gap m e / 2) :
    ofRatio negative n d = finite negative m e hcanonical := by
  have hn : 0 < n := by
    have hpositive : (0 : ℚ) < n / d := lt_trans (by positivity) (lt_of_near_of_ne_zero hm h)
    rcases Nat.eq_zero_or_pos n with rfl | hn
    · simp at hpositive
    · exact hn
  by_cases hlow : e ≠ -1074 ∧ (n / d : ℚ) < 2 ^ (e + 52)
  · obtain ⟨hne, hlow⟩ := hlow
    obtain rfl := eq_of_near_of_lt hcanonical hne hlow h
    exact ofRatio_of_near_below negative hcanonical hne hn hd hlow h
  · have hlower : e = -1074 ∨ (2 : ℚ) ^ (e + 52) ≤ n / d := by
      by_cases hne : e = -1074
      · exact .inl hne
      · exact .inr (not_lt.1 fun hlt => hlow ⟨hne, hlt⟩)
    have hplace := placeOf_eq hn hd hcanonical.2.1 (lt_of_near hcanonical h) hlower
    have hhalf : gap m e / 2 ≤ 2 ^ e / 2 := by
      have := gap_le m e
      linarith
    rw [ofRatio_of_place negative hn hd hplace (h.trans_le hhalf), if_neg (Nat.ne_of_lt hcanonical.1)]
    exact ofParts_of_canonical negative hcanonical

theorem ratio_parts (m : Nat) (e : Int) :
    ((m * Nat.pow 2 e.toNat : Nat) : ℚ) / (Nat.pow 2 (-e).toNat : Nat) = m * 2 ^ e := by
  have hplaces := cast_places m 1 (-e)
  rw [neg_neg, one_mul, Nat.cast_one, div_one, zpow_neg, div_inv_eq_mul] at hplaces
  exact hplaces

/-- **A double is nearest to itself.** -/
theorem ofRatio_parts (negative : Bool) (hcanonical : Canonical m e) (hm : m ≠ 0) :
    ofRatio negative (m * Nat.pow 2 e.toNat) (Nat.pow 2 (-e).toNat) =
      finite negative m e hcanonical := by
  refine ofRatio_of_near negative hcanonical hm (Nat.pow_pos (by decide)) ?_
  rw [ratio_parts, sub_self, abs_zero]
  exact half_pos (gap_pos m e)

end Binary64

end BatteryMonitor
