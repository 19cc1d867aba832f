import BatteryMonitor.Proofs.Percentage

/-!
# The integer nearest to a rounded quotient

A quotient that is rounded to a double and then to an integer is rounded twice, and the first rounding
may bring a number to the half that lies next to it, or away from one.  Quotients of small integers are
not affected: they are halves themselves, which are doubles, or further away from every half than the
rounding moves them.  So the integer is the one that is nearest to the exact quotient
(`Binary64.toNearest_nearestDouble_div`), where "nearest" says which one is taken of two
(`Rounding.IsNearest`, `Rounding.isNearest_toNearest`), and so leaves no choice
(`Rounding.IsNearest.unique`).
-/

namespace BatteryMonitor

namespace Rounding

variable {q : ℚ} {m m' : Int}

/-- The integer is nearest to the rational, and the even one if two of them are. -/
def IsNearest (q : ℚ) (m : Int) : Prop := |q - m| < 1 / 2 ∨ |q - m| = 1 / 2 ∧ Even m

theorem IsNearest.neg (h : IsNearest q m) : IsNearest (-q) (-m) := by
  have hdist : |-q - (-m : Int)| = |q - m| := by
    rw [Int.cast_neg, neg_sub_neg, abs_sub_comm]
  rw [IsNearest, hdist]
  exact h.imp_right (And.imp_right Even.neg)

theorem IsNearest.abs_sub_le (h : IsNearest q m) : |q - m| ≤ 1 / 2 := by
  rcases h with hlt | ⟨heq, -⟩
  · exact hlt.le
  · exact heq.le

theorem IsNearest.le_of_isNearest (h : IsNearest q m) (h' : IsNearest q m') : m' ≤ m := by
  by_contra hless
  have hnext : (m : ℚ) + 1 ≤ m' := by exact_mod_cast not_le.1 hless
  have hbelow := (abs_le.1 h.abs_sub_le).2
  have habove := (abs_le.1 h'.abs_sub_le).1
  -- both are half a unit away, so that both are even
  obtain rfl : q = m + 1 / 2 := by linarith
  obtain rfl : m' = m + 1 := by
    have hcast : (m' : ℚ) = m + 1 := by linarith
    exact_mod_cast hcast
  have htie : |((m : ℚ) + 1 / 2) - m| = 1 / 2 := by
    rw [add_sub_cancel_left, abs_of_pos one_half_pos]
  have htie' : |((m : ℚ) + 1 / 2) - (m + 1 : Int)| = 1 / 2 := by
    rw [Int.cast_add, Int.cast_one, add_sub_add_left_eq_sub, abs_of_neg] <;> norm_num
  have heven := (h.resolve_left htie.ge.not_gt).2
  have heven' := (h'.resolve_left htie'.ge.not_gt).2
  exact Int.even_add_one.1 heven' heven

theorem IsNearest.unique (h : IsNearest q m) (h' : IsNearest q m') : m = m' :=
  le_antisymm (h'.le_of_isNearest h) (h.le_of_isNearest h')

/-- What is half a unit away from a quotient was chosen for being even. -/
theorem even_nearest {n d : Nat} (hd : 0 < d) (h : |(nearest n d : ℚ) - n / d| = 1 / 2) :
    Even (nearest n d) := by
  have hd' : (0 : ℚ) < d := by exact_mod_cast hd
  have hscaled : (nearest n d * d - n : ℚ) = (nearest n d - n / d) * d := by
    rw [sub_mul, div_mul_cancel₀ _ hd'.ne']
  have habs : 2 * |(nearest n d * d - n : ℚ)| = d := by
    rw [hscaled, abs_mul, h, abs_of_pos hd']
    ring
  have htie : 2 * |((nearest n d * d : Nat) : Int) - n| = d := by exact_mod_cast habs
  have hsplit := Nat.div_add_mod' n d
  have hrest := Nat.mod_lt n hd
  rw [Nat.even_iff]
  unfold nearest at htie ⊢
  dsimp only at htie ⊢
  split
  · rename_i hdown
    rw [if_pos hdown, abs_of_nonpos (by omega)] at htie
    omega
  · rename_i hup
    rw [if_neg hup, Nat.add_mul, Nat.one_mul, abs_of_nonneg (by omega)] at htie
    omega

/-- **An integer is chosen that is nearest.** -/
theorem isNearest_toNearest (q : ℚ) : IsNearest q (toNearest q) := by
  have hnonneg {q : ℚ} (hq : 0 ≤ q) : IsNearest q (toNearest q) := by
    have hquotient := (natAbs_div_den q).trans (abs_of_nonneg hq)
    have hle := abs_nearest_sub_le (n := q.num.natAbs) q.den_pos
    have htie := even_nearest (n := q.num.natAbs) q.den_pos
    rw [hquotient, abs_sub_comm] at hle htie
    rw [toNearest_of_nonneg hq, IsNearest, Int.cast_natCast, Int.even_coe_nat]
    rcases hle.lt_or_eq with hlt | heq
    · exact .inl hlt
    · exact .inr ⟨heq, htie heq⟩
  rcases le_total 0 q with hq | hq
  · exact hnonneg hq
  · have hneg := (hnonneg (neg_nonneg.2 hq)).neg
    rwa [toNearest_neg, neg_neg, neg_neg] at hneg

end Rounding

namespace Binary64

variable {j k m : Int}

/-- A quotient of small integers keeps its side of a half when it is rounded. -/
theorem nearestDouble_lt_half (hk : 0 < k) (hj : 0 < j) (hm : m < 2 ^ 52)
    (h : (m / k : ℚ) < j / 2) : nearestDouble (m / k) < j / 2 := by
  have hk' : (0 : ℚ) < k := by exact_mod_cast hk
  have hsmall : (m : ℚ) < 2 ^ 52 := by exact_mod_cast hm
  have hone : (1 : ℚ) ≤ j := by exact_mod_cast hj
  rw [div_lt_div_iff₀ hk' two_pos] at h
  have hgap : (m * 2 + 1 : ℚ) ≤ j * k := by exact_mod_cast Int.add_one_le_iff.2 (by exact_mod_cast h)
  have hleast : (2 : ℚ) ^ (-1020 : Int) ≤ 2 ^ (-1 : Int) := two_zpow_le (by decide)
  rw [zpow_neg_one] at hleast
  refine nearestDouble_lt (by linarith) ?_
  rw [div_mul_eq_mul_div, div_lt_div_iff₀ hk' two_pos]
  linarith

theorem half_lt_nearestDouble (hk : 0 < k) (hj : 0 < j) (hm : m < 2 ^ 52)
    (h : (j / 2 : ℚ) < m / k) : j / 2 < nearestDouble (m / k) := by
  have hk' : (0 : ℚ) < k := by exact_mod_cast hk
  have hsmall : (m : ℚ) < 2 ^ 52 := by exact_mod_cast hm
  have hone : (1 : ℚ) ≤ j := by exact_mod_cast hj
  have hleast : (2 : ℚ) ^ (-1021 : Int) ≤ 2 ^ (-1 : Int) := two_zpow_le (by decide)
  rw [zpow_neg_one] at hleast
  refine lt_of_lt_of_le ?_ (mul_le_nearestDouble (.inr (by linarith)))
  rw [div_lt_div_iff₀ two_pos hk'] at h
  have hgap : (j * k + 1 : ℚ) ≤ m * 2 := by exact_mod_cast Int.add_one_le_iff.2 (by exact_mod_cast h)
  rw [div_mul_eq_mul_div, div_lt_div_iff₀ two_pos hk']
  linarith

theorem isDouble_of_tie {q : ℚ} {t : Int} (h : |q - t| = 1 / 2) (ht : t.natAbs ≤ 2 ^ 51) :
    IsDouble q := by
  rcases (abs_eq one_half_pos.le).1 h with hhalf | hhalf
  · have hdouble := isDouble_half (n := 2 * t + 1) (by omega)
    push_cast at hdouble
    rwa [show (2 * t + 1 : ℚ) / 2 = q by linarith] at hdouble
  · have hdouble := isDouble_half (n := 2 * t - 1) (by omega)
    push_cast at hdouble
    rwa [show (2 * t - 1 : ℚ) / 2 = q by linarith] at hdouble

theorem isNearest_nearestDouble_div {t : Int} (hk : 0 < k) (hm : 0 ≤ m ∧ m < 2 ^ 51)
    (h : Rounding.IsNearest (m / k) t) : Rounding.IsNearest (nearestDouble (m / k)) t := by
  have hk' : (0 : ℚ) < k := by exact_mod_cast hk
  have hq : (0 : ℚ) ≤ m / k := div_nonneg (by exact_mod_cast hm.1) hk'.le
  have hle : (m / k : ℚ) < 2 ^ 51 :=
    (div_le_self (by exact_mod_cast hm.1) (by exact_mod_cast hk)).trans_lt (by exact_mod_cast hm.2)
  obtain ⟨hbelow, habove⟩ := abs_le.1 h.abs_sub_le
  have ht₀ : 0 ≤ t := by
    have hcast : (-1 : ℚ) < t := by linarith
    exact Int.add_one_le_iff.2 (by exact_mod_cast hcast)
  have ht₁ : t ≤ 2 ^ 51 := by
    have hcast : (t : ℚ) < 2 ^ 51 + 1 := by linarith
    exact Int.lt_add_one_iff.1 (by exact_mod_cast hcast)
  rcases h with hlt | ⟨heq, heven⟩
  · obtain ⟨hlower, hupper⟩ := abs_lt.1 hlt
    have hupper' : nearestDouble (m / k) < (2 * t + 1 : Int) / 2 :=
      nearestDouble_lt_half hk (by omega) (by omega) (by push_cast; linarith)
    have hlower' : ((2 * t - 1 : Int) / 2 : ℚ) < nearestDouble (m / k) := by
      rcases ht₀.eq_or_lt with rfl | hpos
      · exact lt_of_lt_of_le (by norm_num) (nearestDouble_nonneg hq)
      · exact half_lt_nearestDouble hk (by omega) (by omega) (by push_cast; linarith)
    push_cast at hupper' hlower'
    exact .inl (abs_lt.2 ⟨by linarith, by linarith⟩)
  · rw [nearestDouble_of_isDouble (isDouble_of_tie heq (by omega))]
    exact .inr ⟨heq, heven⟩

/-- **The rounded quotient of small integers is rounded to the same integer as the exact one.** -/
theorem toNearest_nearestDouble_div (hk : 0 < k) (hm : m.natAbs < 2 ^ 51) :
    Rounding.toNearest (nearestDouble (m / k)) = Rounding.toNearest (m / k) := by
  have hnonneg {m : Int} (hm : 0 ≤ m ∧ m < 2 ^ 51) :
      Rounding.toNearest (nearestDouble (m / k)) = Rounding.toNearest (m / k) :=
    (Rounding.isNearest_toNearest _).unique
      (isNearest_nearestDouble_div hk hm (Rounding.isNearest_toNearest _))
  rcases le_total 0 m with hpos | hneg
  · exact hnonneg (by omega)
  · have hturned := hnonneg (m := -m) (by omega)
    rw [Int.cast_neg, neg_div, nearestDouble_neg, Rounding.toNearest_neg, Rounding.toNearest_neg]
      at hturned
    exact neg_inj.1 hturned

end Binary64
end BatteryMonitor
