import BatteryMonitor.Proofs.Hysteresis
import BatteryMonitor.Proofs.Monotone
import BatteryMonitor.Proofs.Reading

/-!
# The limits of wear are exact

The ratio of the full capacity to the designed one is rounded before it is compared, and the limits
are no doubles themselves: the one of 80% is rounded up and the one of 83% down.  As long as the
capacities have 40 bits none of this matters (`Reading.classify_of_small`).  A ratio that is just a
limit is rounded to the same double as the limit, and any other one is further away from it than
rounding moves them (`Binary64.nearestDouble_div_le_iff`).
-/

namespace BatteryMonitor

open Binary64 Number

theorem tripRatio_value : tripRatio.value = .real (nearestDouble ((4 : Int) / (5 : Int))) := by
  have hvalue := value_literal_of_lt (n := 80) (d := 100) (by decide)
    (lt_beyond (k := 0) (by decide) (by norm_num))
  have hratio : ((80 : Nat) / (100 : Nat) : ℚ) = (4 : Int) / (5 : Int) := by norm_num
  rwa [hratio] at hvalue

theorem releaseRatio_value :
    releaseRatio.value = .real (nearestDouble ((83 : Int) / (100 : Int))) :=
  value_literal_of_lt (n := 83) (d := 100) (by decide) (lt_beyond (k := 0) (by decide) (by norm_num))

namespace Reading

variable {r : Reading} {full design : Int}

theorem capacityRatio_of_small (hfull : r.maxCapacity.Alike (.int full))
    (hdesign : r.designCapacity.Alike (.int design)) (hfull' : 0 ≤ full ∧ full < 2 ^ 40)
    (hdesign' : 1 ≤ design ∧ design < 2 ^ 40) : ∃ ratio, r.capacityRatio = .ok ratio ∧
      ratio.value = .real (nearestDouble ((full + 200 : Int) / design)) := by
  have hx : (ofInt full).value = .real full := value_ofInt (by omega)
  have hy : (ofInt design).value = .real design := value_ofInt (by omega)
  have hreserve : reserve.value = .real (200 : Int) := value_ofInt (m := 200) (by decide)
  have hsum : IsDouble ((full + 200 : Int) : ℚ) := isDouble_intCast (by omega)
  have hone : (1 : ℚ) ≤ design := by exact_mod_cast hdesign'.1
  have hquotient := abs_div_lt_beyond hone hsum.lt_beyond
  have hadd : ((ofInt full).add reserve).value = .real (full + 200 : Int) := by
    have hvalue := value_add_of_lt hx hreserve (by exact_mod_cast hsum.lt_beyond)
    rwa [← Int.cast_add, nearestDouble_of_isDouble hsum] at hvalue
  refine ⟨((ofInt full).add reserve).div (ofInt design), ?_, value_div_of_lt hadd hy hquotient⟩
  have hreserved : (int full).add (.double reserve) = .ok (.double ((ofInt full).add reserve)) :=
    combine_double (toDouble_of_value hx)
  rw [capacityRatio, hfull.number, hdesign.number]
  change ((int full).add (.double reserve) >>= fun capacity => capacity.div (.int design)) = _
  rw [hreserved]
  exact double_div (toDouble_of_value hy) hy (by linarith)

/-- The limit that the latch chooses is the exact one, as a comparison of integers. -/
theorem le_limit_of_small {ratio : Binary64} (latched : Bool)
    (hdesign : 1 ≤ design ∧ design < 2 ^ 40)
    (hvalue : ratio.value = .real (nearestDouble ((full + 200 : Int) / design))) :
    ratio.value.le (if latched then releaseRatio else tripRatio).value =
      decide (if latched then 100 * (full + 200) ≤ 83 * design
        else 5 * (full + 200) ≤ 4 * design) := by
  cases latched with
  | false =>
    have hcompare := nearestDouble_div_le_iff (a := 4) (b := 5) (m := full + 200) (k := design)
      (by decide) (by omega) ((two_zpow_le (k := -1) (by decide)).trans (by norm_num)) (by omega)
    simp only [Bool.false_eq_true, if_false]
    rw [hvalue, tripRatio_value, Extended.real_le, decide_eq_decide, hcompare]
    omega
  | true =>
    have hcompare := nearestDouble_div_le_iff (a := 83) (b := 100) (m := full + 200) (k := design)
      (by decide) (by omega) ((two_zpow_le (k := -1) (by decide)).trans (by norm_num)) (by omega)
    simp only [if_true]
    rw [hvalue, releaseRatio_value, Extended.real_le, decide_eq_decide, hcompare]
    omega

/-- **The limits of wear are the exact ratios**, as a comparison of integers would find it: 80% with
the latch not set, 83% with the latch set.  A battery that is not too old is fair just at 80%, with
any latch, and just at 83% if the latch is set. -/
theorem classify_of_small {latched : Bool} (hpresent : r.isPresent.truth = true)
    (hfailed : r.hasPermanentFailure = false) (hfull : r.maxCapacity.Alike (.int full))
    (hdesign : r.designCapacity.Alike (.int design)) (hfull' : 0 ≤ full ∧ full < 2 ^ 40)
    (hdesign' : 1 ≤ design ∧ design < 2 ^ 40) :
    r.classify latched = (do
      let young ← r.cycleCount.less (.int youngCycles)
      if decide (if latched then 100 * (full + 200) ≤ 83 * design
          else 5 * (full + 200) ≤ 4 * design) && young then return (.certain .fair, true)
      else return (.certain .good, false)) ∧
    (r.cycleCount.less (.int youngCycles) = .ok true →
      5 * (full + 200) = 4 * design ∨ latched = true ∧ 100 * (full + 200) = 83 * design →
      r.classify latched = .ok (.certain .fair, true)) := by
  obtain ⟨ratio, hratio, hvalue⟩ := capacityRatio_of_small hfull hdesign hfull' hdesign'
  have hnonzero : r.designCapacity.truth = true := by
    rw [hdesign.truth]
    exact bne_iff_ne.2 (by omega)
  have hlimit := le_limit_of_small latched hdesign' hvalue
  unfold classify
  simp only [hpresent, hfailed, hnonzero, hratio, Bool.not_true, Bool.false_eq_true, if_false]
  change ((r.cycleCount.less (.int youngCycles) >>= fun young => _) = _ ∧
    (_ → _ → (r.cycleCount.less (.int youngCycles) >>= fun young => _) = _))
  simp only [hlimit]
  refine ⟨trivial, fun hyoung hjust => ?_⟩
  have hworn : if latched then 100 * (full + 200) ≤ 83 * design
      else 5 * (full + 200) ≤ 4 * design := by
    rcases hjust with hjust | ⟨hlatched, hjust⟩
    · split <;> omega
    · rw [if_pos hlatched]
      exact hjust.le
  rw [hyoung, decide_eq_true hworn]
  rfl

/-- A battery just at 83%, with the reserve, that needed replacement before. -/
theorem classify_of_small_justHeld :
    let r : Reading := { maxCapacity := .int 8100, designCapacity := .int 10000 }
    r.classify true = .ok (.certain .fair, true) := by
  intro r
  have hfull : r.maxCapacity.Alike (.int 8100) := .refl _
  have hdesign : r.designCapacity.Alike (.int 10000) := .refl _
  obtain ⟨-, hjust⟩ :=
    classify_of_small rfl rfl hfull hdesign (by decide) (by decide)
  exact hjust rfl (.inr ⟨rfl, by decide⟩)

end Reading

end BatteryMonitor
