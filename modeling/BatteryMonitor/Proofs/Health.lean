import BatteryMonitor.Health

/-!
# A verdict that is given twice

The latch makes the verdict on a battery depend on the verdicts before.  Given a second time for
the same reading, though, a verdict is the same and leaves the latch as the first one left it
(`Reading.classify_latched`): a battery that was just found to need replacement is below the
trip ratio, and that is below the release ratio; one that was just found good with its latch set
is above the release ratio, and so it does not trip.
-/

namespace BatteryMonitor

theorem Extended.le_trans {a b c : Extended} (hab : a.le b = true) (hbc : b.le c = true) :
    a.le c = true := by
  cases a <;> cases b <;> cases c <;> simp_all [Extended.le, Extended.lt, Extended.eq]
  rename_i p q r
  rcases hab with hab | rfl
  · rcases hbc with hbc | rfl
    · exact .inl (Std.lt_trans hab hbc)
    · exact .inl hab
  · exact hbc

theorem tripRatio_le_releaseRatio : tripRatio.value.le releaseRatio.value = true := by
  decide +kernel

namespace Reading

variable {r : Reading} {latched latched' : Bool} {health : Health}

/-- The verdict on a battery that is neither absent nor failed and has a designed capacity. -/
def rate (ratio : Binary64) (young latched : Bool) : Health × Bool :=
  let limit := if latched then releaseRatio else tripRatio
  if ratio.value.le limit.value && young then (.certain .fair, true) else (.certain .good, false)

theorem rate_cases (ratio : Binary64) (young latched : Bool) :
    rate ratio young latched = (.certain .fair, true) ∨
      rate ratio young latched = (.certain .good, false) := by
  unfold rate
  extract_lets limit
  split
  · exact .inl rfl
  · exact .inr rfl

theorem rate_rate (ratio : Binary64) (young latched : Bool) :
    rate ratio young (rate ratio young latched).2 = rate ratio young latched := by
  have hrelease (h : ratio.value.le tripRatio.value = true) :
      ratio.value.le releaseRatio.value = true :=
    Extended.le_trans h tripRatio_le_releaseRatio
  cases hyoung : young with
  | false => simp [rate]
  | true =>
    cases htrip : ratio.value.le tripRatio.value with
    | true => cases latched <;> simp [rate, htrip, hrelease htrip]
    | false =>
      cases hhold : ratio.value.le releaseRatio.value <;> cases latched <;>
        simp [rate, htrip, hhold]

theorem classify_eq (r : Reading) (latched : Bool) : r.classify latched =
    if !r.isPresent.truth then .ok (.unknown, latched)
    else if r.hasPermanentFailure then .ok (.certain .poor, latched)
    else if !r.designCapacity.truth then .ok (.unknown, latched)
    else do
      let ratio ← r.capacityRatio
      let young ← r.cycleCount.less (.int youngCycles)
      return rate ratio young latched := by
  have hrate (ratio : Binary64) (young : Bool) : (do
      let limit := if latched then releaseRatio else tripRatio
      if ratio.value.le limit.value && young then return (.certain .fair, true)
      else return (.certain .good, false) : Except Fault (Health × Bool)) =
        return rate ratio young latched :=
    (apply_ite pure _ _ _).symm
  unfold classify
  simp only [← hrate]

/-- **A verdict that is given twice is the same**, and so is the latch after it. -/
theorem classify_latched (h : r.classify latched = .ok (health, latched')) :
    r.classify latched' = .ok (health, latched') := by
  rw [classify_eq] at h ⊢
  by_cases hpresent : (!r.isPresent.truth) = true
  · rw [if_pos hpresent] at h ⊢
    cases h
    rfl
  rw [if_neg hpresent] at h ⊢
  by_cases hfailed : r.hasPermanentFailure = true
  · rw [if_pos hfailed] at h ⊢
    cases h
    rfl
  rw [if_neg hfailed] at h ⊢
  by_cases hdesign : (!r.designCapacity.truth) = true
  · rw [if_pos hdesign] at h ⊢
    cases h
    rfl
  rw [if_neg hdesign] at h ⊢
  -- only a rating looks at the latch
  cases hratio : r.capacityRatio with
  | error fault => rw [hratio] at h; cases h
  | ok ratio =>
    cases hyoung : r.cycleCount.less (.int youngCycles) with
    | error fault => rw [hratio, hyoung] at h; cases h
    | ok young =>
      rw [hratio, hyoung] at h
      have hrate : rate ratio young latched = (health, latched') := Except.ok.inj h
      have hlatched : latched' = (rate ratio young latched).2 := by rw [hrate]
      rw [← hrate, hlatched]
      exact congrArg Except.ok (rate_rate ratio young latched)

/-- **What a verdict may be**: the health is known iff it is known how sure that is, and then it is
certain; it is poor only for a battery that tells of a permanent failure, and unknown for one that
is absent. -/
theorem classify_verdict (h : r.classify latched = .ok (health, latched')) :
    health.rating.isSome = health.confidence.isSome ∧
    (∀ rating, health.confidence = some rating → rating = .good) ∧
    (health.rating = some .poor → r.failure = .text permanentFailure) ∧
    (r.isPresent.truth = false → health = .unknown) := by
  rw [classify_eq] at h
  by_cases hpresent : (!r.isPresent.truth) = true
  · rw [if_pos hpresent] at h
    cases h
    exact ⟨rfl, nofun, nofun, fun _ => rfl⟩
  rw [if_neg hpresent] at h
  have habsent (hnot : r.isPresent.truth = false) : health = .unknown :=
    absurd (by rw [hnot]; rfl) hpresent
  by_cases hfailed : r.hasPermanentFailure = true
  · rw [if_pos hfailed] at h
    cases h
    refine ⟨rfl, fun _ hsure => (Option.some.inj hsure).symm, fun _ => ?_, habsent⟩
    obtain ⟨-, htext⟩ := Bool.and_eq_true_iff.1 hfailed
    revert htext
    cases r.failure <;> simp [Value.isText]
  rw [if_neg hfailed] at h
  by_cases hdesign : (!r.designCapacity.truth) = true
  · rw [if_pos hdesign] at h
    cases h
    exact ⟨rfl, nofun, nofun, fun _ => rfl⟩
  rw [if_neg hdesign] at h
  cases hratio : r.capacityRatio with
  | error fault => rw [hratio] at h; cases h
  | ok ratio =>
    cases hyoung : r.cycleCount.less (.int youngCycles) with
    | error fault => rw [hratio, hyoung] at h; cases h
    | ok young =>
      rw [hratio, hyoung] at h
      have hrate : rate ratio young latched = (health, latched') := Except.ok.inj h
      rcases rate_cases ratio young latched with hfair | hgood
      · cases hrate.symm.trans hfair
        exact ⟨rfl, fun _ hsure => (Option.some.inj hsure).symm, nofun, habsent⟩
      · cases hrate.symm.trans hgood
        exact ⟨rfl, fun _ hsure => (Option.some.inj hsure).symm, nofun, habsent⟩

end Reading

end BatteryMonitor
