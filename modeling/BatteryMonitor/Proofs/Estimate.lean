import BatteryMonitor.Proofs.Reading
import BatteryMonitor.Proofs.Truncation

/-!
# Estimates in integers

For readings that hold integers (`Gauge.ToldBy`), as every well-typed one does
(`Reading.exists_toldBy`), an estimate can be said in integers.  As long as they fit into 31 bits the
doubles on the way are exact or close enough: the bounds are the exact ones
(`Reading.isOutside_of_small`) and the minutes are the quotient of the integers without its fraction
(`Reading.estimate_of_small`).

A current that flows against the charge state (`Gauge.Contradicts`) is told by the sign of the
minutes, but only after their fraction was dropped (`Reading.clampMinutes_of_signsDiffer`), so that
less than a minute passes for zero minutes (`Reading.estimate_of_contradicts`).
-/

namespace BatteryMonitor

/-- What an estimate looks at in a reading. -/
structure Gauge where
  current : Int
  full : Int
  average : Int
  instant : Int
  /-- the minutes that the battery itself estimates, if it does -/
  firmware : Option Int
  deriving Repr, DecidableEq

namespace Gauge

variable {g : Gauge} {known charging : Bool}

/-- The reading holds these integers. -/
structure ToldBy (g : Gauge) (r : Reading) : Prop where
  currentCapacity : r.currentCapacity.Alike (.int g.current)
  maxCapacity : r.maxCapacity.Alike (.int g.full)
  avgAmperage : r.avgAmperage.Alike (.int g.average)
  instantAmperage : r.instantAmperage.Alike (.int g.instant)
  firmwareTimeRemaining : r.firmwareTimeRemaining.Alike (g.firmware.elim .null .int)

/-- The capacities and the currents have 31 bits and a sign. -/
structure IsSmall (g : Gauge) : Prop where
  current : |g.current| < 2 ^ 31
  full : |g.full| < 2 ^ 31
  average : |g.average| < 2 ^ 31
  instant : |g.instant| < 2 ^ 31

/-- The capacity that is still to be charged or discharged. -/
def toGo (g : Gauge) (charging : Bool) : Int :=
  if charging then g.full - g.current else g.current

/-- What the average current is to divide. -/
def dividend (g : Gauge) (charging : Bool) : Int :=
  (if charging then 60 else -60) * g.toGo charging

/-- The average current is not within a factor of two of the instantaneous one, or, if that is not
known, not a sensible one. -/
def IsUnsettled (g : Gauge) (known : Bool) : Prop :=
  if known then 2 * |g.average| < |g.instant| ∨ 2 * |g.instant| < |g.average|
  else |g.average| < 5 ∨ 15000 < |g.average|

instance (g : Gauge) (known : Bool) : Decidable (g.IsUnsettled known) :=
  inferInstanceAs (Decidable (if known then _ else _))

/-- The average current is not within the bounds. -/
def isOutside (g : Gauge) (bounds : Binary64 × Binary64) : Bool :=
  (Extended.real |g.average|).lt bounds.1.value || bounds.2.value.lt (.real |g.average|)

/-- The current flows against the charge state: something is left to charge but the battery
discharges, or the other way round. -/
def Contradicts (g : Gauge) (charging : Bool) : Prop :=
  0 < g.toGo charging ∧ if charging then g.average < 0 else 0 < g.average

/-! ### The quotient -/

theorem Contradicts.dividend (h : g.Contradicts charging) :
    g.average ≠ 0 ∧ |g.dividend charging| = 60 * g.toGo charging ∧
      Number.signsDiffer (g.dividend charging) g.average = true := by
  obtain ⟨htogo, hagainst⟩ := h
  unfold Gauge.dividend
  cases charging with
  | false =>
    have hagainst : 0 < g.average := hagainst
    have hneg : -60 * g.toGo false < 0 := by omega
    refine ⟨hagainst.ne', ?_, ?_⟩
    · simp only [Bool.false_eq_true, if_false, abs_of_neg hneg]
      omega
    · simp only [Number.signsDiffer, Bool.false_eq_true, if_false, decide_eq_true hneg,
        decide_eq_false hagainst.le.not_gt]
      rfl
  | true =>
    have hagainst : g.average < 0 := hagainst
    have hpos : 0 ≤ 60 * g.toGo true := by omega
    refine ⟨hagainst.ne, ?_, ?_⟩
    · simp only [if_true, abs_of_nonneg hpos]
    · simp only [Number.signsDiffer, if_true, decide_eq_true hagainst, decide_eq_false hpos.not_gt]
      rfl

end Gauge

namespace Reading

open Number

variable {r : Reading} {g : Gauge} {c : Conditions} {now : Binary64}

/-! ### Readings that hold integers -/

theorem exists_toldBy (h : r.isWellTyped = true) : ∃ g : Gauge, g.ToldBy r := by
  simp only [isWellTyped, Bool.and_eq_true] at h
  obtain ⟨⟨⟨⟨⟨⟨⟨⟨⟨⟨⟨⟨⟨⟨-, hcurrent⟩, hfull⟩, -⟩, -⟩, haverage⟩, hinstant⟩, -⟩, hfirmware⟩, -⟩, -⟩,
    -⟩, -⟩, -⟩, -⟩ := h
  obtain ⟨current, hcurrent⟩ := Value.exists_alike_int hcurrent
  obtain ⟨full, hfull⟩ := Value.exists_alike_int hfull
  obtain ⟨average, haverage⟩ := Value.exists_alike_int haverage
  obtain ⟨instant, hinstant⟩ := Value.exists_alike_int hinstant
  rcases Bool.or_eq_true _ _ ▸ hfirmware with hnone | hsome
  · refine ⟨⟨current, full, average, instant, none⟩, hcurrent, hfull, haverage, hinstant, ?_⟩
    cases hvalue : r.firmwareTimeRemaining with
    | null => exact .refl _
    | bool | int | float | text | list | object =>
      rw [hvalue] at hnone
      exact absurd hnone Bool.false_ne_true
  · obtain ⟨minutes, hminutes⟩ := Value.exists_alike_int hsome
    exact ⟨⟨current, full, average, instant, some minutes⟩, hcurrent, hfull, haverage, hinstant,
      hminutes⟩

theorem estimate_of_told (h : g.ToldBy r) (c : Conditions) (now : Binary64) :
    r.estimate c now = (do
      let bounds ← r.amperageBounds
      if g.average = 0 ∨ g.isOutside bounds = true ∨ c.isIgnoring now = true then
        return indeterminate
      return clampMinutes (← r.rawMinutes c)) := by
  have hzero : r.avgAmperage.equalsInt 0 = decide (g.average = 0) := by
    rw [h.avgAmperage.equalsInt]
    exact decide_eq_decide.2 Rat.intCast_inj
  have hsize : (Number.int g.average).abs.value = .real |g.average| := by
    simp [Number.abs, Number.value]
  unfold estimate
  cases r.amperageBounds with
  | error fault => rfl
  | ok bounds =>
    have hbind (f : Binary64 × Binary64 → Except Fault Int) :
        ((.ok bounds : Except Fault _) >>= f) = f bounds := rfl
    rw [hbind, hbind]
    simp only [hzero, h.avgAmperage.number, decide_eq_true_eq]
    by_cases hnone : g.average = 0
    · rw [if_pos hnone, if_pos (.inl hnone)]
    · have houtside : (((Number.int g.average).abs.value.lt bounds.1.value ||
          bounds.2.value.lt (Number.int g.average).abs.value || c.isIgnoring now) = true) ↔
            (g.average = 0 ∨ g.isOutside bounds = true ∨ c.isIgnoring now = true) := by
        rw [hsize, Gauge.isOutside]
        simp [hnone, or_assoc]
      rw [if_neg hnone]
      exact if_congr houtside rfl rfl

theorem rawMinutes_of_told (h : g.ToldBy r) (c : Conditions) :
    r.rawMinutes c =
      if c.useFirmware.truth then .ok (g.firmware.getD indeterminate)
      else (int (g.dividend r.isCharging.truth)).div (int g.average) >>= Binary64.truncate := by
  unfold rawMinutes
  split
  · rw [h.firmwareTimeRemaining.isNull, h.firmwareTimeRemaining.toInteger]
    cases g.firmware <;> rfl
  · unfold calculatedMinutes
    rw [h.avgAmperage.number, h.maxCapacity.number, h.currentCapacity.number]
    cases r.isCharging.truth <;> rfl

theorem amperageBounds_of_told (h : g.ToldBy r) :
    r.amperageBounds = if r.hasInstantAmperage.truth then
        (int g.instant).abs.toDouble >>= fun size => .ok (size.mul 0.5, size.mul 2)
      else .ok (5, 15000) := by
  unfold amperageBounds
  rw [h.instantAmperage.number]
  rfl

/-! ### Small integers -/

theorem amperageBounds_of_known (h : g.ToldBy r) (hknown : r.hasInstantAmperage.truth = true)
    (hsmall : |g.instant| < 2 ^ 31) :
    ∃ lower upper, r.amperageBounds = .ok (lower, upper) ∧
      lower.value = .real (|g.instant| / 2) ∧ upper.value = .real (2 * |g.instant|) := by
  have hinstant : ((g.instant.natAbs : Int) : ℚ) = |g.instant| := by simp
  have hbound : (g.instant.natAbs : Int).natAbs < 2 ^ 53 := by
    rw [Int.abs_eq_natAbs] at hsmall
    omega
  have hsize := Binary64.value_ofInt hbound
  have hhalf : (0.5 : Binary64).value = .real (2 ^ (-1 : Int)) := by decide +kernel
  have htwo : (2 : Binary64).value = .real (2 ^ (1 : Int)) := by decide +kernel
  have hlower := Binary64.value_mul hsize hhalf
    (Binary64.isDouble_mul_zpow hbound (by decide) (by decide))
  have hupper := Binary64.value_mul hsize htwo
    (Binary64.isDouble_mul_zpow hbound (by decide) (by decide))
  refine ⟨(Binary64.ofInt g.instant.natAbs).mul 0.5, (Binary64.ofInt g.instant.natAbs).mul 2,
    ?_, ?_, ?_⟩
  · rw [amperageBounds_of_told h, if_pos hknown, Number.abs, toDouble_of_value hsize]
    rfl
  · rw [hlower, hinstant, zpow_neg_one, div_eq_mul_inv]
  · rw [hupper, hinstant, zpow_one, mul_comm]

theorem isOutside_of_small (h : g.ToldBy r) (hsmall : g.IsSmall) :
    ∃ bounds, r.amperageBounds = .ok bounds ∧
      (g.isOutside bounds = true ↔ g.IsUnsettled r.hasInstantAmperage.truth) := by
  cases hknown : r.hasInstantAmperage.truth with
  | false =>
    have hlower : (5 : Binary64).value = .real 5 := Binary64.value_ofInt (m := 5) (by decide)
    have hupper : (15000 : Binary64).value = .real 15000 :=
      Binary64.value_ofInt (m := 15000) (by decide)
    refine ⟨(5, 15000), by rw [amperageBounds, hknown]; rfl, ?_⟩
    rw [Gauge.isOutside, hlower, hupper, Bool.or_eq_true]
    simp only [Extended.lt, decide_eq_true_eq]
    exact or_congr (by exact_mod_cast Iff.rfl) (by exact_mod_cast Iff.rfl)
  | true =>
    obtain ⟨lower, upper, hbounds, hlower, hupper⟩ :=
      amperageBounds_of_known h hknown hsmall.instant
    refine ⟨(lower, upper), hbounds, ?_⟩
    rw [Gauge.isOutside, hlower, hupper, Bool.or_eq_true]
    simp only [Extended.lt, decide_eq_true_eq, lt_div_iff₀' (two_pos : (0 : ℚ) < 2)]
    exact or_congr (by exact_mod_cast Iff.rfl) (by exact_mod_cast Iff.rfl)

/-- **An estimate of small integers is exact**: doubles bound the current and hold the quotient, but
no rounding changes the minute. -/
theorem estimate_of_small (h : g.ToldBy r) (hsmall : g.IsSmall) (c : Conditions) (now : Binary64) :
    r.estimate c now = .ok (
      if g.average = 0 ∨ g.IsUnsettled r.hasInstantAmperage.truth ∨ c.isIgnoring now = true then -1
      else
        let minutes :=
          if c.useFirmware.truth then g.firmware.getD (-1)
          else (g.dividend r.isCharging.truth).tdiv g.average
        if minutes < 0 then -1 else min minutes 600) := by
  obtain ⟨bounds, hbounds, houtside⟩ := isOutside_of_small h hsmall
  have hdividend : (g.dividend r.isCharging.truth).natAbs < 2 ^ 53 := by
    have hcurrent := abs_lt.1 hsmall.current
    have hfull := abs_lt.1 hsmall.full
    unfold Gauge.dividend Gauge.toGo
    split <;> omega
  have hcheck : (g.average = 0 ∨ g.isOutside bounds = true ∨ c.isIgnoring now = true) ↔
      (g.average = 0 ∨ g.IsUnsettled r.hasInstantAmperage.truth ∨ c.isIgnoring now = true) :=
    or_congr Iff.rfl (or_congr houtside Iff.rfl)
  rw [estimate_of_told h, rawMinutes_of_told h, hbounds]
  by_cases hnone :
      g.average = 0 ∨ g.IsUnsettled r.hasInstantAmperage.truth ∨ c.isIgnoring now = true
  · rw [if_pos hnone]
    exact if_pos (hcheck.2 hnone)
  · rw [if_neg hnone, div_truncate_of_lt (mt .inl hnone) hdividend]
    refine (if_neg (mt hcheck.1 hnone)).trans ?_
    cases c.useFirmware.truth <;> rfl

/-- 59.97 minutes until the battery is full are 59. -/
theorem estimate_of_small_charging :
    ({ isCharging := .bool true, currentCapacity := .int 3001, maxCapacity := .int 5000,
       avgAmperage := .int 2000, instantAmperage := .int 1001,
       hasInstantAmperage := .bool true } : Reading).estimate {} 0 = .ok 59 :=
  (estimate_of_small (g := ⟨3001, 5000, 2000, 1001, none⟩)
    ⟨.refl _, .refl _, .refl _, .refl _, .refl _⟩
    ⟨by decide, by decide, by decide, by decide⟩ {} 0).trans (by decide +kernel)

/-! ### A current against the charge state -/

theorem clampMinutes_neg {minutes : Int} (h : 0 ≤ minutes) :
    clampMinutes (-minutes) = if 1 ≤ minutes then indeterminate else 0 := by
  unfold clampMinutes
  split <;> rename_i hneg
  · rw [if_pos (by omega)]
  · obtain rfl : minutes = 0 := by omega
    decide

/-- **A negative quotient is told by its sign only if it is rounded to a minute at least.** -/
theorem clampMinutes_of_signsDiffer {m n : Int} (hn : n ≠ 0) (hsigns : signsDiffer m n = true) :
    (do return clampMinutes (← (int m).div (int n) >>= Binary64.truncate)) =
      if Binary64.beyond * |n| ≤ |m| then .error .tooLarge
      else if (2 ^ 54 - 1) * |n| ≤ 2 ^ 54 * |m| then .ok indeterminate
      else .ok 0 := by
  split <;> rename_i hlarge
  · rw [div_of_beyond_le hn ((beyond_le_iff hn).2 hlarge)]
    rfl
  have hquotient := div_truncate hn (not_le.1 (mt (beyond_le_iff hn).1 hlarge))
  rw [if_pos hsigns] at hquotient
  have hminute : 1 ≤ (Binary64.rounded m.natAbs n.natAbs).floor ↔
      (2 ^ 54 - 1) * |n| ≤ 2 ^ 54 * |m| := by
    rw [← near_one_le_iff hn, ← Binary64.one_le_rounded_iff (Int.natAbs_pos.2 hn),
      Rat.le_floor_iff, Int.cast_one]
  have hnonneg := Rat.le_floor_iff.2 (Binary64.rounded_nonneg m.natAbs n.natAbs)
  rw [hquotient, ← apply_ite Except.ok, ← if_congr hminute rfl rfl, ← clampMinutes_neg hnonneg]
  rfl

theorem estimate_of_contradicts (h : g.ToldBy r) (hagainst : g.Contradicts r.isCharging.truth)
    (hfirmware : c.useFirmware.truth = false) (now : Binary64) :
    r.estimate c now = r.amperageBounds >>= fun bounds =>
      if g.isOutside bounds = true ∨ c.isIgnoring now = true then .ok indeterminate
      else if Binary64.beyond * |g.average| ≤ 60 * g.toGo r.isCharging.truth then
        .error .tooLarge
      else if (2 ^ 54 - 1) * |g.average| ≤ 2 ^ 54 * (60 * g.toGo r.isCharging.truth) then
        .ok indeterminate
      else .ok 0 := by
  obtain ⟨hnone, hsize, hsigns⟩ := hagainst.dividend
  rw [estimate_of_told h, rawMinutes_of_told h, hfirmware, ← hsize]
  refine congrArg (r.amperageBounds >>= ·) (funext fun bounds => ?_)
  by_cases hcheck : g.isOutside bounds = true ∨ c.isIgnoring now = true
  · rw [if_pos hcheck, if_pos (.inr hcheck)]
    rfl
  · rw [if_neg hcheck, if_neg (not_or.2 ⟨hnone, hcheck⟩)]
    exact clampMinutes_of_signsDiffer hnone hsigns

theorem eq_tooLarge_of_amperageBounds {fault : Fault} (h : g.ToldBy r)
    (hfault : r.amperageBounds = .error fault) : fault = .tooLarge := by
  rw [amperageBounds_of_told h] at hfault
  split at hfault
  · cases hsize : (int g.instant).abs.toDouble with
    | ok size => rw [hsize] at hfault; cases hfault
    | error fault' =>
      rw [hsize] at hfault
      cases hfault
      exact eq_tooLarge_of_toDouble hsize
  · cases hfault

/-- **When a contradiction gives no estimate**: if a check comes first, or if the quotient is
rounded to a minute at least and there is a double for it.  Otherwise it passes for zero minutes or
is a fault. -/
theorem indeterminate_iff_of_contradicts (h : g.ToldBy r)
    (hagainst : g.Contradicts r.isCharging.truth) (hfirmware : c.useFirmware.truth = false)
    (now : Binary64) :
    (r.estimate c now = .ok (-1) ↔ ∃ bounds, r.amperageBounds = .ok bounds ∧
      (g.isOutside bounds = true ∨ c.isIgnoring now = true ∨
        (2 ^ 54 - 1) * |g.average| ≤ 2 ^ 54 * (60 * g.toGo r.isCharging.truth) ∧
          60 * g.toGo r.isCharging.truth < Binary64.beyond * |g.average|)) ∧
      (r.estimate c now = .ok (-1) ∨ r.estimate c now = .ok 0 ∨
        r.estimate c now = .error .tooLarge) := by
  rw [estimate_of_contradicts h hagainst hfirmware]
  cases hbounds : r.amperageBounds with
  | error fault =>
    obtain rfl := eq_tooLarge_of_amperageBounds h hbounds
    simp [bind, Except.bind]
  | ok bounds =>
    simp only [bind, Except.bind, Except.ok.injEq, exists_eq_left']
    rw [← or_assoc]
    split_ifs with hcheck hlarge hminute
    · exact ⟨iff_of_true rfl (.inl hcheck), .inl rfl⟩
    · refine ⟨iff_of_false nofun ?_, .inr (.inr rfl)⟩
      exact not_or.2 ⟨hcheck, fun h => hlarge.not_gt h.2⟩
    · exact ⟨iff_of_true rfl (.inr ⟨hminute, not_le.1 hlarge⟩), .inl rfl⟩
    · refine ⟨iff_of_false (by decide) ?_, .inr (.inl rfl)⟩
      exact not_or.2 ⟨hcheck, fun h => hminute h.1⟩

/-- A full battery is said to be discharging, but charges: no estimate. -/
theorem indeterminate_iff_of_contradicts_full :
    ({ currentCapacity := .int 5000, maxCapacity := .int 5000,
       avgAmperage := .int 2000 } : Reading).estimate {} 0 = .ok (-1) :=
  (indeterminate_iff_of_contradicts (g := ⟨5000, 5000, 2000, 0, none⟩)
    ⟨.refl _, .refl _, .refl _, .refl _, .refl _⟩ ⟨by decide, by decide⟩ rfl 0).1.2
    ⟨(5, 15000), rfl, .inr (.inr ⟨by decide, by decide +kernel⟩)⟩

/-- **A contradiction that passes for zero minutes**: the quotient is -0.6. -/
theorem contradiction_unnoticed :
    ∃ g : Gauge, ∃ r : Reading, g.ToldBy r ∧ g.Contradicts r.isCharging.truth ∧
      ({} : Conditions).useFirmware.truth = false ∧ r.estimate {} 0 = .ok 0 :=
  ⟨⟨99, 100, -100, 0, none⟩,
    { isCharging := .bool true, currentCapacity := .int 99, maxCapacity := .int 100,
      avgAmperage := .int (-100) },
    ⟨.refl _, .refl _, .refl _, .refl _, .refl _⟩, ⟨by decide, by decide⟩, rfl, by decide +kernel⟩

end Reading

end BatteryMonitor
