import BatteryMonitor.Proofs.Binary64
import BatteryMonitor.Proofs.Report

/-!
# Readings that can always be reported

An estimate and a report stop with a fault when they meet a value of the wrong type, divide by
zero or make an integer of a double that is infinite.  None of this happens to a well-typed
reading whose integers are not greater than `2^53` (`Reading.isInRange`), whatever its capacities
and currents are, zeros and negative ones included: it has an estimate
(`Reading.exists_estimate`) and a report (`Reading.exists_report`).

Divisors are tested for zero before they are used, by a test that sees the integer itself
(`Value.exists_integer`), and all quotients stay far away from the end of the doubles.
-/

namespace BatteryMonitor

theorem exists_ok_bind {α β : Type} {x : Except Fault α} {f : α → Except Fault β} {a : α}
    (hx : x = .ok a) (hf : ∃ b, f a = .ok b) : ∃ b, (x >>= f) = .ok b :=
  hx ▸ hf

/-! ### Integers in range -/

namespace Value

/-- The value is no integer beyond those up to which all are doubles. -/
def inRange : Value → Bool
  | .int n => n.natAbs ≤ Nat.pow 2 53
  | _ => true

theorem exists_integer {v : Value} (hv : v.isInteger = true) (hrange : v.inRange = true) :
    ∃ n : Int, n.natAbs ≤ Nat.pow 2 53 ∧ v.number = .ok (.int n) ∧
      v.equalsInt 0 = decide (n = 0) ∧ v.truth = decide (n ≠ 0) := by
  cases v with
  | bool b => cases b <;> exact ⟨_, by decide, rfl, by decide, rfl⟩
  | int n =>
    refine ⟨n, of_decide_eq_true hrange, rfl, ?_, ?_⟩
    · simp [equalsInt, equalNumbers, number?, Number.value, Extended.eq]
    · rw [truth, bne, decide_not]
      rfl
  | null | float | text | list | object => exact absurd hv Bool.false_ne_true

theorem toDouble_of_number {v : Value} {n : Number} {x : Binary64} (hv : v.number = .ok n)
    (hn : n.toDouble = .ok x) : v.toDouble = .ok x := by
  cases v with
  | text s => cases hv
  | null | bool | int | float | list | object =>
    simp only [toDouble, hv, bind, Except.bind, hn]

theorem isInteger_of_isNull {v : Value} (hv : (v.isNull || v.isInteger) = true)
    (hnull : v.isNull = false) : v.isInteger = true := by
  rwa [hnull, Bool.false_or] at hv

end Value

namespace Reading

variable {r : Reading}

/-- No field holds an integer beyond those up to which all are doubles. -/
def isInRange (r : Reading) : Bool :=
  r.currentCapacity.inRange && r.maxCapacity.inRange && r.designCapacity.inRange &&
  r.cycleCount.inRange && r.avgAmperage.inRange && r.instantAmperage.inRange &&
  r.firmwareTimeRemaining.inRange && r.invalidWakeSecs.inRange

/-- Every field holds what it is meant to hold, and no integer is out of range. -/
def isSound (r : Reading) : Bool := r.isWellTyped && r.isInRange

/-- What is known of the numbers of a reading that is sound. -/
structure Measured (r : Reading) : Prop where
  currentCapacity : r.currentCapacity.isInteger ∧ r.currentCapacity.inRange
  maxCapacity : r.maxCapacity.isInteger ∧ r.maxCapacity.inRange
  designCapacity : (r.designCapacity.isNull || r.designCapacity.isInteger) ∧
    r.designCapacity.inRange
  cycleCount : r.cycleCount.isInteger ∧ r.cycleCount.inRange
  avgAmperage : r.avgAmperage.isInteger ∧ r.avgAmperage.inRange
  instantAmperage : r.instantAmperage.isInteger ∧ r.instantAmperage.inRange
  firmwareTimeRemaining : (r.firmwareTimeRemaining.isNull || r.firmwareTimeRemaining.isInteger) ∧
    r.firmwareTimeRemaining.inRange
  invalidWakeSecs : r.invalidWakeSecs.isInteger ∧ r.invalidWakeSecs.inRange

theorem measured (h : r.isSound = true) : r.Measured := by
  simp only [isSound, isWellTyped, isInRange, Bool.and_eq_true] at h
  constructor <;> simp only [h, and_self]

theorem isWellTyped_of_isSound (h : r.isSound = true) : r.isWellTyped = true := by
  rw [isSound, Bool.and_eq_true] at h
  exact h.1

theorem isOptional_storeKey (h : r.isSound = true) : r.storeKey.isOptional .text = true :=
  isOptional_storeKey_of_isWellTyped (isWellTyped_of_isSound h)

/-! ### Estimates -/

theorem exists_amperageBounds (h : r.Measured) : ∃ bounds, r.amperageBounds = .ok bounds := by
  unfold amperageBounds
  split
  · obtain ⟨n, hrange, hnumber, -⟩ := Value.exists_integer h.instantAmperage.1 h.instantAmperage.2
    obtain ⟨size, -, hsize, -⟩ := Number.toDouble_int (k := 53) (n := n.natAbs) (by decide)
      (by rwa [Int.natAbs_natCast])
    exact exists_ok_bind hnumber (exists_ok_bind hsize ⟨_, rfl⟩)
  · exact ⟨_, rfl⟩

theorem exists_minutesFor {factor capacity average : Int} (hfactor : factor.natAbs ≤ 60)
    (hcapacity : capacity.natAbs ≤ Nat.pow 2 54) (haverage : average ≠ 0) :
    ∃ minutes, minutesFor factor (.int capacity) (.int average) = .ok minutes := by
  have hproduct : (factor * capacity).natAbs ≤ Nat.pow 2 60 := by
    rw [Int.natAbs_mul]
    exact (Nat.mul_le_mul hfactor hcapacity).trans (by decide)
  obtain ⟨x, hx, hwithin⟩ := Number.div_int_int (by decide) hproduct haverage
  exact exists_ok_bind (a := .int (factor * capacity)) rfl
    (exists_ok_bind hx (hwithin.exists_toInteger Rounding.towardZero))

theorem exists_calculatedMinutes (h : r.Measured) (haverage : r.avgAmperage.equalsInt 0 = false) :
    ∃ minutes, r.calculatedMinutes = .ok minutes := by
  obtain ⟨current, hcurrent, hcurrent', -⟩ :=
    Value.exists_integer h.currentCapacity.1 h.currentCapacity.2
  obtain ⟨full, hfull, hfull', -⟩ := Value.exists_integer h.maxCapacity.1 h.maxCapacity.2
  obtain ⟨average, -, haverage', hzero, -⟩ :=
    Value.exists_integer h.avgAmperage.1 h.avgAmperage.2
  have hne : average ≠ 0 := of_decide_eq_false (hzero.symm.trans haverage)
  unfold calculatedMinutes
  split
  · have hmissing : (full - current).natAbs ≤ Nat.pow 2 54 := by
      simp only [Nat.pow_eq] at hcurrent hfull ⊢
      omega
    exact exists_ok_bind hfull' (exists_ok_bind hcurrent'
      (exists_ok_bind (a := .int (full - current)) rfl
        (exists_ok_bind haverage' (exists_minutesFor (by decide) hmissing hne))))
  · exact exists_ok_bind hcurrent' (exists_ok_bind haverage'
      (exists_minutesFor (by decide) (hcurrent.trans (by decide)) hne))

theorem exists_rawMinutes (h : r.Measured) (haverage : r.avgAmperage.equalsInt 0 = false)
    (c : Conditions) : ∃ minutes, r.rawMinutes c = .ok minutes := by
  unfold rawMinutes
  split
  · split
    · exact ⟨_, rfl⟩
    · rename_i hnull
      have hinteger :=
        Value.isInteger_of_isNull h.firmwareTimeRemaining.1 (eq_false_of_ne_true hnull)
      cases hminutes : r.firmwareTimeRemaining with
      | bool b => exact ⟨_, rfl⟩
      | int n => exact ⟨_, rfl⟩
      | null | float | text | list | object =>
        rw [hminutes] at hinteger
        exact absurd hinteger Bool.false_ne_true
  · exact exists_calculatedMinutes h haverage

/-- **A reading that is sound has an estimate**, whatever the conditions are. -/
theorem exists_estimate (h : r.isSound = true) (c : Conditions) (now : Binary64) :
    ∃ minutes, r.estimate c now = .ok minutes := by
  have hmeasured := measured h
  obtain ⟨bounds, hbounds⟩ := exists_amperageBounds hmeasured
  obtain ⟨average, -, haverage, -⟩ :=
    Value.exists_integer hmeasured.avgAmperage.1 hmeasured.avgAmperage.2
  refine exists_ok_bind hbounds ?_
  dsimp only
  split
  · exact ⟨_, rfl⟩
  · rename_i hzero
    refine exists_ok_bind haverage ?_
    split
    · exact ⟨_, rfl⟩
    · obtain ⟨minutes, hminutes⟩ :=
        exists_rawMinutes hmeasured (eq_false_of_ne_true hzero) c
      exact exists_ok_bind hminutes ⟨_, rfl⟩

/-! ### Reports -/

theorem exists_roundAway {x : Binary64} (h : x.Within 60) :
    ∃ n, (Number.double x).roundAway = .ok n := by
  have hhalf : (0.5 : Binary64).Within 60 :=
    Binary64.within_ofRatio false (n := 5) (d := Nat.pow 10 1) (by decide) (by decide) (by decide)
  obtain ⟨magnitude, hmagnitude⟩ := (h.abs.add hhalf (by decide)).exists_toInteger Rat.floor
  exact exists_ok_bind (a := x.abs) rfl (exists_ok_bind hmagnitude
    (exists_ok_bind (a := x) rfl ⟨_, rfl⟩))

/-- The charge in percent can be computed, since a full capacity of zero is no divisor. -/
theorem exists_capacityPercentages (h : r.Measured) :
    ∃ capacity, r.capacityPercentages = .ok capacity := by
  obtain ⟨current, hcurrent, hcurrent', -⟩ :=
    Value.exists_integer h.currentCapacity.1 h.currentCapacity.2
  obtain ⟨full, hfull, hfull', hzero, -⟩ := Value.exists_integer h.maxCapacity.1 h.maxCapacity.2
  unfold capacityPercentages
  rw [hzero]
  split
  · exact ⟨_, rfl⟩
  · rename_i hne
    have hhundred : (100 : Binary64).Within 7 :=
      Binary64.within_ofRatio false (n := 100) (d := 1) (by decide) (by decide) (by decide)
    obtain ⟨x, q, hx, hq, hle, -⟩ := Number.toDouble_int (k := 53) (by decide) hcurrent
    have hproduct : (x.mul 100).Within 60 := Binary64.Within.mul ⟨q, hq, hle⟩ hhundred (by decide)
    obtain ⟨y, hy, hwithin⟩ := Number.div_double_int (by decide) hproduct
      (hfull.trans (by decide)) (by simpa using hne)
    obtain ⟨charge, hcharge⟩ := exists_roundAway hwithin
    have hmul : (Number.int current).mul (.double 100) = .ok (.double (x.mul 100)) := by
      simp only [Number.mul, Number.combine, hx, bind, Except.bind]
      rfl
    exact exists_ok_bind hcurrent' (exists_ok_bind hmul (exists_ok_bind hfull'
      (exists_ok_bind hy (exists_ok_bind hcharge ⟨_, rfl⟩))))

theorem exists_capacityRatio (h : r.Measured) (hdesigned : r.designCapacity.truth = true) :
    ∃ ratio, r.capacityRatio = .ok ratio := by
  have hnull : r.designCapacity.isNull = false := by
    cases hvalue : r.designCapacity <;> simp_all [Value.truth, Value.isNull]
  obtain ⟨full, hfull, hfull', -⟩ := Value.exists_integer h.maxCapacity.1 h.maxCapacity.2
  obtain ⟨designed, hrange, hdesigned', -, hne⟩ := Value.exists_integer
    (Value.isInteger_of_isNull h.designCapacity.1 hnull) h.designCapacity.2
  rw [hdesigned, eq_comm, decide_eq_true_iff] at hne
  have hreserve : reserve.Within 53 :=
    Binary64.within_ofRatio false (n := 200) (d := 1) (by decide) (by decide) (by decide)
  obtain ⟨x, q, hx, hq, hle, -⟩ := Number.toDouble_int (k := 53) (by decide) hfull
  have hsum : (x.add reserve).Within 54 :=
    Binary64.Within.add ⟨q, hq, hle⟩ hreserve (by decide)
  obtain ⟨ratio, hratio, -⟩ := Number.div_double_int (by decide) hsum
    (hrange.trans (by decide)) hne
  have hadd : (Number.int full).add (.double reserve) = .ok (.double (x.add reserve)) := by
    simp only [Number.add, Number.combine, hx, bind, Except.bind]
    rfl
  exact exists_ok_bind hfull' (exists_ok_bind hadd (exists_ok_bind hdesigned' ⟨ratio, hratio⟩))

/-- A verdict can be found, since a designed capacity of zero is no divisor. -/
theorem exists_classify (h : r.Measured) (latched : Bool) :
    ∃ verdict, r.classify latched = .ok verdict := by
  unfold classify
  split
  · exact ⟨_, rfl⟩
  split
  · exact ⟨_, rfl⟩
  split
  · exact ⟨_, rfl⟩
  · rename_i hdesigned
    obtain ⟨ratio, hratio⟩ := exists_capacityRatio h (by simpa using hdesigned)
    obtain ⟨cycles, -, hcycles, -⟩ := Value.exists_integer h.cycleCount.1 h.cycleCount.2
    have hyoung : ∃ young, r.cycleCount.less (.int youngCycles) = .ok young :=
      exists_ok_bind hcycles ⟨_, rfl⟩
    obtain ⟨young, hyoung⟩ := hyoung
    refine exists_ok_bind hratio (exists_ok_bind hyoung ?_)
    dsimp only
    split <;> split <;> exact ⟨_, rfl⟩

/-- **A reading that is sound has a report**, whatever is kept for it and whatever the conditions
are. -/
theorem exists_report (h : r.isSound = true) (s : BatteryState) (c : Conditions)
    (now : Binary64) : ∃ result, r.report s c now = .ok result := by
  obtain ⟨capacity, hcapacity⟩ := exists_capacityPercentages (measured h)
  obtain ⟨verdict, hverdict⟩ := exists_classify (measured h) s.latched
  exact exists_ok_bind hcapacity (exists_ok_bind hverdict ⟨_, rfl⟩)

theorem exists_invalidWakeSecs (h : r.isSound = true) :
    ∃ delay, r.invalidWakeSecs.toDouble = .ok delay := by
  have hmeasured := measured h
  obtain ⟨n, hrange, hnumber, -⟩ :=
    Value.exists_integer hmeasured.invalidWakeSecs.1 hmeasured.invalidWakeSecs.2
  obtain ⟨delay, -, hdelay, -⟩ := Number.toDouble_int (k := 53) (by decide) hrange
  exact ⟨delay, Value.toDouble_of_number hnumber hdelay⟩

end Reading

end BatteryMonitor
