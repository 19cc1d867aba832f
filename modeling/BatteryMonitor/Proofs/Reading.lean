import BatteryMonitor.Proofs.Report

/-!
# Equal readings

Two readings may be equal field by field (`Reading.equal`) without being the same, since truth
values count as the integers zero and one.  For well-typed readings that makes no difference to
anything that is done with them: fields that hold no numbers are the same, and those that hold
numbers are used by their numbers only (`Reading.Alike`), so that equal readings have the same key,
the same estimate and the same snapshot (`Reading.Alike.estimate_eq`, `Reading.Alike.report_eq`).
Lists are equal item by item (`Reading.equalLists`).
-/

namespace BatteryMonitor

namespace Value

/-- Nothing that is done with numbers tells two values apart. -/
structure Alike (v w : Value) : Prop where
  isNull : v.isNull = w.isNull
  truth : v.truth = w.truth
  number? : v.number? = w.number?
  toInteger : v.toInteger = w.toInteger

namespace Alike

variable {v w : Value}

theorem number (h : v.Alike w) : v.number = w.number := by
  rw [Value.number, Value.number, h.number?]

theorem equalsInt (h : v.Alike w) (n : Int) : v.equalsInt n = w.equalsInt n := by
  rw [Value.equalsInt, Value.equalsInt, equalNumbers, equalNumbers, h.number?]

theorem less (h : v.Alike w) (u : Value) : v.less u = w.less u := by
  rw [Value.less, Value.less, h.number]

end Alike

variable {v w : Value}

theorem same_of_equal (h : v.equal w = true) : v.same w = true := by
  unfold equal at h
  split at h
  · exact absurd h Bool.false_ne_true
  · exact h

theorem eq_of_equal {kind : Kind} (h : v.equal w = true) (hv : v.isKind kind = true)
    (hw : w.isKind kind = true) : v = w :=
  eq_of_same (same_of_equal h) (isOptional_of_isKind hv) (isOptional_of_isKind hw)

theorem Alike.refl (v : Value) : v.Alike v := ⟨rfl, rfl, rfl, rfl⟩

theorem Alike.trans {u : Value} (h : u.Alike v) (h' : v.Alike w) : u.Alike w :=
  ⟨h.isNull.trans h'.isNull, h.truth.trans h'.truth, h.number?.trans h'.number?,
    h.toInteger.trans h'.toInteger⟩

theorem Alike.symm (h : v.Alike w) : w.Alike v :=
  ⟨h.isNull.symm, h.truth.symm, h.number?.symm, h.toInteger.symm⟩

theorem exists_alike_int (h : v.isInteger = true) : ∃ n, v.Alike (.int n) := by
  cases v with
  | bool b => exact ⟨if b then 1 else 0, by cases b <;> exact ⟨rfl, rfl, rfl, rfl⟩⟩
  | int n => exact ⟨n, rfl, rfl, rfl, rfl⟩
  | null | float _ | text _ | list _ | object _ => exact absurd h Bool.false_ne_true

theorem equalNumbers_of_equal (h : v.equal w = true) (hv : v.isInteger = true) :
    v.equalNumbers w = true := by
  cases v with
  | bool b => cases w <;> simpa [equal, same] using h
  | int n => cases w <;> simpa [equal, same] using h
  | null | float _ | text _ | list _ | object _ => exact absurd hv Bool.false_ne_true

theorem alike_of_equal (h : v.equal w = true) (hv : v.isInteger = true)
    (hw : w.isInteger = true) : v.Alike w := by
  have hequal := equalNumbers_of_equal h hv
  obtain ⟨m, hm⟩ := exists_alike_int hv
  obtain ⟨n, hn⟩ := exists_alike_int hw
  rw [equalNumbers, hm.number?, hn.number?] at hequal
  have hmn : (Extended.real m) = .real n := (Extended.eq_iff.1 hequal).1
  obtain rfl : m = n := by simpa using hmn
  exact hm.trans hn.symm

theorem alike_of_equal_optional (h : v.equal w = true) (hv : (v.isNull || v.isInteger) = true)
    (hw : (w.isNull || w.isInteger) = true) : v.Alike w := by
  cases v with
  | null =>
    cases w with
    | null => exact ⟨rfl, rfl, rfl, rfl⟩
    | bool _ | int _ | float _ | text _ | list _ | object _ =>
      exact absurd h (by simp [equal, same, equalNumbers, number?])
  | bool b =>
    cases w with
    | null => exact absurd h (by simp [equal, same, equalNumbers, number?])
    | bool _ | int _ => exact alike_of_equal h rfl rfl
    | float _ | text _ | list _ | object _ => exact absurd hw Bool.false_ne_true
  | int n =>
    cases w with
    | null => exact absurd h (by simp [equal, same, equalNumbers, number?])
    | bool _ | int _ => exact alike_of_equal h rfl rfl
    | float _ | text _ | list _ | object _ => exact absurd hw Bool.false_ne_true
  | float _ | text _ | list _ | object _ => exact absurd hv Bool.false_ne_true

theorem eq_of_equal_optional {kind : Kind} (h : v.equal w = true) (hv : v.isOptional kind = true)
    (hw : w.isOptional kind = true) : v = w :=
  eq_of_same (same_of_equal h) hv hw

end Value

namespace Reading

/-- Two readings are equal field by field. -/
def equal (a b : Reading) : Bool :=
  a.isPresent.equal b.isPresent && a.externalConnected.equal b.externalConnected &&
  a.isCharging.equal b.isCharging && a.currentCapacity.equal b.currentCapacity &&
  a.maxCapacity.equal b.maxCapacity && a.designCapacity.equal b.designCapacity &&
  a.cycleCount.equal b.cycleCount && a.avgAmperage.equal b.avgAmperage &&
  a.instantAmperage.equal b.instantAmperage &&
  a.hasInstantAmperage.equal b.hasInstantAmperage &&
  a.firmwareTimeRemaining.equal b.firmwareTimeRemaining &&
  a.errorCondition.equal b.errorCondition && a.failure.equal b.failure &&
  a.chargeStatus.equal b.chargeStatus && a.name.equal b.name &&
  a.invalidWakeSecs.equal b.invalidWakeSecs && a.storeKey.equal b.storeKey

/-- Nothing that is done with readings tells two readings apart. -/
structure Alike (a b : Reading) : Prop where
  isPresent : a.isPresent = b.isPresent
  externalConnected : a.externalConnected = b.externalConnected
  isCharging : a.isCharging = b.isCharging
  currentCapacity : a.currentCapacity.Alike b.currentCapacity
  maxCapacity : a.maxCapacity.Alike b.maxCapacity
  designCapacity : a.designCapacity.Alike b.designCapacity
  cycleCount : a.cycleCount.Alike b.cycleCount
  avgAmperage : a.avgAmperage.Alike b.avgAmperage
  instantAmperage : a.instantAmperage.Alike b.instantAmperage
  hasInstantAmperage : a.hasInstantAmperage = b.hasInstantAmperage
  firmwareTimeRemaining : a.firmwareTimeRemaining.Alike b.firmwareTimeRemaining
  errorCondition : a.errorCondition = b.errorCondition
  failure : a.failure = b.failure
  chargeStatus : a.chargeStatus = b.chargeStatus
  name : a.name = b.name
  storeKey : a.storeKey = b.storeKey

variable {a b : Reading}

open Value in
/-- **Equal readings are alike**, as long as they are well-typed. -/
theorem alike_of_equal (h : a.equal b = true) (ha : a.isWellTyped = true)
    (hb : b.isWellTyped = true) : a.Alike b := by
  simp only [equal, isWellTyped, Bool.and_eq_true] at h ha hb
  obtain ⟨⟨⟨⟨⟨⟨⟨⟨⟨⟨⟨⟨⟨⟨⟨⟨hpresent, hexternal⟩, hcharging⟩, hcurrent⟩, hmax⟩, hdesign⟩, hcycles⟩,
    havg⟩, hinstant⟩, hhas⟩, hfirmware⟩, herror⟩, hfailure⟩, hstatus⟩, hname⟩, -⟩, hkey⟩ := h
  obtain ⟨⟨⟨⟨⟨⟨⟨⟨⟨⟨⟨⟨⟨⟨⟨⟨ha₁, ha₂⟩, ha₃⟩, ha₄⟩, ha₅⟩, ha₆⟩, ha₇⟩, ha₈⟩, ha₉⟩, ha₁₀⟩, ha₁₁⟩, ha₁₂⟩,
    ha₁₃⟩, ha₁₄⟩, ha₁₅⟩, -⟩, ha₁₇⟩ := ha
  obtain ⟨⟨⟨⟨⟨⟨⟨⟨⟨⟨⟨⟨⟨⟨⟨⟨hb₁, hb₂⟩, hb₃⟩, hb₄⟩, hb₅⟩, hb₆⟩, hb₇⟩, hb₈⟩, hb₉⟩, hb₁₀⟩, hb₁₁⟩, hb₁₂⟩,
    hb₁₃⟩, hb₁₄⟩, hb₁₅⟩, -⟩, hb₁₇⟩ := hb
  exact
    { isPresent := eq_of_equal hpresent ha₁ hb₁
      externalConnected := eq_of_equal hexternal ha₂ hb₂
      isCharging := eq_of_equal hcharging ha₃ hb₃
      currentCapacity := Value.alike_of_equal hcurrent ha₄ hb₄
      maxCapacity := Value.alike_of_equal hmax ha₅ hb₅
      designCapacity := alike_of_equal_optional hdesign (by simpa using ha₆) (by simpa using hb₆)
      cycleCount := Value.alike_of_equal hcycles ha₇ hb₇
      avgAmperage := Value.alike_of_equal havg ha₈ hb₈
      instantAmperage := Value.alike_of_equal hinstant ha₉ hb₉
      hasInstantAmperage := eq_of_equal hhas ha₁₀ hb₁₀
      firmwareTimeRemaining :=
        alike_of_equal_optional hfirmware (by simpa using ha₁₁) (by simpa using hb₁₁)
      errorCondition := eq_of_equal_optional herror ha₁₂ hb₁₂
      failure := eq_of_equal_optional hfailure ha₁₃ hb₁₃
      chargeStatus := eq_of_equal_optional hstatus ha₁₄ hb₁₄
      name := eq_of_equal_optional hname ha₁₅ hb₁₅
      storeKey := eq_of_equal_optional hkey ha₁₇ hb₁₇ }

namespace Alike

theorem refl (a : Reading) : a.Alike a :=
  ⟨rfl, rfl, rfl, .refl _, .refl _, .refl _, .refl _, .refl _, .refl _, rfl, .refl _, rfl, rfl, rfl,
    rfl, rfl⟩

theorem effectiveKey_eq (h : a.Alike b) (i : Int) : a.effectiveKey i = b.effectiveKey i := by
  rw [effectiveKey, effectiveKey, h.storeKey]

/-- **The estimates of readings that are alike are the same.** -/
theorem estimate_eq (h : a.Alike b) (c : Conditions) (now : Binary64) :
    a.estimate c now = b.estimate c now := by
  simp only [estimate, amperageBounds, rawMinutes, calculatedMinutes, h.hasInstantAmperage,
    h.isCharging, h.instantAmperage.number, h.avgAmperage.number, h.avgAmperage.equalsInt,
    h.firmwareTimeRemaining.isNull, h.firmwareTimeRemaining.toInteger, h.maxCapacity.number,
    h.currentCapacity.number]

theorem classify_eq (h : a.Alike b) (latched : Bool) : a.classify latched = b.classify latched := by
  simp only [classify, hasPermanentFailure, capacityRatio, h.isPresent, h.errorCondition,
    h.failure, h.designCapacity.truth, h.designCapacity.number, h.maxCapacity.number,
    h.cycleCount.less]
  rfl

/-- **The snapshots of readings that are alike are the same.** -/
theorem report_eq (h : a.Alike b) (s : BatteryState) (c : Conditions) (now : Binary64) :
    a.report s c now = b.report s c now := by
  simp only [report, capacityPercentages, timeFields, h.classify_eq, h.isPresent,
    h.externalConnected, h.isCharging, h.maxCapacity.equalsInt, h.maxCapacity.number,
    h.currentCapacity.number, h.name, h.failure, h.chargeStatus]

end Alike

/-! ### Lists of equal readings -/

/-- Two lists of readings are equal item by item. -/
def equalLists : List Reading → List Reading → Bool
  | [], [] => true
  | a :: as, b :: bs => a.equal b && equalLists as bs
  | _, _ => false

theorem alike_of_equalLists : ∀ {as bs : List Reading}, equalLists as bs = true →
    (∀ a ∈ as, a.isWellTyped = true) → (∀ b ∈ bs, b.isWellTyped = true) →
      as.length = bs.length ∧ ∀ (i : Nat) (b : Reading), bs[i]? = some b →
        ∃ a, as[i]? = some a ∧ a.Alike b := by
  intro as
  induction as with
  | nil =>
    intro bs h _ _
    cases bs with
    | nil => exact ⟨rfl, fun i b hb => by simp at hb⟩
    | cons b bs => exact absurd h Bool.false_ne_true
  | cons a as ih =>
    intro bs h has hbs
    cases bs with
    | nil => exact absurd h Bool.false_ne_true
    | cons b bs =>
      rw [equalLists, Bool.and_eq_true] at h
      obtain ⟨hlen, hall⟩ := ih h.2 (fun a' ha' => has a' (List.mem_cons_of_mem _ ha'))
        fun b' hb' => hbs b' (List.mem_cons_of_mem _ hb')
      refine ⟨by simp [hlen], fun i b' hb' => ?_⟩
      cases i with
      | zero =>
        cases hb'
        exact ⟨a, rfl, alike_of_equal h.1 (has a List.mem_cons_self) (hbs b List.mem_cons_self)⟩
      | succ i => exact hall i b' hb'

end Reading

end BatteryMonitor
