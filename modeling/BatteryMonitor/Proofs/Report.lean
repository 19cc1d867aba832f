import BatteryMonitor.Proofs.Health
import BatteryMonitor.Proofs.Snapshot
import BatteryMonitor.Report

/-!
# Keys and snapshots of well-typed readings

Facts about reports that hold whatever a monitor does with them:

* The keys of a list of readings (`Reading.effectiveKeys`) are never nothing, and when they are
  distinct (`Reading.DistinctKeys`) no entry belongs to two indices
  (`Reading.DistinctKeys.eq_of_entryOf?`).
* A reading comes from outside and may hold anything in any field.  If its fields hold what they
  are meant to hold (`Reading.isWellTyped`), then so do those of its snapshot
  (`Reading.plain_report`, `Reading.exact_report`); what the snapshot does not hand on of it is of
  fixed kinds in any case (`Reading.built_report`).
* An estimate and a snapshot look at the conditions only for whether estimates are suppressed and
  whether the battery's own estimate is used (`Reading.estimate_congr`, `Reading.report_congr`),
  and a snapshot that is built again is the same (`Reading.report_latched`).
* While estimates are suppressed every estimate is indeterminate
  (`Reading.estimate_eq_indeterminate`), and a snapshot of it gives a battery that is present no
  time (`Reading.report_indeterminate`).
-/

namespace BatteryMonitor

/-! ### Well-typed readings and their snapshots -/

namespace Reading

/-- Every field holds what it is meant to hold. -/
def isWellTyped (r : Reading) : Bool :=
  r.isPresent.isKind .bool && r.externalConnected.isKind .bool && r.isCharging.isKind .bool &&
  r.currentCapacity.isInteger && r.maxCapacity.isInteger &&
  (r.designCapacity.isNull || r.designCapacity.isInteger) && r.cycleCount.isInteger &&
  r.avgAmperage.isInteger && r.instantAmperage.isInteger && r.hasInstantAmperage.isKind .bool &&
  (r.firmwareTimeRemaining.isNull || r.firmwareTimeRemaining.isInteger) &&
  r.errorCondition.isOptional .text && r.failure.isOptional .text &&
  r.chargeStatus.isOptional .text && r.name.isOptional .text && r.invalidWakeSecs.isInteger &&
  r.storeKey.isOptional .text

theorem isKind_timeFields (r : Reading) (minutes : Int) :
    (r.timeFields (.int minutes)).2.1.isKind .int ∧
      (r.timeFields (.int minutes)).2.2.isKind .int := by
  unfold timeFields
  split
  · exact ⟨rfl, rfl⟩
  · split
    · exact ⟨rfl, rfl⟩
    · split
      · exact ⟨rfl, rfl⟩
      · split <;> exact ⟨rfl, rfl⟩

theorem report_eq_ok {r : Reading} {s : BatteryState} {c : Conditions} {now : Binary64}
    {snapshot : Snapshot} {latched : Bool} (h : r.report s c now = .ok (snapshot, latched)) :
    ∃ capacity health, r.capacityPercentages = .ok capacity ∧
      r.classify s.latched = .ok (health, latched) ∧ snapshot =
        { isPresent := .bool r.isPresent.truth
          powerSourceState := .text (if r.externalConnected.truth then acPower else batteryPower)
          currentCapacity := .int capacity.1
          maxCapacity := .int capacity.2
          isCharging := .bool (r.timeFields s.timeRemaining).1
          timeToEmpty := (r.timeFields s.timeRemaining).2.1
          timeToFullCharge := (r.timeFields s.timeRemaining).2.2
          name := if r.name.truth then r.name else .text unnamed
          health := health.rating
          healthConfidence := health.confidence
          failure := r.failure
          chargeStatus := r.chargeStatus
          batteryProvidesTimeRemaining := c.useFirmware
          waitingForEstimates := .bool (c.isIgnoring now) } := by
  unfold report at h
  cases hcapacity : r.capacityPercentages with
  | error fault => rw [hcapacity] at h; cases h
  | ok capacity =>
    cases hhealth : r.classify s.latched with
    | error fault => rw [hcapacity, hhealth] at h; cases h
    | ok health =>
      rw [hcapacity, hhealth] at h
      cases h
      exact ⟨capacity, health.1, rfl, rfl, rfl⟩

theorem built_report {r : Reading} {s : BatteryState} {c : Conditions} {now : Binary64}
    {minutes : Int} {snapshot : Snapshot} {latched : Bool} (hs : s.timeRemaining = .int minutes)
    (h : r.report s c now = .ok (snapshot, latched)) : snapshot.Built := by
  obtain ⟨capacity, health, -, -, rfl⟩ := report_eq_ok h
  rw [hs]
  obtain ⟨hempty, hfull⟩ := r.isKind_timeFields minutes
  exact ⟨rfl, rfl, rfl, rfl, rfl, hempty, hfull, rfl⟩

theorem plain_report {r : Reading} {s : BatteryState} {c : Conditions} {now : Binary64}
    {minutes : Int} {snapshot : Snapshot} {latched : Bool} (hr : r.isWellTyped)
    (hs : s.timeRemaining = .int minutes) (h : r.report s c now = .ok (snapshot, latched)) :
    snapshot.Plain := by
  simp only [isWellTyped, Bool.and_eq_true] at hr
  obtain ⟨⟨⟨⟨⟨-, hfailure⟩, hstatus⟩, hname⟩, -⟩, -⟩ := hr
  have hbuilt := built_report hs h
  obtain ⟨capacity, health, -, -, rfl⟩ := report_eq_ok h
  refine ⟨hbuilt.isPresent, hbuilt.powerSourceState, hbuilt.currentCapacity, hbuilt.maxCapacity,
    hbuilt.isCharging, hbuilt.timeToEmpty, hbuilt.timeToFullCharge, ?_, hbuilt.transportType,
    hfailure, hstatus⟩
  -- a name that counts as true is a text; any other is replaced by one
  dsimp only
  split
  · rename_i htruth
    cases hkind : r.name with
    | text => rfl
    | null => rw [hkind] at htruth; exact absurd htruth Bool.false_ne_true
    | bool | int | float | list | object => rw [hkind] at hname; exact hname
  · rfl

/-- The snapshot of a well-typed reading is exact as long as it is a truth value that says whether the
battery provides its time remaining. -/
theorem exact_report {r : Reading} {s : BatteryState} {c : Conditions} {now : Binary64}
    {minutes : Int} {snapshot : Snapshot} {latched : Bool} (hr : r.isWellTyped)
    (hs : s.timeRemaining = .int minutes) (hc : c.useFirmware.isKind .bool = true)
    (h : r.report s c now = .ok (snapshot, latched)) : snapshot.Exact := by
  have hplain := plain_report hr hs h
  obtain ⟨capacity, health, -, -, rfl⟩ := report_eq_ok h
  exact ⟨hplain, hc, rfl⟩

/-! ### What estimates and reports look at -/

section Congruence

variable {r : Reading} {s s' : BatteryState} {c c' : Conditions} {now now' : Binary64}

theorem estimate_congr (r : Reading) (hfirmware : c.useFirmware = c'.useFirmware)
    (hignoring : c.isIgnoring now = c'.isIgnoring now') :
    r.estimate c now = r.estimate c' now' := by
  simp only [estimate, rawMinutes, hfirmware, hignoring]

theorem report_congr (r : Reading) (htime : s.timeRemaining = s'.timeRemaining)
    (hlatched : s.latched = s'.latched) (hfirmware : c.useFirmware = c'.useFirmware)
    (hignoring : c.isIgnoring now = c'.isIgnoring now') :
    r.report s c now = r.report s' c' now' := by
  simp only [report, htime, hlatched, hfirmware, hignoring]

/-- **A snapshot that is built again is the same**, and so is the latch after it. -/
theorem report_latched {snapshot : Snapshot} {latched : Bool}
    (h : r.report s c now = .ok (snapshot, latched)) :
    r.report { s with latched } c now = .ok (snapshot, latched) := by
  obtain ⟨capacity, health, hcapacity, hhealth, rfl⟩ := report_eq_ok h
  rw [report, hcapacity, show r.classify latched = .ok (health, latched) from
    classify_latched hhealth]
  rfl

end Congruence

/-! ### Estimates -/

/-- **What an estimate is**: indeterminate, or minutes that were checked while estimates were not
suppressed. -/
theorem estimate_cases {r : Reading} {c : Conditions} {now : Binary64} {minutes : Int}
    (h : r.estimate c now = .ok minutes) : minutes = indeterminate ∨
      c.isIgnoring now = false ∧ ∃ raw, r.rawMinutes c = .ok raw ∧ minutes = clampMinutes raw := by
  unfold estimate at h
  -- what comes before the checks are readings that may stop with a fault
  cases hbounds : r.amperageBounds with
  | error fault => rw [hbounds] at h; cases h
  | ok bounds =>
    simp only [hbounds, bind, Except.bind, pure, Except.pure] at h
    split at h
    · exact .inl (Except.ok.inj h).symm
    · cases hsize : r.avgAmperage.number with
      | error fault => rw [hsize] at h; cases h
      | ok size =>
        simp only [hsize] at h
        split at h
        · exact .inl (Except.ok.inj h).symm
        · rename_i hcheck
          cases hraw : r.rawMinutes c with
          | error fault => rw [hraw] at h; cases h
          | ok raw =>
            rw [hraw] at h
            rw [Bool.or_eq_true, not_or] at hcheck
            exact .inr ⟨eq_false_of_ne_true hcheck.2, raw, rfl, (Except.ok.inj h).symm⟩

theorem estimate_eq_indeterminate {r : Reading} {c : Conditions} {now : Binary64} {minutes : Int}
    (hignoring : c.isIgnoring now = true) (h : r.estimate c now = .ok minutes) :
    minutes = indeterminate := by
  rcases estimate_cases h with hminutes | ⟨hopen, -⟩
  · exact hminutes
  · exact absurd (hignoring.symm.trans hopen) (by decide)

theorem estimate_range {r : Reading} {c : Conditions} {now : Binary64} {minutes : Int}
    (h : r.estimate c now = .ok minutes) : minutes = -1 ∨ 0 ≤ minutes ∧ minutes ≤ 600 := by
  rcases estimate_cases h with rfl | ⟨-, raw, -, rfl⟩
  · exact .inl rfl
  · unfold clampMinutes
    split
    · exact .inl rfl
    · exact .inr ⟨Int.le_min.2 ⟨by omega, by decide⟩, Int.min_le_right _ _⟩

theorem report_indeterminate {r : Reading} {s : BatteryState} {c : Conditions} {now : Binary64}
    {snapshot : Snapshot} {latched : Bool} (hs : s.timeRemaining = .int indeterminate)
    (h : r.report s c now = .ok (snapshot, latched)) :
    snapshot.waitingForEstimates = .bool (c.isIgnoring now) ∧
      (r.isPresent.truth = true → snapshot.timeToEmpty = .int indeterminate ∧
        snapshot.timeToFullCharge = .int indeterminate) := by
  obtain ⟨capacity, health, -, -, rfl⟩ := report_eq_ok h
  refine ⟨rfl, fun hpresent => ?_⟩
  have hminutes : (Value.int indeterminate).equalsInt indeterminate = true := by decide
  simp only [hs, timeFields, hpresent, hminutes, Bool.not_true, if_true]
  exact ⟨rfl, rfl⟩

end Reading

/-! ### The keys of a list of readings -/

namespace Decimal

theorem foldl_digitsOnto (n : Nat) (rest : List Char) :
    (digitsOnto n rest).foldl (fun m c => 10 * m + (c.toNat - '0'.toNat)) 0 =
      rest.foldl (fun m c => 10 * m + (c.toNat - '0'.toNat)) n := by
  have hvalue : ∀ d < 10, (Char.ofNat ('0'.toNat + d)).toNat - '0'.toNat = d := by decide
  have hdigit (d : Nat) : (digitChar d).toNat - '0'.toNat = d % 10 :=
    hvalue (d % 10) (Nat.mod_lt d (by decide))
  induction n, rest using digitsOnto.induct with
  | case1 n rest hn =>
    rw [digitsOnto, if_pos hn, List.foldl_cons, hdigit, Nat.mod_eq_of_lt hn]
    simp
  | case2 n rest hn ih =>
    rw [digitsOnto, if_neg hn, ih, List.foldl_cons, hdigit, Nat.mod_mod]
    congr 1
    omega

theorem digits_injective : Function.Injective digits := by
  intro m n h
  have hread (k : Nat) : (digits k).foldl (fun m c => 10 * m + (c.toNat - '0'.toNat)) 0 = k :=
    foldl_digitsOnto k []
  rw [← hread m, h, hread n]

end Decimal

namespace Reading

theorem effectiveKey_isNull (i : Int) (r : Reading) : (r.effectiveKey i).isNull = false := by
  unfold effectiveKey
  split
  · rename_i htruth
    cases hkey : r.storeKey with
    | null => rw [hkey] at htruth; exact absurd htruth Bool.false_ne_true
    | bool | int | float | text | list | object => rfl
  · rfl

theorem effectiveKey_isKind {r : Reading} (h : r.storeKey.isOptional .text = true) (i : Int) :
    (r.effectiveKey i).isKind .text = true := by
  unfold effectiveKey
  split
  · rename_i htruth
    cases hkey : r.storeKey with
    | text _ => rfl
    | null => rw [hkey] at htruth; exact absurd htruth Bool.false_ne_true
    | bool | int | float | list | object => rw [hkey] at h; exact absurd h Bool.false_ne_true
  · rfl

theorem isOptional_storeKey_of_isWellTyped {r : Reading} (h : r.isWellTyped = true) :
    r.storeKey.isOptional .text = true := by
  rw [isWellTyped, Bool.and_eq_true] at h
  exact h.2

theorem exists_name {r : Reading} (h : r.storeKey.isOptional .text = true) (i : Int) :
    ∃ name, r.effectiveKey i = .text name :=
  Value.exists_text (effectiveKey_isKind h i)

/-- The keys that the readings of a list are published under. -/
def effectiveKeys (rs : List Reading) : List Value :=
  rs.mapIdx fun i r => r.effectiveKey i

/-- No two readings of the list have keys of one entry. -/
def DistinctKeys (rs : List Reading) : Prop :=
  (effectiveKeys rs).Pairwise fun v w => v.sameKey w = false

instance (rs : List Reading) : Decidable (DistinctKeys rs) :=
  inferInstanceAs (Decidable (List.Pairwise _ _))

/-- Every reading is published under the key of its index. -/
def Keyed (keyOf : Nat → Text) (rs : List Reading) : Prop :=
  ∀ (i : Nat) (r : Reading), rs[i]? = some r → r.effectiveKey i = .text (keyOf i)

theorem Keyed.take {keyOf : Nat → Text} {rs : List Reading} (h : Keyed keyOf rs) (n : Nat) :
    Keyed keyOf (rs.take n) := by
  intro i r hr
  rw [List.getElem?_take] at hr
  split at hr
  · exact h i r hr
  · cases hr

/-- The key of an index whose readings name none. -/
def defaultName (i : Nat) : Text :=
  .whole ("InternalBattery-" ++ String.ofList (Decimal.digits i))

theorem keyed_defaultName {rs : List Reading} (h : ∀ r ∈ rs, r.storeKey.truth = false) :
    Keyed defaultName rs := by
  intro i r hr
  rw [effectiveKey, h r (List.mem_of_getElem? hr), if_neg Bool.false_ne_true, Decimal.signedDigits,
    if_neg (by omega)]
  rfl

theorem defaultName_injective : Function.Injective defaultName := by
  intro i j h
  unfold defaultName at h
  have hdigits := (String.append_right_inj _).1 (Text.whole.inj h)
  exact Decimal.digits_injective (String.ofList_injective hdigits)

/-- **No entry belongs to two indices.** -/
theorem DistinctKeys.eq_of_entryOf? {rs : List Reading} (h : DistinctKeys rs) {i j : Nat}
    {r r' : Reading} (hi : rs[i]? = some r) (hj : rs[j]? = some r')
    (hentry : (r.effectiveKey i).entryOf? = (r'.effectiveKey j).entryOf?)
    (hsome : (r.effectiveKey i).entryOf?.isSome) : i = j := by
  obtain ⟨hilen, rfl⟩ := List.getElem?_eq_some_iff.1 hi
  obtain ⟨hjlen, rfl⟩ := List.getElem?_eq_some_iff.1 hj
  have hlt {a b : Nat} (ha : a < rs.length) (hb : b < rs.length) (hab : a < b) :
      ((rs[a]).effectiveKey a).sameKey ((rs[b]).effectiveKey b) = false := by
    have hpair := List.pairwise_iff_getElem.1 h a b (by simpa [effectiveKeys] using ha)
      (by simpa [effectiveKeys] using hb) hab
    simpa [effectiveKeys] using hpair
  rcases Nat.lt_trichotomy i j with hij | hij | hij
  · exact absurd (Value.sameKey_iff.2 ⟨hentry, hsome⟩) (by simp [hlt hilen hjlen hij])
  · exact hij
  · exact absurd (Value.sameKey_iff.2 ⟨hentry.symm, hentry ▸ hsome⟩)
      (by simp [hlt hjlen hilen hij])

end Reading

end BatteryMonitor
