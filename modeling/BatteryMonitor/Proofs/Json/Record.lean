import BatteryMonitor.Proofs.Binary64
import BatteryMonitor.Proofs.Effect
import BatteryMonitor.Proofs.Json.Integer
import BatteryMonitor.Proofs.Json.Portable
import BatteryMonitor.Proofs.Vitals

/-!
# Text carries published records

The members of a record come under different keys (`Snapshot.distinct_toRecord`), its texts are texts,
its times are at most ten hours, and its capacities come from doubles, none of which is beyond `2^1024`
(`Binary64.exists_pow_of_real`), so that none of its integers is too long for a text.  Hence text can
carry the record of every well-typed reading (`Reading.flat_report`).
-/

namespace BatteryMonitor

/-! ### Integers made of doubles -/

/-- **No double that is a number is beyond the last power of two.** -/
theorem Binary64.exists_pow_of_real {x : Binary64} {q : ℚ} (h : x.value = .real q) :
    ∃ k ≤ 1024, |q| ≤ 2 ^ k := by
  obtain ⟨negative, m, e, hcanonical, rfl, rfl⟩ := exists_finite h
  obtain ⟨hfull, -, hmost, -⟩ := hcanonical
  have hfull' : (m : ℚ) ≤ 2 ^ 53 := by exact_mod_cast hfull.le
  have hpow : (2 : ℚ) ^ e ≤ 2 ^ e.toNat := by
    rw [← zpow_natCast]
    exact zpow_le_zpow_right₀ one_le_two (Int.self_le_toNat e)
  have hvalue : |scaled (if negative then -(m : Int) else m) e| = m * (2 : ℚ) ^ e := by
    have hsize : (0 : ℚ) ≤ m * 2 ^ e := by positivity
    rw [scaled_eq]
    cases negative <;> simp [abs_of_nonneg hsize]
  refine ⟨53 + e.toNat, by omega, ?_⟩
  rw [hvalue, pow_add]
  gcongr

theorem Binary64.natAbs_floor {x : Binary64} {n : Int} (h : x.floor = .ok n) :
    ∃ k ≤ 1024, n.natAbs ≤ 2 ^ k := by
  unfold floor toInteger at h
  split at h
  · rename_i q hq
    obtain rfl := Except.ok.inj h
    obtain ⟨k, hk, hbound⟩ := exists_pow_of_real hq
    obtain ⟨hlower, hupper⟩ := abs_le.1 hbound
    have hfloor : |q.floor| ≤ 2 ^ k :=
      abs_le.2 ⟨Rat.le_floor_iff.2 (by exact_mod_cast hlower),
        by exact_mod_cast (Rat.floor_le q).trans hupper⟩
    rw [Int.abs_eq_natAbs] at hfloor
    exact ⟨k, hk, by exact_mod_cast hfloor⟩
  · cases h
  · cases h
  · cases h

theorem Number.withinLimit_roundAway {x : Number} {n : Int} (h : x.roundAway = .ok n) :
    Decimal.withinLimit n = true := by
  obtain ⟨size, -, h⟩ := bind_eq_ok.1 h
  obtain ⟨magnitude, hfloor, h⟩ := bind_eq_ok.1 h
  obtain ⟨sign, -, h⟩ := bind_eq_ok.1 h
  obtain ⟨k, hk, hbound⟩ := Binary64.natAbs_floor hfloor
  obtain rfl := Except.ok.inj h
  refine Decimal.withinLimit_of_le hk ?_
  split
  · rwa [Int.natAbs_neg]
  · exact hbound

theorem Reading.withinLimit_capacityPercentages {r : Reading} {capacity : Int × Int}
    (h : r.capacityPercentages = .ok capacity) :
    Decimal.withinLimit capacity.1 = true ∧ Decimal.withinLimit capacity.2 = true := by
  have hsmall {n : Int} (hn : n.natAbs ≤ 100) : Decimal.withinLimit n = true :=
    Decimal.withinLimit_of_le (k := 7) (by decide) (hn.trans (by decide))
  unfold capacityPercentages at h
  split at h
  · cases h
    exact ⟨hsmall (by decide), hsmall (by decide)⟩
  · obtain ⟨current, -, h⟩ := bind_eq_ok.1 h
    obtain ⟨product, -, h⟩ := bind_eq_ok.1 h
    obtain ⟨maximum, -, h⟩ := bind_eq_ok.1 h
    obtain ⟨quotient, -, h⟩ := bind_eq_ok.1 h
    obtain ⟨charge, hcharge, h⟩ := bind_eq_ok.1 h
    obtain rfl := Except.ok.inj h
    refine ⟨?_, hsmall (n := 100) (by decide)⟩
    dsimp only
    split
    · exact hsmall (by decide)
    · exact Number.withinLimit_roundAway hcharge

/-! ### The members of a record -/

namespace Snapshot

theorem entries_rated (key : String) (rating : Option Rating) :
    ((rated key rating).map (·.1.entry)).Sublist [.text key] := by
  cases rating with
  | none => exact List.nil_sublist _
  | some rating => exact List.Sublist.refl _

theorem entries_optional (present : Bool) (key : String) (v : Value) :
    ((optional present key v).map (·.1.entry)).Sublist [.text key] := by
  cases present with
  | false => exact List.nil_sublist _
  | true => exact List.Sublist.refl _

/-- **No key comes twice in a record.** -/
theorem distinct_toRecord (s : Snapshot) : s.toRecord.Distinct := by
  -- the keys that are there are some of those that can be
  have hsublist : (s.toRecord.map (·.1.entry)).Sublist
      ((["Transport Type", "Power Source State", "Is Present", "Current Capacity", "Max Capacity",
        "Is Charging", "Time to Empty", "Time to Full Charge", "Name"] : List String).map Entry.text ++
        [.text "BatteryHealth"] ++ [.text "HealthConfidence"] ++ [.text "Failure"] ++
        [.text "ChargeStatus"] ++ [.text "Battery Provides Time Remaining"] ++
        [.text "Waiting For Time Remaining Estimates"]) := by
    simp only [toRecord, List.map_append]
    refine ((((((List.Sublist.append ?_ (entries_rated ..)).append (entries_rated ..)).append
      (entries_optional ..)).append (entries_optional ..)).append (entries_optional ..)).append
      (entries_optional ..))
    exact List.Sublist.refl _
  exact List.Nodup.sublist hsublist (by decide)

variable {P : Value → Prop}

/-- What holds of all texts, of truth and of the fields of a snapshot holds of the members of its
record, whose keys are texts. -/
theorem forall_toRecord {s : Snapshot} (htext : ∀ t, P (.text t)) (htrue : P (.bool true))
    (htransport : P s.transportType) (hsource : P s.powerSourceState) (hpresent : P s.isPresent)
    (hcurrent : P s.currentCapacity) (hmax : P s.maxCapacity) (hcharging : P s.isCharging)
    (hempty : P s.timeToEmpty) (hfull : P s.timeToFullCharge) (hname : P s.name)
    (hfailure : P s.failure) (hstatus : P s.chargeStatus) :
    ∀ p ∈ s.toRecord, p.1.isText = true ∧ P p.2 := by
  have hrated (key : String) (rating : Option Rating) :
      ∀ p ∈ rated key rating, p.1.isText = true ∧ P p.2 := by
    cases rating with
    | none => exact List.forall_mem_nil _
    | some rating => exact List.forall_mem_singleton.2 ⟨rfl, htext _⟩
  have hoptional (present : Bool) (key : String) {v : Value} (hv : P v) :
      ∀ p ∈ optional present key v, p.1.isText = true ∧ P p.2 := by
    cases present with
    | false => exact List.forall_mem_nil _
    | true => exact List.forall_mem_singleton.2 ⟨rfl, hv⟩
  simp only [toRecord, List.forall_mem_append]
  refine ⟨⟨⟨⟨⟨⟨?_, hrated _ _⟩, hrated _ _⟩, hoptional _ _ hfailure⟩, hoptional _ _ hstatus⟩,
    hoptional _ _ htrue⟩, hoptional _ _ htrue⟩
  simp only [List.forall_mem_cons]
  exact ⟨⟨rfl, htransport⟩, ⟨rfl, hsource⟩, ⟨rfl, hpresent⟩, ⟨rfl, hcurrent⟩, ⟨rfl, hmax⟩,
    ⟨rfl, hcharging⟩, ⟨rfl, hempty⟩, ⟨rfl, hfull⟩, ⟨rfl, hname⟩, List.forall_mem_nil _⟩

end Snapshot

theorem Value.isLegible_of_isOptional {v : Value} (h : v.isOptional .text = true) (depth : Nat) :
    v.isLegible depth = true := by
  cases v with
  | null => exact isLegible_null
  | text s => exact isLegible_text s
  | bool _ | int _ | float _ | list _ | object _ => exact absurd h Bool.false_ne_true

/-- Text can carry the members, and there is no container among them. -/
def Table.Flat (members : Table Value) : Prop :=
  (Value.object members).isLegible 1 = true

theorem Value.sorted_of_isLegible {v : Value} (h : v.isLegible 0 = true) : v.sorted = v := by
  cases v with
  | null | bool _ | int _ | float _ | text _ => rfl
  | list _ | object _ => exact absurd (levels_eq_zero h) (Nat.succ_ne_zero _)

/-- **Where there is no container among the members, their order does not matter to any key.** -/
theorem Table.Flat.find?_inOrder {members : Table Value} (h : members.Flat) (k : Key) :
    (Value.inOrder (Value.sortedMembers members)).find? k = members.find? k := by
  obtain ⟨hdistinct, hmembers⟩ := Value.isLegible_object_iff.1 h
  rw [Value.find?_inOrder hdistinct]
  cases hfind : members.find? k with
  | none => rfl
  | some v =>
    obtain ⟨l, -, hmem⟩ := (Table.find?_eq_some_iff hdistinct).1 hfind
    exact congrArg some (Value.sorted_of_isLegible (hmembers _ hmem).2)

/-- **Text can carry the record of a well-typed reading**, if the time remaining is one that can be
estimated. -/
theorem Reading.flat_report {r : Reading} {s : BatteryState} {c : Conditions} {now : Binary64}
    {minutes : Int} {snapshot : Snapshot} {latched : Bool} (hr : r.isWellTyped = true)
    (hminutes : minutes = -1 ∨ 0 ≤ minutes ∧ minutes ≤ 600) (htime : s.timeRemaining = .int minutes)
    (h : r.report s c now = .ok (snapshot, latched)) : snapshot.toRecord.Flat := by
  have hplain := plain_report hr htime h
  obtain ⟨capacity, health, hcapacity, -, hsnapshot⟩ := report_eq_ok h
  obtain ⟨hcurrent, hmax⟩ := withinLimit_capacityPercentages hcapacity
  rw [htime, timeFields_eq r minutes capacity] at hsnapshot
  obtain ⟨⟨hempty, hempty'⟩, ⟨hfull, hfull'⟩, -⟩ :=
    timely_vitals r capacity hminutes
  have htimes {t : Int} (hlower : -1 ≤ t) (hupper : t ≤ 600) : Decimal.withinLimit t = true :=
    Decimal.withinLimit_of_le (k := 10) (by decide) ((by omega : t.natAbs ≤ 600).trans (by decide))
  have htext {v : Value} (hv : v.isOptional .text = true) : v.isLegible 0 = true :=
    Value.isLegible_of_isOptional hv 0
  refine Value.isLegible_object_iff.2 ⟨snapshot.distinct_toRecord, ?_⟩
  refine Snapshot.forall_toRecord (P := fun v : Value => v.isLegible 0 = true)
    (fun _ => Value.isLegible_text _) (Value.isLegible_bool _)
    (htext (Value.isOptional_of_isKind hplain.transportType))
    (htext (Value.isOptional_of_isKind hplain.powerSourceState)) ?_ ?_ ?_ ?_ ?_ ?_
    (htext (Value.isOptional_of_isKind hplain.name)) (htext hplain.failure)
    (htext hplain.chargeStatus)
  all_goals rw [hsnapshot]
  · exact Value.isLegible_bool _
  · exact Value.isLegible_int_iff.2 hcurrent
  · exact Value.isLegible_int_iff.2 hmax
  · exact Value.isLegible_bool _
  · exact Value.isLegible_int_iff.2 (htimes hempty hempty')
  · exact Value.isLegible_int_iff.2 (htimes hfull hfull')

end BatteryMonitor
