import BatteryMonitor.Proofs.Value
import BatteryMonitor.Snapshot

/-!
# Snapshots and their records

A record is a table, and what stands under each of its keys is what the snapshot has in the field
(`Snapshot.find?_health` and so on).

Two snapshots may count as the same without being equal, and may differ without it being seen in
their records.  Neither is so if their fields hold values of the kinds that they are meant to hold:

* snapshots that are the same make the same record (`Snapshot.Plain.toRecord_eq`);
* snapshots that make the same record are equal (`Snapshot.Exact.eq_of_toRecord_eq`), so that being
  the same is making the same record (`Snapshot.Exact.same_iff`).  That takes a little more, since
  only the truth of the two flags at the end of a record is seen in it.
-/

namespace BatteryMonitor

theorem Rating.word_injective : Function.Injective word := by
  intro a b h
  cases a <;> cases b <;> first | rfl | exact absurd h (by decide)

namespace Snapshot

/-! ### The members of a record -/

theorem find?_rated (key key' : String) (rating : Option Rating) :
    (rated key rating).find? (.text key') =
      if key = key' then rating.map fun rating => .text rating.word else none := by
  cases rating <;> simp [rated, Table.find?, Key.same]

theorem find?_optional (present : Bool) (key key' : String) (v : Value) :
    (optional present key v).find? (.text key') =
      if present = true ∧ key = key' then some v else none := by
  cases present <;> simp [optional, Table.find?, Key.same]

variable (s : Snapshot)

theorem find?_health :
    s.toRecord.find? (.text "BatteryHealth") = s.health.map fun rating => .text rating.word := by
  simp [toRecord, Table.find?_append, find?_rated, find?_optional, Table.find?, Key.same]

theorem find?_confidence : s.toRecord.find? (.text "HealthConfidence") =
    s.healthConfidence.map fun rating => .text rating.word := by
  simp [toRecord, Table.find?_append, find?_rated, find?_optional, Table.find?, Key.same]

theorem find?_failure : s.toRecord.find? (.text "Failure") =
    if s.failure.isNull then none else some s.failure := by
  cases hnull : s.failure.isNull <;>
    simp [toRecord, Table.find?_append, find?_rated, find?_optional, Table.find?, Key.same, hnull]

theorem find?_chargeStatus : s.toRecord.find? (.text "ChargeStatus") =
    if s.chargeStatus.isNull then none else some s.chargeStatus := by
  cases hnull : s.chargeStatus.isNull <;>
    simp [toRecord, Table.find?_append, find?_rated, find?_optional, Table.find?, Key.same, hnull]

theorem find?_provides : s.toRecord.find? (.text "Battery Provides Time Remaining") =
    if s.batteryProvidesTimeRemaining.truth then some (.bool true) else none := by
  simp [toRecord, Table.find?_append, find?_rated, find?_optional, Table.find?, Key.same]

theorem find?_waiting : s.toRecord.find? (.text "Waiting For Time Remaining Estimates") =
    if s.waitingForEstimates.truth then some (.bool true) else none := by
  simp [toRecord, Table.find?_append, find?_rated, find?_optional, Table.find?, Key.same]

/-! ### Fields of fixed kinds -/

/-- A snapshot whose fields are of the kinds that they are meant to be of.  What says whether the
battery provides its time remaining may be anything, since only its truth is published. -/
structure Plain (s : Snapshot) : Prop where
  isPresent : s.isPresent.isKind .bool
  powerSourceState : s.powerSourceState.isKind .text
  currentCapacity : s.currentCapacity.isKind .int
  maxCapacity : s.maxCapacity.isKind .int
  isCharging : s.isCharging.isKind .bool
  timeToEmpty : s.timeToEmpty.isKind .int
  timeToFullCharge : s.timeToFullCharge.isKind .int
  name : s.name.isKind .text
  transportType : s.transportType.isKind .text
  failure : s.failure.isOptional .text
  chargeStatus : s.chargeStatus.isOptional .text

/-- A snapshot all of whose fields are of fixed kinds but those that say what the telemetry said.
Every snapshot that is built is one. -/
structure Built (s : Snapshot) : Prop where
  isPresent : s.isPresent.isKind .bool
  powerSourceState : s.powerSourceState.isKind .text
  currentCapacity : s.currentCapacity.isKind .int
  maxCapacity : s.maxCapacity.isKind .int
  isCharging : s.isCharging.isKind .bool
  timeToEmpty : s.timeToEmpty.isKind .int
  timeToFullCharge : s.timeToFullCharge.isKind .int
  transportType : s.transportType.isKind .text

theorem Plain.built {s : Snapshot} (h : s.Plain) : s.Built :=
  ⟨h.isPresent, h.powerSourceState, h.currentCapacity, h.maxCapacity, h.isCharging, h.timeToEmpty,
    h.timeToFullCharge, h.transportType⟩

open Value in
/-- A snapshot that is the same as a plain one makes the same record, whatever its telemetry said:
nothing but a text is the same as a text. -/
theorem Built.toRecord_eq {a b : Snapshot} (ha : a.Built) (hb : b.Plain)
    (h : a.same b = true) : a.toRecord = b.toRecord := by
  simp only [same, Bool.and_eq_true, beq_iff_eq] at h
  obtain ⟨⟨⟨⟨⟨⟨⟨⟨⟨⟨⟨⟨⟨⟨hpresent, hsource⟩, hcurrent⟩, hmax⟩, hcharging⟩, hempty⟩, hfull⟩, hname⟩,
    htransport⟩, hhealth⟩, hconfidence⟩, hfailure⟩, hstatus⟩, hprovides⟩, hwaiting⟩ := h
  have heq {kind : Kind} {v w : Value} (hsame : v.same w = true) (hv : v.isKind kind = true)
      (hw : w.isKind kind = true) : v = w :=
    eq_of_same hsame (isOptional_of_isKind hv) (isOptional_of_isKind hw)
  simp only [toRecord, heq hpresent ha.isPresent hb.isPresent,
    heq hsource ha.powerSourceState hb.powerSourceState,
    heq hcurrent ha.currentCapacity hb.currentCapacity, heq hmax ha.maxCapacity hb.maxCapacity,
    heq hcharging ha.isCharging hb.isCharging, heq hempty ha.timeToEmpty hb.timeToEmpty,
    heq hfull ha.timeToFullCharge hb.timeToFullCharge,
    eq_of_same_text hname (isOptional_of_isKind hb.name),
    heq htransport ha.transportType hb.transportType, hhealth, hconfidence,
    eq_of_same_text hfailure hb.failure, eq_of_same_text hstatus hb.chargeStatus,
    truth_eq_of_same hprovides, truth_eq_of_same hwaiting]

/-- **Snapshots that are the same make the same record**, as long as their fields are of fixed
kinds. -/
theorem Plain.toRecord_eq {a b : Snapshot} (ha : a.Plain) (hb : b.Plain)
    (h : a.same b = true) : a.toRecord = b.toRecord :=
  ha.built.toRecord_eq hb h

/-- A snapshot all of whose fields are of the kinds that they are meant to be of. -/
structure Exact (s : Snapshot) : Prop extends s.Plain where
  batteryProvidesTimeRemaining : s.batteryProvidesTimeRemaining.isKind .bool
  waitingForEstimates : s.waitingForEstimates.isKind .bool

namespace Exact

variable {a b : Snapshot}

theorem same_self (ha : a.Exact) : a.same a = true := by
  have hsame {kind : Kind} {v : Value} (hv : v.isKind kind = true) : v.same v = true :=
    Value.same_self (Value.isOptional_of_isKind hv)
  simp only [same, Bool.and_eq_true, beq_iff_eq, hsame ha.isPresent, hsame ha.powerSourceState,
    hsame ha.currentCapacity, hsame ha.maxCapacity, hsame ha.isCharging, hsame ha.timeToEmpty,
    hsame ha.timeToFullCharge, hsame ha.name, hsame ha.transportType,
    hsame ha.batteryProvidesTimeRemaining, hsame ha.waitingForEstimates,
    Value.same_self ha.failure, Value.same_self ha.chargeStatus, and_self]

/-- **Snapshots that make the same record are equal.** -/
theorem eq_of_toRecord_eq (ha : a.Exact) (hb : b.Exact) (h : a.toRecord = b.toRecord) : a = b := by
  have hmember (key : String) : a.toRecord.find? (.text key) = b.toRecord.find? (.text key) := by
    rw [h]
  have hrating : Function.Injective fun rating : Rating => Value.text rating.word :=
    fun _ _ hword => Rating.word_injective (Text.whole.inj (Value.text.inj hword))
  have hoptional {v w : Value}
      (hvw : (if v.isNull then none else some v) = if w.isNull then none else some w) : v = w := by
    cases v <;> cases w <;> simp_all [Value.isNull]
  have hflag {v w : Value} (hv : v.isKind .bool = true) (hw : w.isKind .bool = true)
      (hvw : (if v.truth then some (Value.bool true) else none) =
        if w.truth then some (.bool true) else none) : v = w := by
    obtain ⟨c, rfl⟩ := Value.exists_bool hv
    obtain ⟨d, rfl⟩ := Value.exists_bool hw
    cases c <;> cases d <;> simp_all [Value.truth]
  have hhealth := a.find?_health.symm.trans ((hmember _).trans b.find?_health)
  have hconfidence := a.find?_confidence.symm.trans ((hmember _).trans b.find?_confidence)
  have hfailure := a.find?_failure.symm.trans ((hmember _).trans b.find?_failure)
  have hstatus := a.find?_chargeStatus.symm.trans ((hmember _).trans b.find?_chargeStatus)
  have hprovides := a.find?_provides.symm.trans ((hmember _).trans b.find?_provides)
  have hwaiting := a.find?_waiting.symm.trans ((hmember _).trans b.find?_waiting)
  -- the members that are always there come first in a record
  simp only [toRecord, List.cons_append, List.nil_append, List.cons.injEq, Prod.mk.injEq,
    true_and] at h
  obtain ⟨htransport, hsource, hpresent, hcurrent, hmax, hcharging, hempty, hfull, hname, -⟩ := h
  obtain ⟨_, _, _, _, _, _, _, _, _, _, _, _, _, _, _⟩ := a
  obtain ⟨_, _, _, _, _, _, _, _, _, _, _, _, _, _, _⟩ := b
  simp only [Snapshot.mk.injEq]
  exact ⟨hpresent, hsource, hcurrent, hmax, hcharging, hempty, hfull, hname, htransport,
    Option.map_injective hrating hhealth, Option.map_injective hrating hconfidence,
    hoptional hfailure, hoptional hstatus,
    hflag ha.batteryProvidesTimeRemaining hb.batteryProvidesTimeRemaining hprovides,
    hflag ha.waitingForEstimates hb.waitingForEstimates hwaiting⟩

/-- **Two snapshots are the same iff they make the same record.** -/
theorem same_iff (ha : a.Exact) (hb : b.Exact) : a.same b = true ↔ a.toRecord = b.toRecord :=
  ⟨ha.toRecord_eq hb.toPlain, fun h => ha.eq_of_toRecord_eq hb h ▸ ha.same_self⟩

end Exact

end Snapshot

end BatteryMonitor
