import BatteryMonitor.Proofs.Report

/-!
# The members of a record agree

A record is put together from the estimate, the verdict on the health, the capacities and the
conditions, each of which looks at the presence, the charge and the power source for itself.  All
the same its members agree with each other (`Vitals.Consistent`): a battery that charges has no
time to empty, one that is absent has no health, one whose estimates are suppressed has no times,
and so on.

`Reading.consistent_report` : **so it is for the snapshot of any reading**, whatever values it
holds, as long as the time remaining is the estimate of this reading under the same conditions.
-/

namespace BatteryMonitor

/-- The state of a battery, as a record tells it. -/
structure Vitals where
  isPresent : Bool
  isCharging : Bool
  timeToEmpty : Int
  timeToFull : Int
  currentCapacity : Int
  maxCapacity : Int

namespace Vitals

/-- The members of the record are of the right kinds and tell these vitals. -/
structure ToldBy (v : Vitals) (record : Table Value) : Prop where
  isPresent : record.find? (.text "Is Present") = some (.bool v.isPresent)
  isCharging : record.find? (.text "Is Charging") = some (.bool v.isCharging)
  timeToEmpty : record.find? (.text "Time to Empty") = some (.int v.timeToEmpty)
  timeToFull : record.find? (.text "Time to Full Charge") = some (.int v.timeToFull)
  currentCapacity : record.find? (.text "Current Capacity") = some (.int v.currentCapacity)
  maxCapacity : record.find? (.text "Max Capacity") = some (.int v.maxCapacity)

/-- The times of a record agree with each other and with the charge. -/
structure Timely (v : Vitals) : Prop where
  emptyRange : -1 ≤ v.timeToEmpty ∧ v.timeToEmpty ≤ 600
  fullRange : -1 ≤ v.timeToFull ∧ v.timeToFull ≤ 600
  unknown : v.timeToEmpty = -1 ↔ v.timeToFull = -1
  oneWay : v.timeToEmpty ≤ 0 ∨ v.timeToFull ≤ 0
  filling : 0 < v.timeToFull → v.isCharging = true
  emptying : 0 < v.timeToEmpty → v.isCharging = false
  absent : v.isPresent = false → v.isCharging = false ∧ v.timeToEmpty = 0 ∧ v.timeToFull = 0

/-- **The members of the record agree** with these vitals and with each other. -/
structure Consistent (v : Vitals) (record : Table Value) : Prop where
  told : v.ToldBy record
  timely : v.Timely
  /-- a time to empty is given on battery power only -/
  source : 0 < v.timeToEmpty →
    record.find? (.text "Power Source State") = some (.text "Battery Power")
  /-- while estimates are suppressed a battery has no times -/
  waiting : (record.find? (.text "Waiting For Time Remaining Estimates")).isSome →
    v.isPresent = true → v.timeToEmpty = -1 ∧ v.timeToFull = -1
  /-- the health comes with its confidence -/
  health : (record.find? (.text "BatteryHealth")).isSome =
    (record.find? (.text "HealthConfidence")).isSome
  confidence : ∀ c, record.find? (.text "HealthConfidence") = some c → c = .text "Good"
  poor : record.find? (.text "BatteryHealth") = some (.text "Poor") →
    record.find? (.text "Failure") = some (.text "Permanent Battery Failure")
  absent : v.isPresent = false → record.find? (.text "BatteryHealth") = none ∧
    record.find? (.text "HealthConfidence") = none
  capacity : v.maxCapacity = 0 ∧ v.currentCapacity = 0 ∨ v.maxCapacity = 100

end Vitals

/-- The value is a record whose members agree. -/
def Value.IsConsistent (record : Value) : Prop :=
  ∃ (members : Table Value) (v : Vitals), record = .object members ∧ v.Consistent members

/-! ### The times -/

namespace Reading

variable {r : Reading} {minutes : Int}

/-- What a reading tells of its battery. -/
def vitals (r : Reading) (minutes : Int) (capacity : Int × Int) : Vitals where
  isPresent := r.isPresent.truth
  isCharging := r.isPresent.truth && r.isCharging.truth
  timeToEmpty :=
    if !r.isPresent.truth then 0 else if minutes = -1 then -1
    else if r.isCharging.truth || r.externalConnected.truth then 0 else minutes
  timeToFull :=
    if !r.isPresent.truth then 0 else if minutes = -1 then -1
    else if r.isCharging.truth then minutes else 0
  currentCapacity := capacity.1
  maxCapacity := capacity.2

theorem timeFields_eq (r : Reading) (minutes : Int) (capacity : Int × Int) :
    r.timeFields (.int minutes) = ((r.vitals minutes capacity).isCharging,
      .int (r.vitals minutes capacity).timeToEmpty,
      .int (r.vitals minutes capacity).timeToFull) := by
  have hminutes : (Value.int minutes).equalsInt indeterminate = decide (minutes = -1) := by
    have hreal : (Extended.real minutes).eq (.real indeterminate) = true ↔ minutes = -1 := by
      rw [Extended.eq_iff, Extended.real.injEq, Rat.intCast_inj]
      exact and_iff_left nofun
    rw [Bool.eq_iff_iff, decide_eq_true_iff]
    exact hreal
  unfold timeFields vitals
  rw [hminutes]
  cases r.isPresent.truth <;> cases r.isCharging.truth <;> cases r.externalConnected.truth <;>
    by_cases h : minutes = -1 <;> simp [h, indeterminate]

theorem timeToFull_vitals (capacity : Int × Int) (hpresent : r.isPresent.truth = true)
    (hcharging : r.isCharging.truth = true) : (r.vitals minutes capacity).timeToFull = minutes := by
  by_cases h : minutes = -1 <;> simp [vitals, hpresent, hcharging, h]

/-- One that does not is empty after them, but not while there is external power. -/
theorem timeToEmpty_vitals (capacity : Int × Int) (hpresent : r.isPresent.truth = true)
    (hcharging : r.isCharging.truth = false) : (r.vitals minutes capacity).timeToEmpty =
      if r.externalConnected.truth = true ∧ minutes ≠ -1 then 0 else minutes := by
  by_cases h : minutes = -1 <;> simp [vitals, hpresent, hcharging, h]

theorem timely_vitals (r : Reading) (capacity : Int × Int)
    (h : minutes = -1 ∨ 0 ≤ minutes ∧ minutes ≤ 600) : (r.vitals minutes capacity).Timely := by
  unfold vitals
  generalize r.isPresent.truth = isPresent, r.isCharging.truth = isCharging,
    r.externalConnected.truth = external
  -- all that is left are the minutes, which are -1 or in range
  cases isPresent <;> cases isCharging <;> cases external <;> constructor <;> simp <;> omega

/-! ### The other members -/

theorem capacityPercentages_cases {capacity : Int × Int}
    (h : r.capacityPercentages = .ok capacity) :
    capacity.2 = 0 ∧ capacity.1 = 0 ∨ capacity.2 = 100 := by
  unfold capacityPercentages at h
  split at h
  · cases h
    exact .inl ⟨rfl, rfl⟩
  · -- only the last step of a percentage gives anything
    simp only [bind, Except.bind, pure, Except.pure] at h
    repeat' split at h
    all_goals first | cases h; exact .inr rfl | cases h

/-- **The members of a record agree**, whatever values the reading holds, if the time remaining is
its estimate under the same conditions. -/
theorem consistent_report {s : BatteryState} {c : Conditions} {now : Binary64}
    {snapshot : Snapshot} {latched : Bool} (hminutes : r.estimate c now = .ok minutes)
    (htime : s.timeRemaining = .int minutes) (h : r.report s c now = .ok (snapshot, latched)) :
    (Value.object snapshot.toRecord).IsConsistent := by
  obtain ⟨capacity, health, hcapacity, hhealth, hsnapshot⟩ := report_eq_ok h
  rw [htime, timeFields_eq r minutes capacity] at hsnapshot
  obtain ⟨hrated, hsure, hpoor, habsent⟩ := classify_verdict hhealth
  have htimely := timely_vitals r capacity (estimate_range hminutes)
  have hhealth' : snapshot.health = health.rating := by rw [hsnapshot]
  have hconfidence' : snapshot.healthConfidence = health.confidence := by rw [hsnapshot]
  have hfailure' : snapshot.failure = r.failure := by rw [hsnapshot]
  refine ⟨snapshot.toRecord, r.vitals minutes capacity, rfl, ?_, htimely, fun hempty => ?_, ?_, ?_,
    ?_, ?_, ?_, capacityPercentages_cases hcapacity⟩
  · subst hsnapshot
    exact ⟨rfl, rfl, rfl, rfl, rfl, rfl⟩
  -- only a battery on its own is given a time to empty
  · have hexternal : r.externalConnected.truth = false := by
      refine eq_false_of_ne_true fun hexternal => ?_
      simp only [vitals, hexternal, Bool.or_true, if_true] at hempty
      split at hempty
      · omega
      · split at hempty <;> omega
    rw [hsnapshot, hexternal]
    rfl
  · rw [Snapshot.find?_waiting]
    intro hwaiting hpresent
    have hignoring : c.isIgnoring now = true := by
      rw [hsnapshot] at hwaiting
      exact eq_true_of_ne_false fun hopen => by simp [hopen, Value.truth] at hwaiting
    have hpresent : r.isPresent.truth = true := hpresent
    have hsilent : minutes = -1 := estimate_eq_indeterminate hignoring hminutes
    simp only [vitals, hpresent, hsilent, Bool.not_true, Bool.false_eq_true, if_false, if_true,
      and_self]
  · rw [Snapshot.find?_health, Snapshot.find?_confidence, Option.isSome_map, Option.isSome_map,
      hhealth', hconfidence', hrated]
  · rw [Snapshot.find?_confidence, hconfidence']
    intro w hw
    obtain ⟨rating, hrating, rfl⟩ := Option.map_eq_some_iff.1 hw
    rw [hsure rating hrating]
    rfl
  · rw [Snapshot.find?_health, Snapshot.find?_failure, hhealth', hfailure']
    intro hw
    obtain ⟨rating, hrating, hword⟩ := Option.map_eq_some_iff.1 hw
    have hworst : rating = .poor := by
      cases rating
      · rfl
      · exact absurd (Value.text.inj hword) (by decide)
      · exact absurd (Value.text.inj hword) (by decide)
    rw [hpoor (hworst ▸ hrating)]
    rfl
  · intro hpresent
    have hunknown := habsent hpresent
    rw [Snapshot.find?_health, Snapshot.find?_confidence, hhealth', hconfidence', hunknown]
    exact ⟨rfl, rfl⟩

end Reading

end BatteryMonitor
