import BatteryMonitor.Proofs.Monitor.Rest

/-!
# Trust is decided at insertions

Whether the batteries' own estimates are used is decided when the primary battery is inserted: when
a list brings one that is present, and the one that was seen last was not, or there was none
(`Monitor.inserted?`).  Then it depends on what the hardware supports and on whether that battery
has an estimate, and after that on nothing until the next insertion.

* `Monitor.useFirmware_view` : what an event makes of the decision.
* `Monitor.Reckoned` : the invariant.  While the batteries' own estimates are used every battery has
  a time remaining that is its own estimate or indeterminate, be it the primary battery or not.
* `Monitor.trust_decided` : **the decision is the one of the last insertion**, and snapshots and
  times remaining go by it.
-/

namespace BatteryMonitor

open Effect

/-- The time remaining of a battery whose own estimate is used, if it has one. -/
def Reading.IsOwnEstimate (r : Reading) (minutes : Int) : Prop :=
  minutes = indeterminate ∨
    r.firmwareTimeRemaining.isNull = false ∧
      ∃ raw, r.firmwareTimeRemaining.toInteger = .ok raw ∧ minutes = Reading.clampMinutes raw

theorem Reading.isOwnEstimate_of_estimate {r : Reading} {c : Conditions} {now : Binary64}
    {minutes : Int} (huse : c.useFirmware.truth = true) (h : r.estimate c now = .ok minutes) :
    r.IsOwnEstimate minutes := by
  rcases estimate_cases h with hminutes | ⟨-, raw, hraw, hminutes⟩
  · exact .inl hminutes
  · rw [rawMinutes, if_pos huse] at hraw
    split at hraw
    · cases hraw
      exact .inl hminutes
    · rename_i hnull
      exact .inr ⟨eq_false_of_ne_true hnull, raw, hraw, hminutes⟩

namespace Monitor

variable {τ : Type} {m m' : Monitor τ} {past later earlier : List (Event τ)} {e : Event τ}

/-! ### Insertions -/

/-- The primary battery of the last list is present. -/
def presentAfter : List (Event τ) → Bool
  | [] => false
  | e :: past =>
    match e.brought with
    | some rs => rs.head?.any fun r => r.isPresent.truth
    | none => presentAfter past

/-- What the hardware supports after a history that began with `supported`. -/
def supportedAfter (supported : Value) : List (Event τ) → Value
  | [] => supported
  | .support v :: _ => v
  | .request _ :: past | .windowOver :: past | .elapse _ :: past => supportedAfter supported past

/-- The battery that an event inserts after a history, if it inserts one: the primary battery of the
list that it brings, when it is present and was not before. -/
def inserted? (past : List (Event τ)) (e : Event τ) : Option Reading :=
  (e.brought.bind List.head?).filter fun r => r.isPresent.truth && !presentAfter past

theorem Event.view_eq (o : Outlook) (e : Event τ) : e.view o =
    { e.brought.elim o o.saw with supported := supportedAfter o.supported [e] } := by
  cases e with
  | request q =>
    dsimp only [view, brought]
    cases q.brought with
    | none => rfl
    | some rs => cases rs <;> rfl
  | windowOver | elapse _ | support _ => rfl

theorem supportedAfter_cons (supported : Value) (e : Event τ) (past : List (Event τ)) :
    supportedAfter supported (e :: past) = supportedAfter (supportedAfter supported past) [e] := by
  cases e <;> rfl

/-- The outlook is that of a watch that has seen the history. -/
structure Informed (supported : Value) (past : List (Event τ)) (o : Outlook) : Prop where
  lastPresent : o.lastPresent = presentAfter past
  supported : o.supported = supportedAfter supported past

theorem Informed.view {supported : Value} {o : Outlook} (h : Informed supported past o)
    (e : Event τ) : Informed supported (e :: past) (e.view o) := by
  rw [Event.view_eq]
  constructor
  · rw [presentAfter]
    cases e.brought with
    | none => exact h.lastPresent
    | some rs => exact (Outlook.matches_saw o rs).lastPresent
  · change supportedAfter o.supported [e] = supportedAfter supported (e :: past)
    rw [h.supported]
    exact (supportedAfter_cons supported e past).symm

/-- **What an event makes of the decision**: an insertion decides anew, and nothing else has a
say. -/
theorem useFirmware_view {supported : Value} {o : Outlook} (h : Informed supported past o)
    (e : Event τ) : (e.view o).useFirmware =
      match inserted? past e with
      | some r => .bool (r.isTrusted (supportedAfter supported past))
      | none => o.useFirmware := by
  rw [Event.view_eq, inserted?, ← h.lastPresent, ← h.supported]
  cases e.brought with
  | none => rfl
  | some rs =>
    cases rs with
    | nil => rfl
    | cons r rs =>
      have hhead : (some (r :: rs)).bind List.head? = some r := rfl
      rw [hhead, Option.filter_some]
      dsimp only [Option.elim, Outlook.saw]
      split <;> rfl

variable [Scheduler τ]

theorem informed_afterAll {start : Monitor τ} (hinitial : start.Initial) :
    ∀ {past : List (Event τ)}, faultless Event.act start past →
      Informed start.watch.conditions.supported past
        (afterAll Event.act start past).watch.outlook
  | [], _ => by
    constructor
    · rw [afterAll, Watch.outlook, hinitial.conditions]
      rfl
    · rfl
  | e :: past, hfaultless => by
    obtain ⟨hpast, u, h⟩ := faultless_cons.1 hfaultless
    rw [outlook_act h]
    exact (informed_afterAll hinitial hpast).view e

theorem useFirmware_of_not_inserted {start : Monitor τ} (hinitial : start.Initial)
    (hfaultless : faultless Event.act start past) (hnot : inserted? past e = none)
    (h : Completes e.act (afterAll Event.act start past) () m') :
    m'.watch.conditions.useFirmware =
      (afterAll Event.act start past).watch.conditions.useFirmware := by
  have hview := useFirmware_view (informed_afterAll hinitial hfaultless) e
  rw [hnot, ← outlook_act h] at hview
  exact hview

theorem useFirmware_of_steady {start : Monitor τ} (hinitial : start.Initial) :
    ∀ {later : List (Event τ)}, faultless Event.act start (later ++ past) →
      (∀ e between, e :: between <:+ later → inserted? (between ++ past) e = none) →
      (afterAll Event.act start (later ++ past)).watch.conditions.useFirmware =
        (afterAll Event.act start past).watch.conditions.useFirmware
  | [], _, _ => rfl
  | e :: later, hfaultless, hsteady => by
    obtain ⟨hlater, u, h⟩ := faultless_cons.1 hfaultless
    obtain ⟨hnot, hsteady⟩ := forall_suffix_cons.1 hsteady
    exact (useFirmware_of_not_inserted hinitial hlater hnot h).trans
      (useFirmware_of_steady hinitial hlater hsteady)

/-! ### The times remaining -/

/-- **While the batteries' own estimates are used** every battery has a time remaining that is its
own estimate or indeterminate. -/
def Reckoned (m : Monitor τ) : Prop :=
  m.watch.conditions.useFirmware.truth = true → ∀ (i : Nat) (r : Reading),
    m.readings[i]? = some r → ∃ s minutes, m.state? i = some s ∧ s.timeRemaining = .int minutes ∧
      r.IsOwnEstimate minutes

theorem reckoned_runBuilding {snapshots : List Snapshot} (hd : m.store.values.Distinct)
    (h : Completes runBuilding m snapshots m') : m'.Reckoned := by
  intro huse i r hr
  rw [watch_runBuilding hd h] at huse
  rw [(passed_runBuilding hd h).1] at hr
  obtain ⟨s, s', snapshot, minutes, -, hs', -, hminutes, -, htime⟩ := reported_runBuilding hd hr h
  exact ⟨s', minutes, hs', htime, Reading.isOwnEstimate_of_estimate huse hminutes⟩

theorem provides_runBuilding {snapshots : List Snapshot} (hd : m.store.values.Distinct)
    (h : Completes runBuilding m snapshots m') :
    ∀ snapshot ∈ snapshots,
      snapshot.batteryProvidesTimeRemaining = m'.watch.conditions.useFirmware := by
  intro snapshot hsnapshot
  obtain ⟨i, hi⟩ := List.mem_iff_getElem?.1 hsnapshot
  obtain ⟨hlt, -⟩ := List.getElem?_eq_some_iff.1 hi
  rw [length_runBuilding h] at hlt
  obtain ⟨s, s', snapshot', minutes, -, -, hsnapshot', -, hreport, -⟩ :=
    reported_runBuilding hd (List.getElem?_eq_getElem hlt) h
  obtain rfl := Option.some.inj (hi.symm.trans hsnapshot')
  obtain ⟨capacity, health, -, -, rfl⟩ := Reading.report_eq_ok hreport
  rw [watch_runBuilding hd h]

theorem reckoned_observe {o : Option (List Snapshot)} (hfitted : m.Fitted)
    (hd : m.store.values.Distinct) (hreckoned : m.Reckoned)
    (huse : e.brought = none →
      m'.watch.conditions.useFirmware = m.watch.conditions.useFirmware)
    (h : Completes e.observe m o m') : m'.Reckoned := by
  obtain ⟨hturned, hreadings⟩ := turned_observe hfitted hd h
  cases hturned with
  | ran hsynced hrun => exact reckoned_runBuilding hsynced.store.distinct hrun
  | rested hsynced why =>
    intro htruth i r hr
    cases hbrought : e.brought with
    | some rs =>
      -- nothing is built for a list that is empty
      rw [hreadings, hbrought, eq_nil_of_brought hd h rs hbrought] at hr
      cases hr
    | none =>
      have hm : m'.readings = m.readings := by rw [hreadings, hbrought]; rfl
      obtain ⟨hi, -⟩ := List.getElem?_eq_some_iff.1 hr
      rw [huse hbrought] at htruth
      obtain ⟨s, minutes, hs, htime⟩ := hreckoned htruth i r (hm ▸ hr)
      refine ⟨s, minutes, ?_, htime⟩
      rw [hsynced.state?, if_pos hi,
        show ({ m with readings := m'.readings } : Monitor τ).state? i = some s from hs]
      rfl

theorem reckoned_afterAll {start : Monitor τ} (hinitial : start.Initial) :
    ∀ {past : List (Event τ)}, faultless Event.act start past →
      (afterAll Event.act start past).Reckoned
  | [], _ => fun _ i r hr => by
    rw [afterAll, hinitial.readings] at hr
    cases hr
  | e :: past, hfaultless => by
    obtain ⟨hpast, u, h⟩ := faultless_cons.1 hfaultless
    obtain ⟨hfitted, hd, -⟩ := fitted_afterAll hinitial.toFresh hpast
    have huse (hnone : e.brought = none) :=
      useFirmware_of_not_inserted hinitial hpast (by rw [inserted?, hnone]; rfl) h
    obtain ⟨o, h⟩ := Event.completes_act.1 h
    exact reckoned_observe hfitted hd (reckoned_afterAll hinitial hpast) huse h

/-- **Trust is decided at insertions.**  After any history without faults of a monitor as it is
made, the batteries' own estimates are used iff there was an insertion, and at the last one the
hardware supported them and the primary battery had one; before the first insertion they are not
used, and no event that is no insertion alters that.  Every snapshot that is built says that the
battery provides its time remaining iff its estimates are used in that run.  While they are used,
every battery of the list has a time remaining that is its own estimate, as far as it can be
published, or indeterminate, which it always is if the battery has no estimate.  To observe an event is
to carry it out and to keep its snapshots (`Event.act_eq`). -/
theorem trust_decided {start : Monitor τ} (hinitial : start.Initial)
    (hfaultless : faultless Event.act start past) :
    let m := afterAll Event.act start past
    (∀ later e earlier primary, past = later ++ e :: earlier →
      inserted? earlier e = some primary →
      (∀ e' between, e' :: between <:+ later → inserted? (between ++ e :: earlier) e' = none) →
      m.watch.conditions.useFirmware = .bool
        ((supportedAfter start.watch.conditions.supported earlier).truth &&
          !primary.firmwareTimeRemaining.isNull)) ∧
    ((∀ e earlier, e :: earlier <:+ past → inserted? earlier e = none) →
      m.watch.conditions.useFirmware = .bool false) ∧
    (∀ e m', inserted? past e = none → Completes e.act m () m' →
      m'.watch.conditions.useFirmware = m.watch.conditions.useFirmware) ∧
    (∀ e snapshots m', Completes (Event.observe e) m (some snapshots) m' →
      ∀ snapshot ∈ snapshots,
        snapshot.toRecord.find? (.text "Battery Provides Time Remaining") =
          if m'.watch.conditions.useFirmware.truth then some (.bool true) else none) ∧
    (m.watch.conditions.useFirmware.truth = true → ∀ (i : Nat) (r : Reading),
      m.readings[i]? = some r → ∃ s minutes, m.state? i = some s ∧
        s.timeRemaining = .int minutes ∧ (minutes = -1 ∨
          r.firmwareTimeRemaining.isNull = false ∧ ∃ raw,
            r.firmwareTimeRemaining.toInteger = .ok raw ∧
              minutes = Reading.clampMinutes raw)) := by
  intro m
  obtain ⟨hfitted, hd, -⟩ := fitted_afterAll hinitial.toFresh hfaultless
  refine ⟨?_, fun hnone => ?_, fun e m' hnot h => ?_, fun e snapshots m' h => ?_,
    reckoned_afterAll hinitial hfaultless⟩
  · rintro later e earlier primary rfl hinserted hsteady
    obtain ⟨hearlier, u, h⟩ := faultless_cons.1 (faultless_of_append hfaultless)
    have hdecided := useFirmware_view (informed_afterAll hinitial hearlier) e
    rw [hinserted, ← outlook_act h] at hdecided
    exact (useFirmware_of_steady hinitial hfaultless hsteady).trans hdecided
  · have hpast : past ++ [] = past := List.append_nil past
    have hsteady : ∀ e between, e :: between <:+ past → inserted? (between ++ []) e = none := by
      intro e between hsuffix
      rw [List.append_nil]
      exact hnone e between hsuffix
    have hstart := useFirmware_of_steady hinitial (hpast.symm ▸ hfaultless) hsteady
    rw [hpast] at hstart
    refine hstart.trans ?_
    rw [afterAll, hinitial.conditions]
  · exact useFirmware_of_not_inserted hinitial hfaultless hnot h
  · obtain ⟨hturned, -⟩ := turned_observe hfitted hd h
    cases hturned with
    | ran hsynced hrun =>
      intro snapshot hsnapshot
      rw [Snapshot.find?_provides,
        provides_runBuilding hsynced.store.distinct hrun snapshot hsnapshot]

/-- A battery that discharges, with what it estimates itself. -/
def discharging (firmware : Value) : Reading :=
  { currentCapacity := .int 4000, avgAmperage := .int (-500), firmwareTimeRemaining := firmware }

/-- A battery with an estimate is inserted, on hardware that supports that; then the hardware does
not support it any more, and another battery joins while the first one has no estimate. -/
def trustedOnce : List (Event Bench) :=
  [.request (.batteriesChanged [discharging .null, discharging (.int 40)]),
    .support (.bool false), .request (.batteriesChanged [discharging (.int 90)]),
    .support (.bool true)]

/-- The decision stands: the first battery has no time remaining any more, and the second one has
the one that it estimates itself. -/
theorem trust_decided_trustedOnce : faultless Event.act onBench trustedOnce ∧
    (afterAll Event.act onBench trustedOnce).watch.conditions.useFirmware.truth = true ∧
    ((afterAll Event.act onBench trustedOnce).state? 0).map (·.timeRemaining) =
      some (.int (-1)) ∧
    ((afterAll Event.act onBench trustedOnce).state? 1).map (·.timeRemaining) =
      some (.int 40) := by
  have hfaultless : faultless Event.act onBench trustedOnce := by decide +kernel
  obtain ⟨hlast, -, -, -, htimes⟩ := trust_decided initial_onBench hfaultless
  have hdecided := hlast (trustedOnce.take 2) _ [.support (.bool true)] _ rfl rfl
    (forall_suffix_cons.2 ⟨rfl, forall_suffix_cons.2 ⟨rfl, forall_suffix_nil⟩⟩)
  have huse :
      (afterAll Event.act onBench trustedOnce).watch.conditions.useFirmware.truth = true := by
    rw [hdecided]
    rfl
  have hr : (afterAll Event.act onBench trustedOnce).readings[0]? = some (discharging .null) := by
    rw [(fitted_afterAll fresh_onBench hfaultless).2.2]
    rfl
  obtain ⟨s, minutes, hs, htime, hown⟩ := htimes huse 0 _ hr
  refine ⟨hfaultless, huse, ?_, by decide +kernel⟩
  rw [hs, Option.map_some, htime]
  rcases hown with rfl | ⟨hnull, -⟩
  · rfl
  · cases hnull

end Monitor

end BatteryMonitor
