import BatteryMonitor.Proofs.Monitor.Records

/-!
# When a battery has its record

A pass over the batteries goes from the first index to the last.  An index that moves to another
key removes the record under the key that it had, and that may be the record of a lower index,
which came to this key in the same pass and has written it already.  Nothing writes it again: the
battery is in the list, and the store does not have it.

So two batteries that change places lose a record, and so does a list that loses its first
battery.  This file says exactly when it happens.  `Monitor.TakesFromAbove old new` : some index
of the new list comes to the key that a higher index, which is still there, had in the old list.

* `Monitor.settled_turn` : what holds between events: the keys are those of the list.
* `Monitor.present_turn` : **if all batteries have their records, then after an event they all
  have them iff the new list takes no key from above**.
* `Monitor.present_iff` : along a history without faults all batteries always have their records
  iff none of its lists does that.
-/

namespace BatteryMonitor

namespace Monitor

open Effect

variable {τ : Type} {m m' t : Monitor τ}

/-- Every battery of the list has a record under its key. -/
def AllPresent (m : Monitor τ) : Prop :=
  ∀ (i : Nat) (r : Reading), m.readings[i]? = some r →
    (m.store.record? (r.effectiveKey i)).isSome

/-- An index of the new list comes to the key that a higher index of both lists had in the old
one. -/
def TakesFromAbove (old new : List Reading) : Prop :=
  ∃ (i j : Nat) (r r' : Reading), i < j ∧ j < new.length ∧ new[i]? = some r ∧
    old[j]? = some r' ∧ (r'.effectiveKey j).sameKey (r.effectiveKey i) = true

/-- **What holds between events** in a store that nobody else removes from: the keys are those of
the list. -/
structure Settled (m : Monitor τ) : Prop where
  fitted : m.Fitted
  distinct : m.store.values.Distinct
  quiet : m.store.Quiet
  distinctKeys : Reading.DistinctKeys m.readings
  keys : ∀ i, m.keys.lookup i = m.readings[i]?.map fun r => r.effectiveKey i
  named : ∀ (i : Nat) (r : Reading), m.readings[i]? = some r → (r.effectiveKey i).entryOf?.isSome

theorem not_takesFromAbove_self {rs : List Reading} (hkeys : Reading.DistinctKeys rs) :
    ¬ TakesFromAbove rs rs := by
  rintro ⟨i, j, r, r', hij, -, hr, hr', hsame⟩
  obtain ⟨hentry, hsome⟩ := Value.sameKey_iff.1 hsame
  have hji := hkeys.eq_of_entryOf? hr' hr hentry hsome
  omega

theorem Fresh.settled (h : m.Fresh) (hquiet : m.store.Quiet) : m.Settled where
  fitted := h.fitted
  distinct := h.distinct
  quiet := hquiet
  distinctKeys := h.readings ▸ .nil
  keys i := by rw [h.keys, h.readings]; rfl
  named i r hr := by rw [h.readings] at hr; cases hr

/-! ### Fitting the states to a new list -/

namespace Settled

theorem keys_synced (hsettled : m.Settled) (h : Synced { m with readings := t.readings } t)
    (i : Nat) : t.keys.lookup i = if i < t.readings.length
      then m.readings[i]?.map fun r => r.effectiveKey i else none := by
  rw [← hsettled.keys]
  by_cases hi : i < t.readings.length
  · rw [if_pos hi]
    exact h.lookup_keys hi
  · rw [if_neg hi, h.keys]
    split
    · rfl
    · rename_i hbeyond
      change m.keys.lookup i = none
      have hlen : m.readings.length ≤ i := by
        refine Nat.le_of_not_lt fun hlt => hbeyond (mem_beyond.2 ⟨Nat.le_of_not_lt hi, ?_⟩)
        exact (hsettled.fitted i).2 hlt
      rw [hsettled.keys, List.getElem?_eq_none hlen]
      rfl

theorem record?_synced (hsettled : m.Settled) (h : Synced { m with readings := t.readings } t)
    {i : Nat} {r : Reading} (hr : m.readings[i]? = some r) (hi : i < t.readings.length) :
    t.store.record? (r.effectiveKey i) = m.store.record? (r.effectiveKey i) := by
  refine h.store.stays _ ?_ id
  rintro ⟨j, hj, key, hkey, -, hentry⟩
  have hlen : t.readings.length ≤ j := (mem_beyond.1 hj).1
  rw [show List.lookup j m.keys = _ from hsettled.keys j] at hkey
  obtain ⟨r', hr', rfl⟩ := Option.map_eq_some_iff.1 hkey
  have hij := hsettled.distinctKeys.eq_of_entryOf? hr hr' hentry.symm (hsettled.named i r hr)
  omega

theorem lt_of_lastPublished (hsettled : m.Settled)
    (h : Synced { m with readings := t.readings } t) {i : Nat} {s : BatteryState}
    {last : Snapshot} (hs : t.state? i = some s) (hlast : s.lastPublished = some last) :
    i < m.readings.length := by
  obtain ⟨-, hold⟩ := h.state?_of_lastPublished hs hlast
  exact (hsettled.fitted i).1 (Option.isSome_of_eq_some hold)

theorem not_publishedUnder_below (hsettled : m.Settled)
    (h : Synced { m with readings := t.readings } t) {k : Nat} {r : Reading} {v : Value}
    (hr : m.readings[k]? = some r) (hk : k < t.readings.length)
    (hentry : (r.effectiveKey k).entryOf? = v.entryOf?) :
    ¬ t.PublishedUnder (List.range' 0 k) v := by
  rintro ⟨j, hj, key, hkey, -, hentry'⟩
  rw [List.mem_range'_1] at hj
  rw [hsettled.keys_synced h, if_pos (by omega)] at hkey
  obtain ⟨r', hr', rfl⟩ := Option.map_eq_some_iff.1 hkey
  have hjk := hsettled.distinctKeys.eq_of_entryOf? hr hr' (hentry.trans hentry'.symm)
    (hsettled.named k r hr)
  omega

theorem publishedUnder_above (hsettled : m.Settled)
    (h : Synced { m with readings := t.readings } t) {k : Nat} {v : Value} :
    t.PublishedUnder (List.range' (k + 1) (t.readings.length - (k + 1))) v ↔
      ∃ (j : Nat) (r : Reading), k < j ∧ j < t.readings.length ∧ m.readings[j]? = some r ∧
        (r.effectiveKey j).entryOf? = v.entryOf? := by
  constructor
  · rintro ⟨j, hj, key, hkey, -, hentry⟩
    rw [List.mem_range'_1] at hj
    rw [hsettled.keys_synced h, if_pos (by omega)] at hkey
    obtain ⟨r, hr, rfl⟩ := Option.map_eq_some_iff.1 hkey
    exact ⟨j, r, by omega, by omega, hr, hentry⟩
  · rintro ⟨j, r, hkj, hj, hr, hentry⟩
    refine ⟨j, List.mem_range'_1.2 ⟨by omega, by omega⟩, r.effectiveKey j, ?_,
      Reading.effectiveKey_isNull j r, hentry⟩
    rw [hsettled.keys_synced h, if_pos hj, hr]
    rfl

end Settled

/-! ### One battery in a run -/

section Battery

variable [Scheduler τ] {u w : Monitor τ} {k : Nat} {r : Reading} {snapshot : Snapshot}

theorem Settled.old_of_skipped (hsettled : m.Settled)
    (hsynced : Synced { m with readings := t.readings } t)
    (hr : t.readings[k]? = some r) (h : Handled t k r snapshot u w m') {s : BatteryState}
    {last : Snapshot} (hs : u.state? k = some s) (hlast : s.lastPublished = some last)
    (hstay : ∀ old, ¬ u.Moves k (r.effectiveKey k) old) :
    ∃ r', m.readings[k]? = some r' ∧
      (r'.effectiveKey k).entryOf? = (r.effectiveKey k).entryOf? := by
  obtain ⟨s₀, minutes, latched, hs₀, -, -, hu⟩ := h.report
  obtain rfl : { s₀ with timeRemaining := .int minutes, latched } = s :=
    Option.some.inj (hu.symm.trans hs)
  have hk := hsettled.lt_of_lastPublished hsynced hs₀ hlast
  obtain ⟨hk', -⟩ := List.getElem?_eq_some_iff.1 hr
  have hr' : m.readings[k]? = some m.readings[k] := List.getElem?_eq_getElem hk
  refine ⟨m.readings[k], hr', ?_⟩
  have hold : u.keys.lookup k = some (m.readings[k].effectiveKey k) := by
    rw [h.key, hsettled.keys_synced hsynced, if_pos hk', hr']
    rfl
  exact (entryOf?_eq_of_not_moves (hstay _) hold (Reading.effectiveKey_isNull ..) rfl
    (hsettled.named k _ hr')).symm

theorem Settled.named_of_handled (hsettled : m.Settled)
    (hsynced : Synced { m with readings := t.readings } t) (hr : t.readings[k]? = some r)
    (h : Handled t k r snapshot u w m') : (r.effectiveKey k).entryOf?.isSome := by
  cases h.placed with
  | skipped s last hs hlast _ hstay _ =>
    obtain ⟨r', hr', hentry⟩ := hsettled.old_of_skipped hsynced hr h hs hlast hstay
    exact hentry ▸ hsettled.named k r' hr'
  | written s between store _ hvacated hset _ _ =>
    exact (Store.record?_setValue (hvacated.rekeyed h.before.distinct).distinct hset).1

/-- **A battery has its record after a run** iff no higher index left its key, as long as all
batteries had theirs before. -/
theorem Settled.present_of_handled (hsettled : m.Settled)
    (hsynced : Synced { m with readings := t.readings } t)
    (hkeys : Reading.DistinctKeys t.readings) (hpresent : m.AllPresent)
    (hr : t.readings[k]? = some r) (h : Handled t k r snapshot u w m') :
    (m'.store.record? (r.effectiveKey k)).isSome ↔
      ¬ ∃ (j : Nat) (r' : Reading), k < j ∧ j < t.readings.length ∧ m.readings[j]? = some r' ∧
        (r'.effectiveKey j).entryOf? = (r.effectiveKey k).entryOf? := by
  have hsome := hsettled.named_of_handled hsynced hr h
  have hdrop := not_claimed_drop hkeys hr hsome
  rw [← hsettled.publishedUnder_above hsynced]
  constructor
  -- a key that is left after it was written is not written again
  · intro hrecord hleft
    rw [h.after.gone _ hleft hdrop] at hrecord
    exact absurd hrecord Bool.false_ne_true
  · intro hleft
    rw [h.after.stays _ hleft hdrop]
    cases h.placed with
    | skipped s last hs hlast _ hstay heq =>
      obtain ⟨r', hr', hentry⟩ := hsettled.old_of_skipped hsynced hr h hs hlast hstay
      obtain ⟨hk, -⟩ := List.getElem?_eq_some_iff.1 hr
      have hstore : w.store = u.store := by rw [heq]
      -- no lower index had this key, and none comes to it
      have hlower := hsettled.not_publishedUnder_below hsynced hr' hk hentry
      rw [hstore, h.before.stays _ hlower (not_claimed_take hkeys hr hsome),
        ← Store.record?_congr hentry, hsettled.record?_synced hsynced hr' hk]
      exact hpresent k r' hr'
    | written s between store _ hvacated hset _ heq =>
      have hvacant := hvacated.rekeyed h.before.distinct
      have hstore : w.store = store := by rw [heq]
      obtain ⟨-, -, hown⟩ := Store.record?_setValue hvacant.distinct hset
      rw [hstore]
      -- it has just been written, and nobody who hears of it removes it
      rcases hown _ rfl with hnew | ⟨hloud, -⟩
      · rw [hnew]; rfl
      · exact absurd (hvacant.quiet (h.before.quiet (hsynced.store.quiet hsettled.quiet))) hloud

end Battery

/-! ### Events and histories -/

section Histories

variable [Scheduler τ] {o : Option (List Snapshot)}

/-- **Events settle a monitor**, as long as the keys of the list are distinct. -/
theorem settled_turn (hsettled : m.Settled) (h : Turned m o m')
    (hkeys : Reading.DistinctKeys m'.readings) : m'.Settled := by
  have hfitted := h.fitted
  have hdistinct := h.distinct
  cases h with
  | rested hsynced why =>
    refine ⟨hfitted, hdistinct, hsynced.store.quiet hsettled.quiet, hkeys,
      fun i => ?_, fun i r hr => ?_⟩
    · rw [hsettled.keys_synced hsynced]
      rcases why with hnil | hsame
      · simp [hnil]
      · rw [hsame]
        split
        · rfl
        · rename_i hi
          rw [List.getElem?_eq_none (Nat.le_of_not_lt hi)]
          rfl
    · rcases why with hnil | hsame
      · rw [hnil] at hr
        cases hr
      · exact hsettled.named i r (hsame ▸ hr)
  | @ran t _ snapshots hsynced hrun =>
    obtain ⟨hreadings, -, hquiet, houtside⟩ := passed_runBuilding hsynced.store.distinct hrun
    refine ⟨hfitted, hdistinct, hquiet (hsynced.store.quiet hsettled.quiet), hkeys,
      fun i => ?_, fun i r hr => ?_⟩
    -- an index of the list has the key that the run gave it, and there is no other index
    · rw [hreadings]
      cases hr : t.readings[i]? with
      | some r =>
        obtain ⟨snapshot, u, w, -, hhandled⟩ :=
          handled_runBuilding hsynced.store.distinct hr hrun
        rw [hhandled.key']
        rfl
      | none =>
        have hi := List.getElem?_eq_none_iff.1 hr
        rw [(houtside i hi).1, hsettled.keys_synced hsynced, if_neg (Nat.not_lt_of_le hi)]
        rfl
    · rw [hreadings] at hr
      obtain ⟨snapshot, u, w, -, hhandled⟩ := handled_runBuilding hsynced.store.distinct hr hrun
      exact hsettled.named_of_handled hsynced hr hhandled

/-- **When an event loses a record**: after it all batteries have their records, as they had
before, iff no index of the list came to the key of a higher one. -/
theorem present_turn (hsettled : m.Settled) (h : Turned m o m')
    (hkeys : Reading.DistinctKeys m'.readings) (hpresent : m.AllPresent) :
    m'.AllPresent ↔ ¬ TakesFromAbove m.readings m'.readings := by
  cases h with
  | rested hsynced why =>
    -- nothing was published, and nothing had to be
    refine iff_of_true (fun i r hr => ?_) ?_
    · rcases why with hnil | hsame
      · rw [hnil] at hr
        cases hr
      · obtain ⟨hi, -⟩ := List.getElem?_eq_some_iff.1 hr
        rw [hsettled.record?_synced hsynced (hsame ▸ hr) hi]
        exact hpresent i r (hsame ▸ hr)
    · rcases why with hnil | hsame
      · rw [hnil]
        rintro ⟨i, j, r, r', -, -, hr, -⟩
        cases hr
      · rw [hsame]
        exact not_takesFromAbove_self hsettled.distinctKeys
  | ran hsynced hrun =>
    have hreadings := (passed_runBuilding hsynced.store.distinct hrun).1
    rw [hreadings] at hkeys
    unfold AllPresent
    rw [hreadings]
    constructor
    · rintro hall ⟨i, j, r, r', hij, hj, hr, hr', hsame⟩
      obtain ⟨snapshot, u, w, -, hhandled⟩ := handled_runBuilding hsynced.store.distinct hr hrun
      refine (hsettled.present_of_handled hsynced hkeys hpresent hr hhandled).1 (hall i r hr) ?_
      exact ⟨j, r', hij, hj, hr', (Value.sameKey_iff.1 hsame).1⟩
    · intro htakes k r hr
      obtain ⟨snapshot, u, w, -, hhandled⟩ := handled_runBuilding hsynced.store.distinct hr hrun
      refine (hsettled.present_of_handled hsynced hkeys hpresent hr hhandled).2 ?_
      rintro ⟨j, r', hkj, hj, hr', hentry⟩
      have hsome := hsettled.named_of_handled hsynced hr hhandled
      exact htakes ⟨k, j, r, r', hkj, hj, hr, hr', Value.sameKey_iff.2 ⟨hentry, hentry ▸ hsome⟩⟩

/-- **When all batteries always have their records**: along a history without faults, over lists
with distinct keys and in a store that no subscriber removes from, iff no list of the history lets
an index come to the key of a higher one. -/
theorem present_iff {start : Monitor τ} {past : List (Event τ)} (hfresh : start.Fresh)
    (hquiet : start.store.Quiet) (hfaultless : faultless Event.act start past)
    (hlists : ∀ e ∈ past, ∀ rs ∈ e.brought, Reading.DistinctKeys rs) :
    (∀ earlier, earlier <:+ past → (afterAll Event.act start earlier).AllPresent) ↔
      ∀ e earlier, e :: earlier <:+ past →
        ¬ TakesFromAbove (afterAll Event.act start earlier).readings
          (afterAll Event.act start (e :: earlier)).readings := by
  -- the history is followed with the settled monitor that it leaves
  suffices h : (afterAll Event.act start past).Settled ∧ _ from h.2
  induction past with
  | nil =>
    refine ⟨hfresh.settled hquiet, iff_of_true ?_ forall_suffix_nil⟩
    intro earlier hearlier i r hr
    rw [List.suffix_nil.1 hearlier] at hr
    have hr' : start.readings[i]? = some r := hr
    rw [hfresh.readings] at hr'
    cases hr'
  | cons e past ih =>
    obtain ⟨hpast, a, hlast⟩ := faultless_cons.1 hfaultless
    obtain ⟨hsettled, hiff⟩ := ih hpast fun e' he' => hlists e' (List.mem_cons_of_mem _ he')
    rw [Event.act_eq, completes_discard] at hlast
    obtain ⟨o, hlast⟩ := hlast
    obtain ⟨hturned, hreadings⟩ := turned_observe hsettled.fitted hsettled.distinct hlast
    have hkeys := hreadings ▸ holds_getD hsettled.distinctKeys (hlists e List.mem_cons_self)
    refine ⟨settled_turn hsettled hturned hkeys, ?_⟩
    have hturn := present_turn hsettled hturned hkeys
    rw [forall_suffix_cons]
    simp only [List.suffix_cons_iff, or_imp, forall_and, forall_eq]
    constructor
    · rintro ⟨hlast, hall⟩
      exact ⟨(hturn (hall past List.suffix_rfl)).1 hlast, hiff.1 hall⟩
    · rintro ⟨htakes, hsteady⟩
      have hall := hiff.2 hsteady
      exact ⟨(hturn (hall past List.suffix_rfl)).2 htakes, hall⟩

end Histories

theorem quiet_onBench : onBench.store.Quiet :=
  fun _ hsubscriber => absurd hsubscriber List.not_mem_nil

/-- Two batteries that change places. -/
def exchange : List (Event Bench) :=
  [.request (.batteriesChanged [{ storeKey := .text "B" }, { storeKey := .text "A" }]),
    .request (.batteriesChanged [{ storeKey := .text "A" }, { storeKey := .text "B" }])]

/-- Along an exchange all batteries always have their records iff no list takes a key from above. -/
theorem present_iff_exchange : (faultless Event.act onBench exchange = true ∧
      ∀ e ∈ exchange, ∀ rs ∈ e.brought, Reading.DistinctKeys rs) ∧
    ((∀ earlier, earlier <:+ exchange → (afterAll Event.act onBench earlier).AllPresent) ↔
      ∀ e earlier, e :: earlier <:+ exchange →
        ¬ TakesFromAbove (afterAll Event.act onBench earlier).readings
          (afterAll Event.act onBench (e :: earlier)).readings) :=
  ⟨⟨by decide +kernel, by decide +kernel⟩,
    present_iff fresh_onBench quiet_onBench (by decide +kernel) (by decide +kernel)⟩

/-- **Two batteries that change places lose a record**, without any fault: the first one is in the
list and has none. -/
theorem missing_after_exchange : faultless Event.act onBench exchange = true ∧
    (∀ e ∈ exchange, ∀ rs ∈ e.brought, Reading.DistinctKeys rs) ∧
    ¬ (afterAll Event.act onBench exchange).AllPresent := by
  refine ⟨by decide +kernel, by decide +kernel, fun h => ?_⟩
  have hfirst : ∀ r ∈ (afterAll Event.act onBench exchange).readings[0]?,
      ((afterAll Event.act onBench exchange).store.record? (r.effectiveKey 0)).isSome :=
    fun r hr => h 0 r hr
  exact absurd hfirst (by decide +kernel)

end Monitor

end BatteryMonitor
