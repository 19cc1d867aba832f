import BatteryMonitor.Proofs.Monitor.Totality

/-!
# A malformed reading does no lasting harm

An operation over readings that hold anything may stop with a fault anywhere, and what it did until
then stays done: times remaining and latches may be half written, some batteries published and
others not, and snapshots may have been published that say what no telemetry should say.  Yet the
next list of sound readings is taken as if nothing had happened (`Monitor.recovers_of_sound`), if no
reading names a key, so that every index is published under a key of its own.

Three things could go wrong, and none does, since `Monitor.Faithful` lasts whatever happens:

* an operation could stop again; but it only needs states for the indices of its list
  (`Monitor.exists_changeBuilding`);
* a record could stay that belongs to no battery; but whatever was written is owned
  (`Monitor.Kept`);
* a write could be skipped since the same snapshot seems to be there; but what was last published
  is there, and it is the same as the new one only if it makes the same record
  (`Snapshot.Built.toRecord_eq`).
-/

namespace BatteryMonitor

namespace Monitor

open Effect

section

variable {τ : Type} {m m' : Monitor τ} {before : Table Value} {keyOf : Nat → Text} {i : Nat}
  {snapshot : Snapshot}

/-- **A monitor remembers what its store shows.**  Every index is known under no key but its own,
and what was last published for it stands there.  All times remaining are minutes. -/
structure Faithful (before : Table Value) (keyOf : Nat → Text) (m : Monitor τ) : Prop extends
    m.Kept before where
  quiet : m.store.Quiet
  keyed : Reading.Keyed keyOf m.readings
  stationed : ∀ i key, m.keys.lookup i = some key → key = .text (keyOf i)
  timed : ∀ i s, m.state? i = some s → ∃ minutes, s.timeRemaining = .int minutes
  shown : ∀ i s last, m.state? i = some s → s.lastPublished = some last →
    last.Built ∧ m.store.record? (.text (keyOf i)) = some (.object last.toRecord)

namespace Faithful

theorem revised (h : m.Faithful before keyOf) (hrevised : Revised m m') :
    m'.Faithful before keyOf := by
  have hkept := h.toKept.revised hrevised
  refine ⟨hkept, ?_, ?_, ?_, fun i s hs => ?_, fun i s last hs hlast => ?_⟩
  · rw [hrevised.eq]
    exact h.quiet
  · rw [hrevised.eq]
    exact h.keyed
  · rw [hrevised.eq]
    exact h.stationed
  · rcases hrevised.state? i with hsame | ⟨s₀, s', hs₀, hs', -, htime | hminutes⟩
    · exact h.timed i s (hsame ▸ hs)
    · cases hs.symm.trans hs'
      rw [htime]
      exact h.timed i s₀ hs₀
    · cases hs.symm.trans hs'
      exact hminutes
  · rw [hrevised.eq]
    rcases hrevised.state? i with hsame | ⟨s₀, s', hs₀, hs', hlast', -⟩
    · exact h.shown i s last (hsame ▸ hs) hlast
    · cases hs.symm.trans hs'
      exact h.shown i s₀ last hs₀ (hlast' ▸ hlast)

theorem not_publishedUnder (h : m.Faithful before keyOf) (hinj : Function.Injective keyOf)
    {indices : List Nat} (hi : i ∉ indices) : ¬ m.PublishedUnder indices (.text (keyOf i)) := by
  rintro ⟨j, hj, key, hkey, -, hentry⟩
  rw [h.stationed j key hkey] at hentry
  exact Value.entryOf?_text_ne (hinj.ne (ne_of_mem_of_not_mem hj hi)) hentry

theorem placed (h : m.Faithful before keyOf) (hinj : Function.Injective keyOf)
    (hplaced : Placed m i (.text (keyOf i)) snapshot m') (hsteady : m'.store.Steady)
    (hbuilt : snapshot.Built) : m'.Faithful before keyOf := by
  have hd := h.owned.steady.distinct
  have hrekeyed := hplaced.rekeyed hd
  refine ⟨h.toKept.placed hplaced hsteady, hrekeyed.quiet h.quiet, hplaced.readings ▸ h.keyed,
    fun j key hkey => ?_, fun j s hs => ?_, fun j s last hs hlast => ?_⟩
  · rw [hplaced.keys] at hkey
    split at hkey
    · rename_i hji
      rw [hji, Option.some.inj hkey]
    · exact h.stationed j key hkey
  · by_cases hji : j = i
    · obtain ⟨s₀, last, hs₀, hs'⟩ := hplaced.exists_lastPublished
      subst hji
      cases hs.symm.trans hs'
      exact h.timed j s₀ hs₀
    · rw [hplaced.state?_of_ne hji] at hs
      exact h.timed j s hs
  · by_cases hji : j = i
    · subst hji
      cases hplaced with
      | skipped s₀ last₀ hs₀ hlast₀ _ _ heq =>
        rw [heq] at hs ⊢
        exact h.shown j s last hs hlast
      | written s₀ between store hs₀ hvacated hset hstates heq =>
        rw [hstates, if_pos rfl] at hs
        cases hs
        cases hlast
        have hvacant := hvacated.rekeyed hd
        have hstore : m'.store = store := by rw [heq]
        rw [hstore]
        exact ⟨hbuilt, (Store.shelves_setValue hvacant.distinct hset).quiet
          (hstore ▸ hrekeyed.quiet h.quiet)⟩
    · rw [hplaced.state?_of_ne hji] at hs
      rw [hrekeyed.stays _ (h.not_publishedUnder hinj (by simpa using hji))
        (Value.entryOf?_text_ne (hinj.ne (Ne.symm hji)))]
      exact h.shown j s last hs hlast

theorem synced {rs : List Reading} (h : m.Faithful before keyOf) (hinj : Function.Injective keyOf)
    (hkept : m'.Kept before) (hkeyed : Reading.Keyed keyOf rs)
    (hsynced : Synced { m with readings := rs } m') : m'.Faithful before keyOf := by
  refine ⟨hkept, hsynced.store.quiet h.quiet, hsynced.readings ▸ hkeyed, fun j key hkey => ?_,
    fun j s hs => ?_, fun j s last hs hlast => ?_⟩
  · rw [hsynced.keys] at hkey
    split at hkey
    · cases hkey
    · exact h.stationed j key hkey
  · rw [hsynced.state?] at hs
    split at hs
    · cases hold : m.state? j with
      | none =>
        rw [show ({ m with readings := rs } : Monitor τ).state? j = none from hold] at hs
        cases hs
        exact ⟨indeterminate, rfl⟩
      | some s₀ =>
        rw [show ({ m with readings := rs } : Monitor τ).state? j = some s₀ from hold] at hs
        cases hs
        exact h.timed j s₀ hold
    · cases hs
  · obtain ⟨hj, hold⟩ := hsynced.state?_of_lastPublished hs hlast
    rw [hsynced.store.stays _ (h.not_publishedUnder hinj (not_mem_beyond hj)) id]
    exact h.shown j s last hold hlast

end Faithful

/-- A reading that is published under the key of its index, and whose own key is a text if there is
one. -/
def Named (keyOf : Nat → Text) (i : Nat) (r : Reading) : Prop :=
  r.storeKey.isOptional .text = true ∧ r.effectiveKey i = .text (keyOf i)

/-- **Whatever the readings hold, a monitor stays faithful.** -/
theorem enduring_faithful [Scheduler τ] (hinj : Function.Injective keyOf) :
    Enduring before (Named keyOf) (Faithful (τ := τ) before keyOf) where
  kept hm := hm.toKept
  revised hm hrevised := hm.revised hrevised
  placed {m m' i r s snapshot} hm hr hs hreport hplaced hsteady := by
    obtain ⟨minutes, htime⟩ := hm.timed i s hs
    rw [hm.keyed i r hr] at hplaced
    exact hm.placed hinj hplaced hsteady (Reading.built_report htime hreport)
  watched _ hm := ⟨hm.toKept.congr rfl rfl rfl fun _ => rfl, hm.quiet, hm.keyed, hm.stationed,
    hm.timed, hm.shown⟩
  synced hm hgood hsynced hsteady hwrote := hm.synced hinj
    (hm.toKept.synced (fun r hr => (List.getElem?_of_mem hr).elim fun i hi => (hgood i r hi).1)
      hsynced hsteady hwrote) (fun i r hr => (hgood i r hr).2) hsynced

/-! ### After a list of sound readings -/

/-- **The record of a battery is the snapshot that was built for it**, whether it was written or
taken to be there. -/
theorem Faithful.record?_of_handled [Scheduler τ] {r : Reading} {u t : Monitor τ}
    (hm' : m'.Faithful before keyOf) (htyped : r.isWellTyped = true)
    (h : Handled m i r snapshot u t m') :
    m'.store.record? (.text (keyOf i)) = some (.object snapshot.toRecord) := by
  obtain ⟨s₀, minutes, latched, -, -, hreport, hu⟩ := h.report
  cases h.placed with
  | skipped s last hs hlast hsame _ heq =>
    cases hu.symm.trans hs
    have hs' : m'.state? i = some { s₀ with timeRemaining := .int minutes, latched } :=
      h.state?.trans (by rw [heq]; exact hu)
    obtain ⟨hbuilt, hrecord⟩ := hm'.shown i _ last hs' hlast
    rw [hrecord, hbuilt.toRecord_eq (Reading.plain_report htyped rfl hreport) hsame]
  | written s between store hs _ _ hstates _ =>
    have hs' : m'.state? i = some { s with lastPublished := some snapshot } :=
      h.state?.trans (by rw [hstates, if_pos rfl])
    exact (hm'.shown i _ snapshot hs' rfl).2

/-- **The keys of the store are those of the list**, if it was empty at the beginning and every
battery has been published. -/
theorem Faithful.isSome_find?_iff (hm : m.Faithful [] keyOf)
    (hall : ∀ i < m.readings.length, (m.store.record? (.text (keyOf i))).isSome) (k : Key) :
    (m.store.values.find? k).isSome ↔ ∃ i < m.readings.length, k = .text (keyOf i) := by
  constructor
  · intro hsome
    have hwrote : m.store.Wrote k := by
      by_contra hnot
      rw [hm.owned.foreign k hnot] at hsome
      cases hsome
    have hheld : m.Holds k := by
      by_contra hnot
      rw [hm.owned.orphans k hwrote hnot] at hsome
      cases hsome
    obtain ⟨j, key, hkey, hentry⟩ := hheld
    obtain ⟨-, -, hstate, -⟩ := hm.owned.named j key hkey
    rw [hm.stationed j key hkey] at hentry
    refine ⟨j, (hm.fitted j).1 hstate, ?_⟩
    exact Key.eq_text_of_entry (Option.some.inj hentry).symm
  · rintro ⟨i, hi, rfl⟩
    exact hall i hi

/-- **What a list of well-typed readings leaves in the store**: the snapshots that were built for
it, under the keys of its indices, and nothing else. -/
theorem Faithful.published [Scheduler τ] {rs : List Reading} {o : Option (List Snapshot)}
    (hm : m.Faithful [] keyOf) (hinj : Function.Injective keyOf) (hnonempty : rs ≠ [])
    (htyped : ∀ r ∈ rs, r.isWellTyped = true)
    (hnamed : ∀ (i : Nat) (r : Reading), rs[i]? = some r → Named keyOf i r)
    (h : Completes (changeBuilding rs) m o m') :
    ∃ snapshots, o = some snapshots ∧ snapshots.length = rs.length ∧
      (∀ k, (m'.store.values.find? k).isSome ↔ ∃ i < rs.length, k = .text (keyOf i)) ∧
      ∀ (i : Nat) (snapshot : Snapshot), snapshots[i]? = some snapshot →
        m'.store.record? (.text (keyOf i)) = some (.object snapshot.toRecord) := by
  have hm' : m'.Faithful [] keyOf :=
    h.keeps ((enduring_faithful hinj).keeps_changeBuilding hnamed) hm
  obtain ⟨t, watch, hsync, -, hrefresh⟩ := completes_changeBuilding.1 h
  have hsynced := synced_syncStates (m := { m with readings := rs }) hm.owned.steady.distinct hsync
  have hreadings : t.readings = rs := hsynced.readings
  -- the list is not empty, so that the pipeline ran
  rcases completes_refreshBuilding.1 hrefresh with ⟨hnil, -⟩ | ⟨-, snapshots, rfl, hrun⟩
  · exact absurd (hreadings.symm.trans hnil) hnonempty
  have hd : ({ t with watch } : Monitor τ).store.values.Distinct := hsynced.store.distinct
  have hlen : snapshots.length = rs.length :=
    (length_runBuilding hrun).trans (congrArg List.length hreadings)
  have hreadings' : m'.readings = rs := (passed_runBuilding hd hrun).1.trans hreadings
  have hrecord (i : Nat) (snapshot : Snapshot) (hsnapshot : snapshots[i]? = some snapshot) :
      m'.store.record? (.text (keyOf i)) = some (.object snapshot.toRecord) := by
    obtain ⟨hi, -⟩ := List.getElem?_eq_some_iff.1 hsnapshot
    have hr : t.readings[i]? = some rs[i] := by
      rw [hreadings]
      exact List.getElem?_eq_getElem (hlen ▸ hi)
    obtain ⟨snapshot', u, v, hsnapshot', hhandled⟩ := handled_runBuilding hd hr hrun
    cases hsnapshot.symm.trans hsnapshot'
    exact hm'.record?_of_handled (htyped _ (List.getElem_mem _)) hhandled
  refine ⟨snapshots, rfl, hlen, fun k => ?_, hrecord⟩
  rw [← hreadings']
  refine hm'.isSome_find?_iff (fun i hi => ?_) k
  rw [hreadings', ← hlen] at hi
  rw [hrecord i _ (List.getElem?_eq_getElem hi)]
  rfl

end

section Histories

variable {start : Monitor Bench} {past : List BenchEvent}

theorem Fresh.faithful_overheard {keyOf : Nat → Text} (h : start.Fresh)
    (hbacking : start.store.backing = none)
    (hcalm : ∀ subscriber ∈ start.store.subscribers, subscriber.reaction ≠ .fail)
    (hquiet : start.store.Quiet) :
    start.overheard.Faithful start.store.values keyOf := by
  refine ⟨h.kept_overheard hbacking hcalm, fun subscriber hm => ?_, fun i r hr => ?_,
    fun i key hkey => ?_, fun i s hs => ?_, fun i s last hs => ?_⟩
  · rcases List.mem_cons.1 hm with rfl | hm
    · exact nofun
    · exact hquiet subscriber hm
  · rw [show start.overheard.readings = [] from h.readings] at hr
    cases hr
  · rw [show start.overheard.keys = [] from h.keys] at hkey
    cases hkey
  · cases (h.state? i).symm.trans hs
  · cases (h.state? i).symm.trans hs

/-- **A malformed reading does not poison a monitor.**  From a new monitor over an empty store in
memory, after any history of operations over readings that hold anything but name no key, and
whatever stopped with a fault on the way, a list of sound readings that name no key either is taken
to the end.  Then the keys of the store are those of the indices of the list, and under each of them
stands the snapshot that was built for the battery just now.  The list itself is taken to the end where
what is observed of it is (`BenchEvent.act_eq`). -/
theorem recovers_of_sound {rs : List Reading} (hfresh : start.Fresh)
    (hbacking : start.store.backing = none) (hempty : start.store.values = [])
    (hcalm : ∀ subscriber ∈ start.store.subscribers, subscriber.reaction ≠ .fail)
    (hquiet : start.store.Quiet)
    (hpast : ∀ e ∈ past, ∀ rs ∈ e.brought, ∀ r ∈ rs, r.storeKey = .null)
    (hnonempty : rs ≠ []) (hsound : ∀ r ∈ rs, r.isSound = true)
    (hkeyless : ∀ r ∈ rs, r.storeKey = .null) :
    ∃ snapshots m', Completes (BenchEvent.request (.batteriesChanged rs)).observe
        (afterAll BenchEvent.act start past) (some snapshots) m' ∧
      snapshots.length = rs.length ∧
      (∀ k, (m'.store.values.find? k).isSome ↔
        ∃ i < rs.length, k = .text (Reading.defaultName i)) ∧
      ∀ (i : Nat) (snapshot : Snapshot), snapshots[i]? = some snapshot →
        m'.store.record? (.text (Reading.defaultName i)) = some (.object snapshot.toRecord) := by
  have hnamed {rs : List Reading} (hrs : ∀ r ∈ rs, r.storeKey = .null) (i : Nat) (r : Reading)
      (hr : rs[i]? = some r) : Named Reading.defaultName i r := by
    have hnull := hrs r (List.mem_of_getElem? hr)
    exact ⟨by rw [hnull]; rfl,
      Reading.keyed_defaultName (fun r hr => by rw [hrs r hr]; rfl) i r hr⟩
  -- the proof follows what is heard, so that somebody has to listen
  have hn : (afterAll BenchEvent.act start.overheard past).Faithful [] Reading.defaultName :=
    (enduring_faithful Reading.defaultName_injective).afterAll_bench
      (hempty ▸ hfresh.faithful_overheard hbacking hcalm hquiet)
      fun e he rs hrs => hnamed (hpast e he rs hrs)
  have hover := coupled_afterAll (overhears_overheard start) coupled_act past
  generalize afterAll BenchEvent.act start.overheard past = n at hn hover
  obtain ⟨o, n', h, -⟩ :=
    exists_changeBuilding (Store.tireless_steady _) hn.toKept.working hsound
  obtain ⟨snapshots, rfl, hlen, hkeys, hrecords⟩ :=
    hn.published Reading.defaultName_injective hnonempty
      (fun r hr => Reading.isWellTyped_of_isSound (hsound r hr)) (hnamed hkeyless) h
  obtain ⟨m', hm', hover'⟩ :=
    (coupled_bench (.request (.batteriesChanged rs))).completes_left hover h
  have hvalues : n'.store.values = m'.store.values := hover'.store.values
  refine ⟨snapshots, m', hm', hlen, fun k => hvalues ▸ hkeys k, fun i snapshot hsnapshot => ?_⟩
  rw [← hrecords i snapshot hsnapshot, Store.record?, Store.record?, hvalues]

/-- A history of malformed lists, the last event first: a snapshot is published with a list for a
name and a number for a failure; then three batteries come, of which the second one has no capacity
that is a number, and the pipeline stops at it; and so it does when it runs again. -/
def malformed : List BenchEvent :=
  [.request .refresh,
    .request (.batteriesChanged [{ failure := .int 7 },
      { currentCapacity := .text "full", maxCapacity := .int 100 }, {}]),
    .request (.batteriesChanged [{ name := .list [.text "A"], failure := .int 7 }])]

/-- Two sound readings after it are published as they should be, and nothing else is in the
store. -/
theorem recovers_of_sound_malformed :
    let rs : List Reading := [{}, { currentCapacity := .int 50, maxCapacity := .int 100 }]
    faultless BenchEvent.act onBench malformed = false ∧ ∃ snapshots m',
      Completes (BenchEvent.request (.batteriesChanged rs)).observe
        (afterAll BenchEvent.act onBench malformed) (some snapshots) m' ∧
      snapshots.length = 2 ∧
      (∀ k, (m'.store.values.find? k).isSome ↔
        ∃ i < 2, k = .text (Reading.defaultName i)) ∧
      ∀ (i : Nat) (snapshot : Snapshot), snapshots[i]? = some snapshot →
        m'.store.record? (.text (Reading.defaultName i)) = some (.object snapshot.toRecord) := by
  intro rs
  exact ⟨by decide +kernel, recovers_of_sound fresh_onBench rfl rfl (by decide +kernel)
    (fun _ h => absurd h List.not_mem_nil) (by decide +kernel) (List.cons_ne_nil _ _)
    (by decide +kernel) (by decide +kernel)⟩

end Histories

end Monitor

end BatteryMonitor
