import BatteryMonitor.Proofs.Monitor.Events
import BatteryMonitor.Proofs.Report

/-!
# No record is stale

A snapshot is not written again if it is the one that was last published for its index.  That is
right only if the store still holds that snapshot, and meanwhile other indices may have taken the
key, or left it, which removes the record.  This file shows that all the same a record is never
stale:

* `Monitor.Linked` : the invariant.  The record under the key of an index is the snapshot that was
  last published for it, or there is none.
* `Monitor.linked_run` : **a run keeps the invariant**, and every record that it leaves under the
  key of a battery is the snapshot that it built for this battery.
* `Monitor.record_eq_of_observe` : so it is after every history without faults, over well-typed
  readings with distinct keys.

In the middle of a run the invariant does not hold: an index that comes to a key overwrites the
record that a higher index is still linked to.  But the higher index moves, since the keys are
distinct, and takes the record away; so the invariant is not followed through the pass, but what
happens at the key of one battery is (`Monitor.Handled`): whatever comes before and after it at
that key can only remove.
-/

namespace BatteryMonitor

namespace Monitor

open Effect

variable {τ : Type} {m m' : Monitor τ}

/-- The list may come: its keys are distinct and its readings are well-typed. -/
def Admissible (rs : List Reading) : Prop :=
  Reading.DistinctKeys rs ∧ ∀ r ∈ rs, r.isWellTyped = true

instance (rs : List Reading) : Decidable (Admissible rs) :=
  inferInstanceAs (Decidable (_ ∧ _))

/-- The record under a key is the given snapshot, or there is none. -/
def Shows (store : Store) (key : Value) (snapshot : Snapshot) : Prop :=
  store.record? key = none ∨ store.record? key = some (.object snapshot.toRecord)

theorem Shows.rekeyed {store store' : Store} {left taken : Value → Prop} {key : Value}
    {snapshot : Snapshot} (h : Shows store key snapshot)
    (hrekeyed : store.Rekeyed left taken store') (htaken : ¬ taken key) :
    Shows store' key snapshot := by
  rcases hrekeyed.untaken htaken with hsame | hnone
  · unfold Shows
    rw [hsame]
    exact h
  · exact .inl hnone

/-- **What was last published for an index is what the store shows under its key.** -/
structure Linked (m : Monitor τ) : Prop where
  fitted : m.Fitted
  distinct : m.store.values.Distinct
  shows : ∀ i s last, m.state? i = some s → s.lastPublished = some last → last.Plain ∧
    ∃ key, m.keys.lookup i = some key ∧ key.isNull = false ∧ key.entryOf?.isSome ∧
      Shows m.store key last

/-! ### The key of one battery -/

section Battery

variable {rs : List Reading} {k : Nat} {r : Reading}

theorem not_claimed_take (hkeys : Reading.DistinctKeys rs) (hr : rs[k]? = some r)
    (hsome : (r.effectiveKey k).entryOf?.isSome) : ¬ Claimed 0 (rs.take k) (r.effectiveKey k) := by
  rintro ⟨j, r', hr', hentry⟩
  rw [Nat.zero_add] at hentry
  rw [List.getElem?_take] at hr'
  split at hr'
  · rename_i hj
    have hkj := hkeys.eq_of_entryOf? hr hr' hentry.symm hsome
    omega
  · cases hr'

theorem not_claimed_drop (hkeys : Reading.DistinctKeys rs) (hr : rs[k]? = some r)
    (hsome : (r.effectiveKey k).entryOf?.isSome) :
    ¬ Claimed (k + 1) (rs.drop (k + 1)) (r.effectiveKey k) := by
  rintro ⟨j, r', hr', hentry⟩
  rw [List.getElem?_drop] at hr'
  have hkj := hkeys.eq_of_entryOf? hr hr' hentry.symm hsome
  omega

variable [Scheduler τ] {snapshot : Snapshot} {u t : Monitor τ}

/-- When the snapshot of a battery has been put in its place, the record of the battery is this
snapshot, or there is none, and the snapshot that counts as last published makes this record. -/
theorem Linked.shows_of_placed (hlinked : m.Linked) (hkeys : Reading.DistinctKeys m.readings)
    (hr : m.readings[k]? = some r) (htyped : r.isWellTyped = true)
    (h : Handled m k r snapshot u t m') :
    ∃ s' last', t.state? k = some s' ∧ s'.lastPublished = some last' ∧ last'.Plain ∧
      last'.toRecord = snapshot.toRecord ∧ (r.effectiveKey k).entryOf?.isSome ∧
        Shows t.store (r.effectiveKey k) snapshot := by
  obtain ⟨s₀, minutes, latched, hs₀, hminutes, hreport, hu⟩ := h.report
  have hplain : snapshot.Plain := Reading.plain_report htyped rfl hreport
  cases h.placed with
  | skipped s last hs hlast hsame hstay heq =>
    obtain rfl : { s₀ with timeRemaining := .int minutes, latched } = s :=
      Option.some.inj (hu.symm.trans hs)
    obtain ⟨hplain', old, hold, hnull, holdsome, hshows⟩ := hlinked.shows k s₀ last hs₀ hlast
    have hentry : (r.effectiveKey k).entryOf? = old.entryOf? :=
      entryOf?_eq_of_not_moves (hstay old) (h.key.trans hold) hnull rfl holdsome
    have hsome : (r.effectiveKey k).entryOf?.isSome := hentry ▸ holdsome
    have hrecord := hplain'.toRecord_eq hplain hsame
    have hstart : Shows m.store (r.effectiveKey k) snapshot := by
      unfold Shows
      rw [Store.record?_congr hentry, ← hrecord]
      exact hshows
    rw [heq]
    -- the batteries before this one may only have removed its record
    exact ⟨_, last, hs, hlast, hplain', hrecord, hsome,
      hstart.rekeyed h.before (not_claimed_take hkeys hr hsome)⟩
  | written s between store hs hvacated hset hstates heq =>
    have hstore : t.store = store := by rw [heq]
    have hvacant := hvacated.rekeyed h.before.distinct
    obtain ⟨hsome, -, hown⟩ := Store.record?_setValue hvacant.distinct hset
    refine ⟨_, snapshot, by rw [hstates, if_pos rfl], rfl, hplain, rfl, hsome, ?_⟩
    unfold Shows
    rw [hstore]
    rcases hown _ rfl with hnew | ⟨-, hnone⟩
    · exact .inr hnew
    · exact .inl hnone

/-- The batteries after this one change nothing about that, except that they may remove the
record. -/
theorem Linked.shows_of_handled (hlinked : m.Linked) (hkeys : Reading.DistinctKeys m.readings)
    (hr : m.readings[k]? = some r) (htyped : r.isWellTyped = true)
    (h : Handled m k r snapshot u t m') :
    ∃ s' last', m'.state? k = some s' ∧ s'.lastPublished = some last' ∧ last'.Plain ∧
      last'.toRecord = snapshot.toRecord ∧ (r.effectiveKey k).entryOf?.isSome ∧
        Shows m'.store (r.effectiveKey k) snapshot := by
  obtain ⟨s', last', hs', hlast', hplain, hrecord, hsome, hshows⟩ :=
    hlinked.shows_of_placed hkeys hr htyped h
  exact ⟨s', last', h.state?.trans hs', hlast', hplain, hrecord, hsome,
    hshows.rekeyed h.after (not_claimed_drop hkeys hr hsome)⟩

end Battery

/-! ### The invariant -/

theorem Linked.synced {rs : List Reading} {t : Monitor τ} (hlinked : m.Linked)
    (h : Synced { m with readings := rs } t) : t.Linked where
  fitted := h.fitted
  distinct := h.store.distinct
  shows i s last hs hlast := by
    obtain ⟨hi, hold⟩ := h.state?_of_lastPublished hs hlast
    obtain ⟨hplain, key, hkey, hnull, hsome, hshows⟩ := hlinked.shows i s last hold hlast
    have hkey' : t.keys.lookup i = some key := (h.lookup_keys hi).trans hkey
    exact ⟨hplain, key, hkey', hnull, hsome, hshows.rekeyed h.store id⟩

theorem Fresh.linked (h : m.Fresh) : m.Linked where
  fitted := h.fitted
  distinct := h.distinct
  shows i s last hs := by
    rw [h.state?] at hs
    cases hs

section Runs

variable [Scheduler τ]

/-- **A run shows what it builds**: it keeps records linked, and leaves no other record under the
key of a battery than the snapshot that it built for it. -/
theorem linked_run {snapshots : List Snapshot} (hlinked : m.Linked)
    (hadmissible : Admissible m.readings) (h : Completes runBuilding m snapshots m') :
    m'.Linked ∧ ∀ (i : Nat) (r : Reading), m.readings[i]? = some r →
      ∃ snapshot, snapshots[i]? = some snapshot ∧ Shows m'.store (r.effectiveKey i) snapshot := by
  obtain ⟨hkeys, htyped⟩ := hadmissible
  have hbattery (i : Nat) (r : Reading) (hr : m.readings[i]? = some r) :
      ∃ snapshot s' last', snapshots[i]? = some snapshot ∧ m'.state? i = some s' ∧
        s'.lastPublished = some last' ∧ last'.Plain ∧ last'.toRecord = snapshot.toRecord ∧
          m'.keys.lookup i = some (r.effectiveKey i) ∧ (r.effectiveKey i).entryOf?.isSome ∧
            Shows m'.store (r.effectiveKey i) snapshot := by
    obtain ⟨snapshot, u, t, hsnapshot, hhandled⟩ := handled_runBuilding hlinked.distinct hr h
    obtain ⟨s', last', hs', hlast', hplain, hrecord, hsome, hshows⟩ :=
      hlinked.shows_of_handled hkeys hr (htyped r (List.mem_of_getElem? hr)) hhandled
    exact ⟨snapshot, s', last', hsnapshot, hs', hlast', hplain, hrecord, hhandled.key', hsome,
      hshows⟩
  obtain ⟨-, hdistinct, -, houtside⟩ := passed_runBuilding hlinked.distinct h
  refine ⟨⟨fitted_runBuilding hlinked.fitted hlinked.distinct h, hdistinct,
    fun i s last hs hlast => ?_⟩, fun i r hr => ?_⟩
  · by_cases hi : i < m.readings.length
    · obtain ⟨snapshot, s', last', -, hs', hlast', hplain, hrecord, hkey, hsome, hshows⟩ :=
        hbattery i _ (List.getElem?_eq_getElem hi)
      obtain rfl : s' = s := Option.some.inj (hs'.symm.trans hs)
      obtain rfl : last' = last := Option.some.inj (hlast'.symm.trans hlast)
      refine ⟨hplain, _, hkey, Reading.effectiveKey_isNull .., hsome, ?_⟩
      unfold Shows
      rw [hrecord]
      exact hshows
    -- beyond the end of the list no index has a state
    · rw [(houtside i (by omega)).2] at hs
      have hfit := (hlinked.fitted i).1 (by rw [hs]; rfl)
      exact absurd hfit hi
  · obtain ⟨snapshot, -, -, hsnapshot, -, -, -, -, -, -, hshows⟩ := hbattery i r hr
    exact ⟨snapshot, hsnapshot, hshows⟩

theorem linked_turn {o : Option (List Snapshot)} (hlinked : m.Linked) (h : Turned m o m')
    (hadmissible : Admissible m'.readings) : m'.Linked ∧ ∀ snapshots, o = some snapshots →
      ∀ (i : Nat) (r : Reading), m'.readings[i]? = some r →
        ∃ snapshot, snapshots[i]? = some snapshot ∧
          Shows m'.store (r.effectiveKey i) snapshot := by
  cases h with
  | rested hsynced _ =>
    exact ⟨hlinked.synced hsynced, fun _ ho => absurd ho.symm (Option.some_ne_none _)⟩
  | ran hsynced hrun =>
    have ht := hlinked.synced hsynced
    have hreadings := (passed_runBuilding ht.distinct hrun).1
    rw [hreadings] at hadmissible ⊢
    obtain ⟨hlinked', hshows⟩ := linked_run ht hadmissible hrun
    refine ⟨hlinked', ?_⟩
    rintro _ ⟨⟩
    exact hshows

theorem linked_afterAll {start : Monitor τ} {past : List (Event τ)} (hfresh : start.Fresh)
    (hfaultless : faultless Event.act start past)
    (hlists : ∀ e ∈ past, ∀ rs ∈ e.brought, Admissible rs) :
    (afterAll Event.act start past).Linked ∧
      Admissible (afterAll Event.act start past).readings := by
  refine faultless_induction (I := fun m : Monitor τ => m.Linked ∧ Admissible m.readings)
    ⟨hfresh.linked, ?_⟩ ?_ hfaultless hlists
  · rw [hfresh.readings]
    exact ⟨.nil, fun _ hr => absurd hr List.not_mem_nil⟩
  · intro e m a m' hlist ⟨hlinked, hadmissible⟩ h
    obtain ⟨o, h⟩ := Event.completes_act.1 h
    obtain ⟨hturned, hreadings⟩ := turned_observe hlinked.fitted hlinked.distinct h
    have hadmissible' : Admissible m'.readings := hreadings ▸ holds_getD hadmissible hlist
    exact ⟨(linked_turn hlinked hturned hadmissible').1, hadmissible'⟩

/-- **No record is stale.**  When an event has run the pipeline, at the end of any history without
faults over well-typed readings with distinct keys, a record under the key of a battery is the
snapshot that this very run built for the battery, whether it wrote it or not.  The event itself leaves
the same monitor and forgets the snapshots (`Event.act_eq`). -/
theorem record_eq_of_observe {start : Monitor τ} {past : List (Event τ)} {e : Event τ}
    {snapshots : List Snapshot} (hfresh : start.Fresh)
    (hfaultless : faultless Event.act start past)
    (hlists : ∀ e' ∈ e :: past, ∀ rs ∈ e'.brought, Admissible rs)
    (h : Completes e.observe (afterAll Event.act start past) (some snapshots) m') :
    ∀ (i : Nat) (r : Reading) (v : Value), m'.readings[i]? = some r →
      m'.store.record? (r.effectiveKey i) = some v →
        ∃ snapshot, snapshots[i]? = some snapshot ∧ v = .object snapshot.toRecord := by
  intro i r v hr hv
  obtain ⟨hlinked, hadmissible⟩ := linked_afterAll hfresh hfaultless fun e' he' =>
    hlists e' (List.mem_cons_of_mem _ he')
  obtain ⟨hturned, hreadings⟩ := turned_observe hlinked.fitted hlinked.distinct h
  have hadmissible' : Admissible m'.readings :=
    hreadings ▸ holds_getD hadmissible (hlists e List.mem_cons_self)
  obtain ⟨snapshot, hsnapshot, hshows⟩ :=
    (linked_turn hlinked hturned hadmissible').2 snapshots rfl i r hr
  refine ⟨snapshot, hsnapshot, ?_⟩
  rcases hshows with hnone | hsome
  · cases hnone.symm.trans hv
  · exact Option.some.inj (hv.symm.trans hsome)

end Runs

/-- Two batteries come, and the pipeline runs again without writing: the second one has its
record. -/
theorem record_eq_of_observe_refresh : ∃ (snapshots : List Snapshot) (m' : Monitor Bench)
    (r : Reading) (v : Value) (snapshot : Snapshot),
    Completes (Event.request .refresh).observe
      (afterAll Event.act onBench [.request (.batteriesChanged
        [{ storeKey := .text "A" }, { storeKey := .text "B" }])]) (some snapshots) m' ∧
    m'.readings[1]? = some r ∧ m'.store.record? (r.effectiveKey 1) = some v ∧
    snapshots[1]? = some snapshot ∧ v = .object snapshot.toRecord := by
  obtain ⟨snapshots, h⟩ := completes_of_yields (Event.request .refresh).observe
    (afterAll Event.act onBench [.request (.batteriesChanged
      [{ storeKey := .text "A" }, { storeKey := .text "B" }])]) (by decide +kernel)
  generalize hm : after _ _ = m' at h
  have hrecord : (m'.readings[1]?.bind fun r => m'.store.record? (r.effectiveKey 1)).isSome := by
    rw [← hm]
    decide +kernel
  obtain ⟨v, hv⟩ := Option.isSome_iff_exists.1 hrecord
  obtain ⟨r, hr, hv⟩ := Option.bind_eq_some_iff.1 hv
  obtain ⟨snapshot, hsnapshot, heq⟩ := record_eq_of_observe fresh_onBench (by decide +kernel)
    (by decide +kernel) h 1 r v hr hv
  exact ⟨snapshots, m', r, v, snapshot, h, hr, hv, hsnapshot, heq⟩

end Monitor

end BatteryMonitor
