import BatteryMonitor.Proofs.Monitor.Ear
import BatteryMonitor.Proofs.Report
import BatteryMonitor.Proofs.Steady

/-!
# What a monitor writes is its own, and it cleans up after itself

A store may hold records of others.  A monitor never touches a key that it has not written itself,
and of those that it has written none is left when no battery of the list has it any more
(`Monitor.no_orphans`).  Keys may come twice in a list and move between its indices, and
operations may stop with faults halfway, as long as the store itself does not
(`Store.Steady`).

What a monitor has written is what a listener at its store has heard of (`Store.Wrote`).

* `Monitor.Owned` : the invariant.  The keys that are kept for the indices have all been written,
  and whatever has been written and is not kept for any index is not in the store.  It holds
  after every single placing, so it does not matter where a run stops.
* `Monitor.Owned.synced`, `Monitor.Owned.placed` : the two ways in which keys leave.
* `Monitor.Enduring` : what lasts whatever a monitor does, said by the few ways in which a monitor
  changes; the invariant does (`Monitor.enduring_kept`).
* `Monitor.Enduring.keeps_observe` : every event keeps what endures, with a fault or without one.
-/

namespace BatteryMonitor

namespace Monitor

open Effect

variable {τ : Type} {m m' : Monitor τ} {before : Table Value} {i : Nat} {key : Value}
  {name : Text} {snapshot : Snapshot}

/-! ### The invariant -/

/-- Some index was last published under the key. -/
def Holds (m : Monitor τ) (k : Key) : Prop :=
  ∃ j key, m.keys.lookup j = some key ∧ key.entryOf? = some k.entry

/-- **What was written is owned**: it belongs to an index, or it is gone.  What was not written is
as it was before. -/
structure Owned (before : Table Value) (m : Monitor τ) : Prop where
  steady : m.store.Steady
  named : ∀ j key, m.keys.lookup j = some key →
    ∃ name, key = .text name ∧ (m.state? j).isSome ∧ m.store.Wrote (.text name)
  published : ∀ j s, m.state? j = some s → s.lastPublished.isSome → (m.keys.lookup j).isSome
  foreign : ∀ k, ¬ m.store.Wrote k → m.store.values.find? k = before.find? k
  orphans : ∀ k, m.store.Wrote k → ¬ m.Holds k → m.store.values.find? k = none

theorem entryOf?_toValue (k : Key) : k.toValue.entryOf? = some k.entry := by
  rw [Value.entryOf?, Store.key?_toValue]
  rfl

theorem record?_toValue (s : Store) (k : Key) : s.record? k.toValue = s.values.find? k := by
  rw [Store.record?, Store.key?_toValue]
  rfl

namespace Owned

theorem wrote_of_holds (h : m.Owned before) {k : Key} (hk : m.Holds k) : m.store.Wrote k := by
  obtain ⟨j, key, hkey, hentry⟩ := hk
  obtain ⟨name, rfl, -, hwrote⟩ := h.named j key hkey
  exact hwrote.congr (Option.some.inj hentry)

theorem holds_of_publishedUnder {js : List Nat} {k : Key} (h : m.PublishedUnder js k.toValue) :
    m.Holds k := by
  obtain ⟨j, -, key, hkey, -, hentry⟩ := h
  exact ⟨j, key, hkey, hentry.trans (entryOf?_toValue k)⟩

theorem publishedUnder_of_lookup (h : m.Owned before) {js : List Nat} {k : Key} {j : Nat}
    (hj : j ∈ js) (hkey : m.keys.lookup j = some key) (hentry : key.entryOf? = some k.entry) :
    m.PublishedUnder js k.toValue := by
  obtain ⟨name, rfl, -, -⟩ := h.named j key hkey
  exact ⟨j, hj, _, hkey, rfl, hentry.trans (entryOf?_toValue k).symm⟩

/-- **What becomes of the records** when indices leave their keys and keys are taken: nothing else
is touched, and what is left is gone. -/
theorem records_rekeyed (h : m.Owned before) {js : List Nat} {taken : Value → Prop}
    (hstore : m.store.Rekeyed (m.PublishedUnder js) taken m'.store)
    (hkept : ∀ j, j ∉ js → m'.keys.lookup j = m.keys.lookup j)
    (htaken : ∀ k : Key, taken k.toValue → m'.Holds k)
    (hwrote : ∀ k, m'.store.Wrote k ↔ m.store.Wrote k ∨ taken k.toValue) :
    (∀ k, ¬ m'.store.Wrote k → m'.store.values.find? k = before.find? k) ∧
      ∀ k, m'.store.Wrote k → ¬ m'.Holds k → m'.store.values.find? k = none := by
  refine ⟨fun k hnot => ?_, fun k hwritten hfree => ?_⟩
  · rw [hwrote, not_or] at hnot
    have hstays := hstore.stays k.toValue
      (fun hleft => hnot.1 (h.wrote_of_holds (holds_of_publishedUnder hleft))) hnot.2
    rw [record?_toValue, record?_toValue] at hstays
    exact hstays.trans (h.foreign k hnot.1)
  · have huntaken : ¬ taken k.toValue := fun hk => hfree (htaken k hk)
    rw [← record?_toValue]
    by_cases hleft : m.PublishedUnder js k.toValue
    · exact hstore.gone _ hleft huntaken
    · rw [hstore.stays _ hleft huntaken, record?_toValue]
      -- an index that held the key would hold it still
      refine h.orphans k (((hwrote k).1 hwritten).resolve_right huntaken) ?_
      rintro ⟨j, key, hkey, hentry⟩
      by_cases hj : j ∈ js
      · exact hleft (h.publishedUnder_of_lookup hj hkey hentry)
      · exact hfree ⟨j, key, (hkept j hj).trans hkey, hentry⟩

theorem congr (h : m.Owned before) (hstore : m'.store = m.store) (hkeys : m'.keys = m.keys)
    (hstates : ∀ j, (m'.state? j).map (·.lastPublished) = (m.state? j).map (·.lastPublished)) :
    m'.Owned before := by
  have hsome (j : Nat) : (m'.state? j).isSome = (m.state? j).isSome := by
    rw [← Option.isSome_map, hstates, Option.isSome_map]
  have hholds (k : Key) : m'.Holds k ↔ m.Holds k := by rw [Holds, Holds, hkeys]
  refine ⟨hstore ▸ h.steady, fun j key hkey => ?_, fun j s hs hlast => ?_, ?_, fun k => ?_⟩
  · rw [hkeys] at hkey
    rw [hsome, hstore]
    exact h.named j key hkey
  · have hmap := hstates j
    rw [hs, Option.map_some] at hmap
    obtain ⟨s', hs', hsame⟩ := Option.map_eq_some_iff.1 hmap.symm
    rw [hkeys]
    exact h.published j s' hs' (hsame ▸ hlast)
  · rw [hstore]
    exact h.foreign
  · rw [hstore, hholds]
    exact h.orphans k

/-! ### Fitting the states to the list -/

/-- **Fitting the states to a list** leaves what was written owned. -/
theorem synced (h : m.Owned before) (hsynced : Synced m m') (hsteady : m'.store.Steady)
    (hwrote : ∀ k, m'.store.Wrote k ↔ m.store.Wrote k) : m'.Owned before := by
  obtain ⟨hforeign, horphans⟩ := h.records_rekeyed hsynced.store
    (fun j hj => by rw [hsynced.keys, if_neg hj]) (fun _ => False.elim)
    fun k => (hwrote k).trans (or_false _).symm.to_iff
  refine ⟨hsteady, fun j key hkey => ?_, fun j s hs hlast => ?_, hforeign, horphans⟩
  · rw [hsynced.keys] at hkey
    split at hkey
    · cases hkey
    · rename_i hj
      obtain ⟨name, rfl, hsome, hwritten⟩ := h.named j key hkey
      refine ⟨name, rfl, ?_, (hwrote _).2 hwritten⟩
      have hlt : j < m.readings.length :=
        Nat.lt_of_not_le fun hle => hj (mem_beyond.2 ⟨hle, hsome⟩)
      rw [hsynced.state?, if_pos hlt]
      rfl
  · obtain ⟨last, hlast'⟩ := Option.isSome_iff_exists.1 hlast
    obtain ⟨hj, hold⟩ := hsynced.state?_of_lastPublished hs hlast'
    rw [hsynced.lookup_keys hj]
    exact h.published j s hold hlast

end Owned

section Tireless

variable {good : Table Value → Prop} {P : Store → Prop}

/-- What dropping and adding states need: the store goes on, and all keys are texts. -/
structure Sweepable (P : Store → Prop) (m t : Monitor τ) : Prop where
  carried : P t.store
  named : ∀ j key, t.keys.lookup j = some key → ∃ name, key = .text name
  wrote : ∀ k, t.store.Wrote k ↔ m.store.Wrote k

theorem exists_dropBattery {t : Monitor τ} (hP : Store.Tireless good P) (h : m.Sweepable P t)
    (i : Nat) : ∃ t', Completes (dropBattery i) t () t' ∧ m.Sweepable P t' := by
  have hnamed (j : Nat) (key : Value) (hkey : (eraseAt i t.keys).lookup j = some key) :
      ∃ name, key = .text name := by
    rw [lookup_eraseAt] at hkey
    split at hkey
    · cases hkey
    · exact h.named j key hkey
  simp only [dropBattery, completes_get_bind, completes_modify_bind]
  cases hkey : t.keys.lookup i with
  | none => exact ⟨_, completes_pure.2 ⟨rfl, rfl⟩, h.carried, hnamed, h.wrote⟩
  | some key =>
    obtain ⟨name, rfl⟩ := h.named i key hkey
    obtain ⟨store, hremove, hstore⟩ := hP.exists_removeValue h.carried
      (show (Value.text name).key? = some (.text name) from rfl)
    have hnull : ¬ (Value.text name).isNull = true := Bool.false_ne_true
    simp only [if_neg hnull]
    exact ⟨_, completes_onStore.2 ⟨store, hremove, rfl⟩, hstore, hnamed,
      fun k => (Store.wrote_removeValue hremove).trans (h.wrote k)⟩

/-- **States can always be fitted to a list.** -/
theorem exists_syncStates (hP : Store.Tireless good P) (h : m.Sweepable P m) :
    ∃ m', Completes syncStates m () m' ∧ m.Sweepable P m' := by
  simp only [syncStates, completes_get_bind]
  refine exists_bind (exists_forIn (Q := m.Sweepable P) (fun entry _ t ht => ?_) h) fun t ht =>
    exists_bind (exists_forIn (Q := m.Sweepable P) (fun index _ u hu => ?_) ht) fun _ => exists_pure
  · split
    · exact exists_bind (exists_dropBattery hP ht entry.1) fun _ => exists_pure
    · exact exists_pure ht
  · simp only [completes_get_bind]
    split
    · exact ⟨_, completes_modify_bind.2 (completes_pure.2 ⟨rfl, rfl⟩),
        ⟨hu.carried, hu.named, hu.wrote⟩⟩
    · exact exists_pure hu

/-! ### Placing a snapshot -/

theorem exists_moveKey (hP : Store.Tireless good P) (hstore : P m.store)
    (hnamed : ∀ key, m.keys.lookup i = some key → ∃ name, key = .text name)
    {s : BatteryState} (hs : m.state? i = some s) :
    ∃ t, Completes (moveKey i key) m () t ∧ P t.store ∧ (t.state? i).isSome := by
  have hsome : (m.state? i).isSome := Option.isSome_of_eq_some hs
  simp only [moveKey, completes_get_bind]
  cases hkey : m.keys.lookup i with
  | none => exact ⟨m, completes_pure.2 ⟨rfl, rfl⟩, hstore, hsome⟩
  | some old =>
    dsimp only
    split
    · obtain ⟨name, rfl⟩ := hnamed old hkey
      obtain ⟨store, hremove, hstore⟩ := hP.exists_removeValue hstore
        (show (Value.text name).key? = some (.text name) from rfl)
      refine exists_bind (Q := fun t => P t.store ∧ t.state? i = some s)
        ⟨_, completes_onStore.2 ⟨store, hremove, rfl⟩, hstore, hs⟩ fun t ht => ?_
      simp only [completes_get_bind, ht.2]
      refine ⟨_, completes_modify.2 rfl, ht.1, ?_⟩
      simp only [state?, lookup_setAt, if_true]
      rfl
    · exact ⟨m, completes_pure.2 ⟨rfl, rfl⟩, hstore, hsome⟩

theorem exists_publish (hP : Store.Tireless good P) {store : Store} (h : P store)
    (s : BatteryState) (name : Text) (hgood : good snapshot.toRecord) :
    ∃ b store', Completes (Store.publish (.text name) s snapshot) store b store' ∧ P store' := by
  obtain ⟨store', hset, hstore'⟩ := hP.exists_setValue h name hgood
  have hwrite : Completes (do
      Store.setValue (.text name) (.object snapshot.toRecord)
      return true) store true store' :=
    completes_bind.2 ⟨(), store', hset, completes_pure.2 ⟨rfl, rfl⟩⟩
  unfold Store.publish
  split
  · split
    · exact ⟨false, store, completes_pure.2 ⟨rfl, rfl⟩, h⟩
    · exact ⟨true, store', hwrite, hstore'⟩
  · exact ⟨true, store', hwrite, hstore'⟩

/-- **A snapshot whose record is good can always be placed** under a text, if its index has a
state. -/
theorem exists_place (hP : Store.Tireless good P) (hstore : P m.store)
    (hnamed : ∀ key, m.keys.lookup i = some key → ∃ name, key = .text name) (name : Text)
    (hgood : good snapshot.toRecord) (hsome : (m.state? i).isSome) :
    ∃ m', Completes (place i (.text name) snapshot) m () m' ∧ P m'.store := by
  obtain ⟨s, hs⟩ := Option.isSome_iff_exists.1 hsome
  refine exists_bind (exists_moveKey hP hstore hnamed hs) fun t ht => ?_
  obtain ⟨hstore, hsome'⟩ := ht
  obtain ⟨s', hs'⟩ := Option.isSome_iff_exists.1 hsome'
  simp only [completes_modify_bind, completes_get_bind, state?,
    show t.states.lookup i = some s' from hs']
  obtain ⟨b, store, hpublish, hstore⟩ := exists_publish hP hstore s' name hgood
  refine exists_bind (Q := fun t => P t.store)
    ⟨_, completes_onStore.2 ⟨store, hpublish, rfl⟩, hstore⟩ fun u hu => ?_
  split
  · exact ⟨_, completes_modify.2 rfl, hu⟩
  · exact exists_pure hu

end Tireless

namespace Owned

theorem exists_place (h : m.Owned before) (name : Text) (snapshot : Snapshot)
    (hsome : (m.state? i).isSome) : ∃ m', Completes (place i (.text name) snapshot) m () m' ∧
      m'.store.Steady :=
  Monitor.exists_place (Store.tireless_steady fun _ => True) h.steady
    (fun key hkey => (h.named i key hkey).imp fun _ h => h.1) name trivial hsome

/-- What placing a snapshot writes is its key; a snapshot that is not written has been under its
key before. -/
theorem wrote_placed (h : m.Owned before) (hplaced : Placed m i (.text name) snapshot m')
    (k : Key) : m'.store.Wrote k ↔ m.store.Wrote k ∨ (Key.text name).entry = k.entry := by
  cases hplaced with
  | skipped s last hs hlast _ hstay heq =>
    rw [heq]
    refine (or_iff_left_of_imp fun hentry => ?_).symm
    obtain ⟨old, hold⟩ := Option.isSome_iff_exists.1 (h.published i s hs (by rw [hlast]; rfl))
    obtain ⟨name', rfl, -, hwrote⟩ := h.named i old hold
    have hsame := entryOf?_eq_of_not_moves (hstay _) hold rfl rfl rfl
    exact hwrote.congr ((Option.some.inj hsame).symm.trans hentry)
  | written s between store hs hvacated hset _ heq =>
    have hbetween (k : Key) : between.Wrote k ↔ m.store.Wrote k := by
      rcases hvacated with ⟨-, rfl⟩ | ⟨old, -, hremove⟩
      · exact .rfl
      · exact Store.wrote_removeValue hremove
    have hattended : between.subscribers ≠ [] := by
      rcases hvacated with ⟨-, rfl⟩ | ⟨old, -, hremove⟩
      · exact h.steady.attended
      · exact hremove.keeps (Store.keeps_attended_removeValue old) h.steady.attended
    rw [heq, ← hbetween]
    exact Store.wrote_setValue hattended rfl hset

/-- **Placing a snapshot** leaves what was written owned. -/
theorem placed (h : m.Owned before) (hplaced : Placed m i (.text name) snapshot m')
    (hsteady : m'.store.Steady) : m'.Owned before := by
  have hwrote := h.wrote_placed hplaced
  have hown : m'.keys.lookup i = some (.text name) := by rw [hplaced.keys, if_pos rfl]
  obtain ⟨hforeign, horphans⟩ := h.records_rekeyed (hplaced.rekeyed h.steady.distinct)
    (fun j hj => by rw [hplaced.keys, if_neg (by simpa using hj)])
    (fun k hk => ⟨i, _, hown, hk.trans (entryOf?_toValue k)⟩) fun k => (hwrote k).trans
      (or_congr_right (by rw [entryOf?_toValue]; exact Option.some_inj.symm))
  obtain ⟨s, last, hs, hs'⟩ := hplaced.exists_lastPublished
  refine ⟨hsteady, fun j key hkey => ?_, fun j s hj hlast => ?_, hforeign, horphans⟩
  · by_cases hji : j = i
    · subst hji
      cases hown.symm.trans hkey
      exact ⟨name, rfl, Option.isSome_of_eq_some hs', (hwrote _).2 (.inr rfl)⟩
    · rw [hplaced.keys, if_neg hji] at hkey
      obtain ⟨name', rfl, hsome, hwritten⟩ := h.named j key hkey
      exact ⟨name', rfl, by rwa [hplaced.state?_of_ne hji], (hwrote _).2 (.inl hwritten)⟩
  · by_cases hji : j = i
    · rw [hji, hown]
      rfl
    · rw [hplaced.state?_of_ne hji] at hj
      rw [hplaced.keys, if_neg hji]
      exact h.published j s hj hlast

end Owned

/-! ### Runs and events -/

/-- What holds between operations: what was written is owned, there is a state for just the
indices of the list, and its readings name texts for their keys, or nothing. -/
structure Kept (before : Table Value) (m : Monitor τ) : Prop where
  owned : m.Owned before
  fitted : m.Fitted
  named : ∀ r ∈ m.readings, r.storeKey.isOptional .text = true

theorem Kept.congr (h : m.Kept before) (hstore : m'.store = m.store) (hkeys : m'.keys = m.keys)
    (hreadings : m'.readings = m.readings)
    (hstates : ∀ j, (m'.state? j).map (·.lastPublished) = (m.state? j).map (·.lastPublished)) :
    m'.Kept before := by
  refine ⟨h.owned.congr hstore hkeys hstates, fun j => ?_, hreadings ▸ h.named⟩
  rw [← Option.isSome_map, hstates, Option.isSome_map, hreadings]
  exact h.fitted j

theorem Kept.placed (h : m.Kept before) (hplaced : Placed m i (.text name) snapshot m')
    (hsteady : m'.store.Steady) : m'.Kept before :=
  ⟨h.owned.placed hplaced hsteady, hplaced.fitted h.fitted, hplaced.readings ▸ h.named⟩

theorem Kept.revised (h : m.Kept before) (hrevised : Revised m m') : m'.Kept before :=
  h.congr (by rw [hrevised.eq]) (by rw [hrevised.eq]) (by rw [hrevised.eq]) hrevised.lastPublished

theorem Kept.exists_synced (h : m.Kept before) (rs : List Reading) :
    ∃ t, Completes syncStates { m with readings := rs } () t ∧
      Synced { m with readings := rs } t ∧ t.store.Steady ∧
        ∀ k, t.store.Wrote k ↔ m.store.Wrote k := by
  have howned : Owned before { m with readings := rs } := h.owned.congr rfl rfl fun _ => rfl
  obtain ⟨t, hsync, ht⟩ := exists_syncStates (Store.tireless_steady fun _ => True)
    (m := { m with readings := rs })
    ⟨howned.steady, fun j key hkey => (howned.named j key hkey).imp fun _ h => h.1, fun _ => .rfl⟩
  exact ⟨t, hsync, synced_syncStates howned.steady.distinct hsync, ht.carried, ht.wrote⟩

theorem Kept.synced {rs : List Reading} (h : m.Kept before)
    (hnamed : ∀ r ∈ rs, r.storeKey.isOptional .text = true)
    (hsynced : Synced { m with readings := rs } m') (hsteady : m'.store.Steady)
    (hwrote : ∀ k, m'.store.Wrote k ↔ m.store.Wrote k) : m'.Kept before :=
  have howned : Owned before { m with readings := rs } := h.owned.congr rfl rfl fun _ => rfl
  ⟨howned.synced hsynced hsteady hwrote, hsynced.fitted, hsynced.readings ▸ hnamed⟩

/-! ### What an event keeps -/

/-- **What lasts whatever a monitor does**, if the readings are good for their indices: besides the
invariant, it is kept when something is reckoned for a battery, when a snapshot that was built is
placed, when the watch does anything, and when the states are fitted to a list. -/
structure Enduring [Scheduler τ] (before : Table Value) (good : Nat → Reading → Prop)
    (P : Monitor τ → Prop) : Prop where
  kept : ∀ {m}, P m → m.Kept before
  revised : ∀ {m m'}, P m → Revised m m' → P m'
  placed : ∀ {m m' : Monitor τ} {i : Nat} {r : Reading} {s : BatteryState} {snapshot : Snapshot},
    P m → m.readings[i]? = some r → m.state? i = some s →
      r.report s m.watch.conditions m.watch.now = .ok (snapshot, s.latched) →
        Placed m i (r.effectiveKey i) snapshot m' → m'.store.Steady → P m'
  watched : ∀ {m} watch, P m → P { m with watch }
  synced : ∀ {m m' : Monitor τ} {rs : List Reading}, P m →
    (∀ (i : Nat) (r : Reading), rs[i]? = some r → good i r) →
      Synced { m with readings := rs } m' → m'.store.Steady →
        (∀ k, m'.store.Wrote k ↔ m.store.Wrote k) → P m'

section Runs

variable [Scheduler τ] {good : Nat → Reading → Prop} {P : Monitor τ → Prop}

namespace Enduring

theorem keeps_estimateAll (hP : Enduring before good P) : Keeps P estimateAll :=
  fun m hm => hP.revised hm (revised_estimateAll m)

theorem keeps_build (hP : Enduring before good P) (i : Nat) (r : Reading) :
    Keeps P (build i r) :=
  fun m hm => hP.revised hm (revised_build i r m)

/-- A pass can only stop where a snapshot is built: it can always be placed. -/
theorem after_pass (hP : Enduring before good P) : ∀ {rs : List Reading} {p : Nat} {m : Monitor τ},
    P m → (∀ (k : Nat) (r : Reading), rs[k]? = some r → m.readings[p + k]? = some r) →
      P (after (pass p rs) m) := by
  intro rs
  induction rs with
  | nil => exact fun hm _ => hm
  | cons r rs ih =>
    intro p m hm hrs
    have hr : m.readings[p]? = some r := hrs 0 r rfl
    rw [pass, after_bind]
    split
    · rename_i snapshot hsnapshot
      have hbuild : Completes (build p r) m snapshot (after (build p r) m) := Prod.ext hsnapshot rfl
      have ht := hP.keeps_build p r m hm
      obtain ⟨s, latched, hs, hreport, heq⟩ := completes_build hbuild
      generalize after (build p r) m = t at hbuild ht heq ⊢
      have htr : t.readings = m.readings := by rw [heq]
      have hs' : t.state? p = some { s with latched } := by
        rw [heq]
        exact (lookup_setAt p p _ m.states).trans (if_pos rfl)
      obtain ⟨name, hname⟩ := Reading.exists_name
        ((hP.kept hm).named r (List.mem_of_getElem? hr)) p
      obtain ⟨u, hplace, hu⟩ :=
        (hP.kept ht).owned.exists_place name snapshot (Option.isSome_of_eq_some hs')
      rw [← hname] at hplace
      have hplaced := placed_place hplace
      have hPu : P u := hP.placed ht (htr ▸ hr) hs'
        (by rw [heq]; exact Reading.report_latched hreport) hplaced hu
      rw [hplace.after_bind, after_bind]
      have hrest := ih (p := p + 1) hPu fun k r' hr' => by
        rw [hplaced.readings, htr, Nat.add_assoc, Nat.add_comm 1]
        exact hrs (k + 1) r' hr'
      split <;> exact hrest
    · exact hP.keeps_build p r m hm

theorem keeps_runBuilding (hP : Enduring before good P) : Keeps P runBuilding :=
  keeps_bind hP.keeps_estimateAll fun _ => keeps_get_bind fun m hm =>
    hP.after_pass hm fun k r hr => by rwa [Nat.zero_add]

theorem keeps_onWatch {α : Type} (hP : Enduring before good P) (act : Watch.M τ α) :
    Keeps P (onWatch act) := by
  intro m hm
  unfold after
  rw [run_onWatch]
  exact hP.watched _ hm

theorem keeps_refreshBuilding (hP : Enduring before good P) : Keeps P refreshBuilding :=
  keeps_bind keeps_get fun _ => keeps_ite (keeps_pure _)
    (keeps_bind hP.keeps_runBuilding fun _ => keeps_pure _)

theorem keeps_changeBuilding (hP : Enduring before good P) {rs : List Reading}
    (hgood : ∀ (i : Nat) (r : Reading), rs[i]? = some r → good i r) :
    Keeps P (changeBuilding rs) := by
  intro m hm
  obtain ⟨t, hsync, hsynced, hsteady, hwrote⟩ := (hP.kept hm).exists_synced rs
  have hstart : after (changeBuilding rs) m = after (do
      syncStates
      onWatch (Watch.batteriesChanged rs)
      refreshBuilding) { m with readings := rs } := rfl
  rw [hstart, hsync.after_bind]
  exact keeps_bind (hP.keeps_onWatch _) (fun _ => hP.keeps_refreshBuilding) t
    (hP.synced hm hgood hsynced hsteady hwrote)

/-- **Every event keeps what endures**, with a fault or without one. -/
theorem keeps_observe (hP : Enduring before good P) {e : Event τ}
    (hlist : ∀ rs ∈ e.brought, ∀ (i : Nat) (r : Reading), rs[i]? = some r → good i r) :
    Keeps P e.observe := by
  cases e with
  | request r =>
    cases r with
    | prime found =>
      rcases found with _ | ⟨_ | ⟨r, rs⟩⟩
      · exact keeps_pure _
      · exact keeps_pure _
      · exact hP.keeps_changeBuilding (hlist _ rfl)
    | batteriesChanged readings => exact hP.keeps_changeBuilding (hlist _ rfl)
    | wake =>
      exact keeps_bind keeps_get fun _ => keeps_ite (keeps_pure _)
        (keeps_bind (hP.keeps_onWatch _) fun _ =>
          keeps_bind hP.keeps_runBuilding fun _ => keeps_pure _)
    | refresh => exact hP.keeps_refreshBuilding
  | windowOver => exact keeps_bind (hP.keeps_onWatch _) fun _ => hP.keeps_refreshBuilding
  | elapse timers =>
    exact keeps_bind (keeps_modify fun m hm => hP.watched _ hm) fun _ => keeps_pure _
  | support supported => exact keeps_bind (hP.keeps_onWatch _) fun _ => keeps_pure _

end Enduring

theorem enduring_kept : Enduring before (fun _ r => r.storeKey.isOptional .text = true)
    (Kept (τ := τ) before) where
  kept hm := hm
  revised hm hrevised := hm.revised hrevised
  placed {m m' i r s snapshot} hm hr _ _ hplaced hsteady := by
    obtain ⟨name, hname⟩ := Reading.exists_name (hm.named r (List.mem_of_getElem? hr)) i
    rw [hname] at hplaced
    exact hm.placed hplaced hsteady
  watched _ hm := hm.congr rfl rfl rfl fun _ => rfl
  synced hm hgood hsynced hsteady hwrote := hm.synced
    (fun r hr => (List.getElem?_of_mem hr).elim fun i => hgood i r) hsynced hsteady hwrote

/-- **Every event keeps what was written owned**, with a fault or without one. -/
theorem keeps_kept_observe {e : Event τ}
    (hlist : ∀ rs ∈ e.brought, ∀ r ∈ rs, r.storeKey.isOptional .text = true) :
    Keeps (Kept before) e.observe :=
  enduring_kept.keeps_observe fun rs hrs _ r hr => hlist rs hrs r (List.mem_of_getElem? hr)

theorem current_of_turned {snapshots : List Snapshot} {r : Reading}
    (h : Turned m (some snapshots) m') (hr : m'.readings[i]? = some r) :
    m'.keys.lookup i = some (r.effectiveKey i) ∧
      ∃ s minutes, m'.state? i = some s ∧ s.timeRemaining = .int minutes := by
  cases h with
  | ran hsynced hrun =>
    rw [(passed_runBuilding hsynced.store.distinct hrun).1] at hr
    obtain ⟨snapshot, u, t, -, hhandled⟩ := handled_runBuilding hsynced.store.distinct hr hrun
    obtain ⟨s, minutes, latched, -, -, -, hu⟩ := hhandled.report
    obtain ⟨s', last, hs', ht⟩ := hhandled.placed.exists_lastPublished
    obtain rfl := Option.some.inj (hu.symm.trans hs')
    exact ⟨hhandled.key', _, minutes, hhandled.state?.trans ht, rfl⟩

theorem Kept.current_of_observe {e : Event τ} {o : Option (List Snapshot)} (hkept : m.Kept before)
    (h : Completes e.observe m o m') (hran : o.isSome ∨ e = .request (.batteriesChanged []))
    (i : Nat) (r : Reading) (hr : m'.readings[i]? = some r) :
    m'.keys.lookup i = some (r.effectiveKey i) ∧
      ∃ s minutes, m'.state? i = some s ∧ s.timeRemaining = .int minutes := by
  obtain ⟨hturned, hreadings⟩ := turned_observe hkept.fitted hkept.owned.steady.distinct h
  rcases hran with hsome | rfl
  · obtain ⟨snapshots, rfl⟩ := Option.isSome_iff_exists.1 hsome
    exact current_of_turned hturned hr
  · rw [hreadings] at hr
    cases hr

omit [Scheduler τ] in
theorem Kept.current_of_holds (h : m.Kept before)
    (hkeys : ∀ (i : Nat) (r : Reading), m.readings[i]? = some r →
      m.keys.lookup i = some (r.effectiveKey i)) {k : Key} (hk : m.Holds k) :
    ∃ (i : Nat) (r : Reading), m.readings[i]? = some r ∧
      (r.effectiveKey i).entryOf? = some k.entry := by
  obtain ⟨j, key, hkey, hentry⟩ := hk
  obtain ⟨name, -, hsome, -⟩ := h.owned.named j key hkey
  have hj : j < m.readings.length := (h.fitted j).1 hsome
  have hr : m.readings[j]? = some m.readings[j] := List.getElem?_eq_getElem hj
  refine ⟨j, _, hr, ?_⟩
  obtain rfl := Option.some.inj ((hkeys j _ hr).symm.trans hkey)
  exact hentry

end Runs

/-! ### What is known of an index -/

theorem timeRemaining_int (m : Monitor τ) (i : Int) : m.timeRemaining (.int i) =
    .ok (if 0 ≤ i then (m.state? i.toNat).map (·.timeRemaining) else none) := by
  have hfind (states : List (Nat × BatteryState)) :
      (states.find? fun entry => (Key.int entry.1).same (.int i)).map (·.2.timeRemaining) =
      if 0 ≤ i then (states.lookup i.toNat).map (·.timeRemaining) else none := by
    induction states with
    | nil => simp
    | cons x states ih =>
      obtain ⟨j, s⟩ := x
      have hsame : (Key.int j).same (.int i) = true ↔ 0 ≤ i ∧ i.toNat = j := by
        simp only [Key.same_iff, Key.entry, Entry.number.injEq, Extended.real.injEq,
          Rat.intCast_inj]
        omega
      rw [lookup_cons_eq_ite, List.find?_cons]
      by_cases hj : (Key.int j).same (.int i) = true
      · obtain ⟨hpos, hnat⟩ := hsame.1 hj
        simp only [hj, hpos, hnat, if_true]
        rfl
      · simp only [hj]
        rw [ih]
        split
        · rename_i hpos
          rw [if_neg fun hnat => hj (hsame.2 ⟨hpos, hnat⟩)]
        · rfl
  exact congrArg Except.ok (hfind m.states)

/-! ### Histories -/

section Histories

variable [Scheduler τ] {start : Monitor τ} {past : List (Event τ)} {e : Event τ}
  {o : Option (List Snapshot)}

omit [Scheduler τ] in
theorem Fresh.kept_overheard (h : start.Fresh) (hbacking : start.store.backing = none)
    (hcalm : ∀ subscriber ∈ start.store.subscribers, subscriber.reaction ≠ .fail) :
    start.overheard.Kept start.store.values := by
  have hkeys (j : Nat) : start.overheard.keys.lookup j = none := by
    rw [show start.overheard.keys = [] from h.keys]
    rfl
  refine ⟨⟨⟨hbacking, fun subscriber hm => ?_, List.cons_ne_nil _ _, h.distinct⟩,
    fun j key hkey => ?_, fun j s hs => ?_, fun _ _ => rfl, fun k hk => ?_⟩, h.fitted,
    fun r hr => ?_⟩
  · rcases List.mem_cons.1 hm with rfl | hm
    · exact nofun
    · exact hcalm subscriber hm
  · cases (hkeys j).symm.trans hkey
  · cases (h.state? j).symm.trans hs
  · obtain ⟨n, hn, -⟩ := hk
    exact absurd hn List.not_mem_nil
  · rw [show start.overheard.readings = [] from h.readings] at hr
    exact absurd hr List.not_mem_nil

theorem kept_afterAll (h : start.Kept before)
    (hlists : ∀ e ∈ past, ∀ rs ∈ e.brought, ∀ r ∈ rs, r.storeKey.isOptional .text = true) :
    (afterAll Event.act start past).Kept before := by
  refine afterAll_induction h (fun e hbrought => ?_) hlists
  rw [Event.act_eq]
  exact keeps_discard (keeps_kept_observe hbrought)

/-- **No orphans, and nothing of others.**  In a store in memory whose subscribers do not fail, at
the end of any history over readings with texts for keys, whose operations may stop with faults
anywhere, when an event has completed that ran the pipeline or brought an empty list:

* what was never written along the history is as it was before, or is not there, as before;
* what was written and is not a key of the list is not there;
* there is a state for just the indices of the list, and a time remaining for just these. -/
theorem no_orphans (hfresh : start.Fresh) (hbacking : start.store.backing = none)
    (hcalm : ∀ subscriber ∈ start.store.subscribers, subscriber.reaction ≠ .fail)
    (hlists : ∀ e' ∈ e :: past, ∀ rs ∈ e'.brought, ∀ r ∈ rs, r.storeKey.isOptional .text = true)
    (h : Completes e.observe (afterAll Event.act start past) o m')
    (hran : o.isSome ∨ e = .request (.batteriesChanged [])) :
    let heard := (afterAll Event.act start.overheard (e :: past)).store
    (∀ k, ¬ heard.Wrote k → m'.store.values.find? k = start.store.values.find? k) ∧
    (∀ k, heard.Wrote k → (∀ (i : Nat) (r : Reading), m'.readings[i]? = some r →
      (r.effectiveKey i).entryOf? ≠ some k.entry) → m'.store.values.find? k = none) ∧
    (∀ i, (m'.state? i).isSome ↔ i < m'.readings.length) ∧
    ∀ i : Int, if 0 ≤ i ∧ i < m'.readings.length
      then ∃ minutes, m'.timeRemaining (.int i) = .ok (some (.int minutes))
      else m'.timeRemaining (.int i) = .ok none := by
  intro heard
  -- the same event with the listener
  obtain ⟨n', hn', hsame⟩ := (coupled_observe e).completes (overhears_afterAll start past) h
  have hheard : afterAll Event.act start.overheard (e :: past) = n' := by
    have hact : Completes e.act (afterAll Event.act start.overheard past) () n' := by
      rw [Event.act_eq, completes_discard]
      exact ⟨o, hn'⟩
    exact hact.after_eq
  have hkept : (afterAll Event.act start.overheard past).Kept start.store.values :=
    kept_afterAll (hfresh.kept_overheard hbacking hcalm)
      fun e' he' => hlists e' (List.mem_cons_of_mem _ he')
  have hkept' : n'.Kept start.store.values :=
    hn'.keeps (keeps_kept_observe (hlists e List.mem_cons_self)) hkept
  have hcurrent := hkept.current_of_observe hn' hran
  have hvalues : n'.store.values = m'.store.values := hsame.store.values
  have hstates (i : Nat) : n'.state? i = m'.state? i := by rw [hsame.eq]; rfl
  have hlists' : n'.readings = m'.readings := by rw [hsame.eq]
  rw [hlists'] at hcurrent
  have hfitted (i : Nat) : (m'.state? i).isSome ↔ i < m'.readings.length := by
    rw [← hstates, ← hlists']
    exact hkept'.fitted i
  refine ⟨fun k hk => ?_, fun k hk hfree => ?_, hfitted, fun i => ?_⟩
  · rw [← hvalues]
    exact hkept'.owned.foreign k (hheard ▸ hk)
  · rw [← hvalues]
    refine hkept'.owned.orphans k (hheard ▸ hk) fun hheld => ?_
    obtain ⟨i, r, hr, hentry⟩ := hkept'.current_of_holds
      (fun i r hr => (hcurrent i r (hlists' ▸ hr)).1) hheld
    exact hfree i r (hlists' ▸ hr) hentry
  · rw [timeRemaining_int]
    split
    · rename_i hi
      have hr := List.getElem?_eq_getElem (l := m'.readings) (i := i.toNat) (by omega)
      obtain ⟨-, s, minutes, hs, htime⟩ := hcurrent i.toNat _ hr
      refine ⟨minutes, ?_⟩
      rw [if_pos hi.1, ← hstates, hs, Option.map_some, htime]
    · rename_i hi
      split
      · rename_i hpos
        have hnone : m'.state? i.toNat = none := by
          rw [← Option.not_isSome_iff_eq_none, hfitted]
          omega
        rw [hnone]
        rfl
      · rfl

end Histories

/-- A monitor on a bench whose store has a record of another, and a subscriber that removes what it
hears of. -/
def onSharedBench : Monitor Bench :=
  { onBench with store := {
    values := [(.text "UPS", .object [])]
    subscribers := [{ name := "cleaner", reaction := .remove }] } }

/-- Two batteries come; then their keys move, and the second reading stops the run. -/
def stoppedMove : List (Event Bench) :=
  [.request (.batteriesChanged [{ storeKey := .text "B" },
      { storeKey := .text "C", currentCapacity := .text "full", maxCapacity := .int 100 }]),
    .request (.batteriesChanged [{ storeKey := .text "A" }, { storeKey := .text "B" }])]

/-- After a run that stopped, a list of one battery leaves nothing of the others, and the record of
another is as it was. -/
theorem no_orphans_stoppedMove :
    let e : Event Bench := .request (.batteriesChanged [{ storeKey := .text "D" }])
    ∃ snapshots m', faultless Event.act onSharedBench stoppedMove = false ∧
      Completes e.observe (afterAll Event.act onSharedBench stoppedMove) (some snapshots) m' ∧
      m'.store.values.find? (.text "UPS") = some (.object []) ∧
      m'.store.values.find? (.text "B") = none ∧
      (∃ minutes, m'.timeRemaining (.int 0) = .ok (some (.int minutes))) ∧
      m'.timeRemaining (.int 1) = .ok none := by
  intro e
  obtain ⟨snapshots, h⟩ := completes_of_yields e.observe
    (afterAll Event.act onSharedBench stoppedMove) (by decide +kernel)
  have hlen :
      (after e.observe (afterAll Event.act onSharedBench stoppedMove)).readings.length = 1 := by
    decide +kernel
  have hother : ∀ r ∈ (after e.observe (afterAll Event.act onSharedBench stoppedMove)).readings,
      (r.effectiveKey 0).entryOf? ≠ some (Key.text "B").entry := by decide +kernel
  generalize after e.observe (afterAll Event.act onSharedBench stoppedMove) = m' at h hlen hother
  have hfresh : onSharedBench.Fresh := ⟨rfl, rfl, rfl, List.pairwise_singleton _ _⟩
  obtain ⟨hforeign, horphans, -, htime⟩ := no_orphans hfresh rfl (by decide +kernel)
    (by decide +kernel) h (.inl rfl)
  have hfirst := htime 0
  have hsecond := htime 1
  rw [hlen] at hfirst hsecond
  refine ⟨snapshots, m', by decide +kernel, h, hforeign (.text "UPS") (by decide +kernel),
    horphans (.text "B") (by decide +kernel) fun i r hr => ?_, hfirst, hsecond⟩
  obtain ⟨hi, -⟩ := List.getElem?_eq_some_iff.1 hr
  obtain rfl : i = 0 := by omega
  exact hother r (List.mem_of_getElem? hr)

end Monitor

end BatteryMonitor
