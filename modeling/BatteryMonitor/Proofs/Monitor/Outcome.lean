import BatteryMonitor.Proofs.Monitor.Rest

/-!
# A run forgets what was published before

When every index has a key of its own, what a run of the pipeline leaves depends on the monitor that
it starts from only in part: on the list and the watch, on the latches, and on the records under
keys that are none of the list's.  When the batteries were estimated last, what was published for
them then, and so whether anything has to be written now, all that makes no difference in the end.

* `Monitor.Stationed` : the invariant.  An index is known under no key but its own, and what was
  published for it last stands there.
* `Monitor.outcome_runBuilding` : what a run leaves for one battery.
* `Monitor.Akin` : the relation.  Two monitors differ only in what makes no difference.  A run makes
  a monitor that is akin to the one that it started from (`Monitor.akin_runBuilding`), and akin they
  stay when the same list comes to both (`Monitor.Akin.synced`).
* `Monitor.Akin.runBuilding_eq` : **runs from monitors that are akin leave the same states and the
  same records**.

A record that is written need not stay: a subscriber may remove whatever it hears of.  It goes on
doing so, however, so that the records still agree (`Store.Shelves`).
-/

namespace BatteryMonitor

namespace Monitor

open Effect

variable {τ : Type} {m m' n n' t : Monitor τ} {keyOf : Nat → Text} {i p : Nat} {r : Reading}
  {rs : List Reading} {snapshots : List Snapshot} {v : Value}

/-! ### Every index under its own key -/

/-- **An index is known under no key but its own**, and what was published for it last stands under
this key. -/
structure Stationed (keyOf : Nat → Text) (m : Monitor τ) : Prop where
  fitted : m.Fitted
  distinct : m.store.values.Distinct
  keyed : Reading.Keyed keyOf m.readings
  typed : ∀ r ∈ m.readings, r.isWellTyped = true
  named : ∀ i key, m.keys.lookup i = some key → i < m.readings.length ∧ key = .text (keyOf i)
  shown : ∀ i s last, m.state? i = some s → s.lastPublished = some last →
    last.Exact ∧ m.store.Shelves (.text (keyOf i)) last.toRecord

theorem Stationed.withWatch (hm : m.Stationed keyOf) (watch : Watch τ) :
    ({ m with watch } : Monitor τ).Stationed keyOf :=
  ⟨hm.fitted, hm.distinct, hm.keyed, hm.typed, hm.named, hm.shown⟩

/-- The key is none of the list's. -/
def Foreign (keyOf : Nat → Text) (m : Monitor τ) (v : Value) : Prop :=
  ∀ i < m.readings.length, (Value.text (keyOf i)).entryOf? ≠ v.entryOf?

theorem Stationed.not_publishedUnder (hm : m.Stationed keyOf) (hinj : Function.Injective keyOf)
    {indices : List Nat} (hi : i ∉ indices) : ¬ m.PublishedUnder indices (.text (keyOf i)) := by
  rintro ⟨j, hj, key, hkey, -, hentry⟩
  obtain ⟨-, rfl⟩ := hm.named j key hkey
  exact Value.entryOf?_text_ne (hinj.ne (ne_of_mem_of_not_mem hj hi)) hentry

theorem Stationed.not_moves (hm : m.Stationed keyOf) (i : Nat) (old : Value) :
    ¬ m.Moves i (.text (keyOf i)) old := by
  rintro ⟨hold, -, hequal⟩
  rw [(hm.named i old hold).2, Value.equal_text] at hequal
  cases hequal

theorem not_claimed (hinj : Function.Injective keyOf) (hkeyed : ∀ (k : Nat) (r : Reading),
    rs[k]? = some r → r.effectiveKey (p + k : Nat) = .text (keyOf (p + k)))
    (hi : i < p ∨ p + rs.length ≤ i) : ¬ Claimed p rs (.text (keyOf i)) := by
  rintro ⟨k, r, hr, hentry⟩
  obtain ⟨hk, -⟩ := List.getElem?_eq_some_iff.1 hr
  rw [hkeyed k r hr] at hentry
  exact Value.entryOf?_text_ne (hinj.ne (by omega)) hentry

variable [Scheduler τ]

/-! ### What a run leaves -/

section Battery

variable {snapshot : Snapshot} {u : Monitor τ}

theorem Stationed.record?_before (hinj : Function.Injective keyOf) (hm : m.Stationed keyOf)
    (hr : m.readings[i]? = some r) (h : Handled m i r snapshot u t m') :
    u.store.record? (.text (keyOf i)) = m.store.record? (.text (keyOf i)) := by
  obtain ⟨hi, -⟩ := List.getElem?_eq_some_iff.1 hr
  refine h.before.stays _ (hm.not_publishedUnder hinj fun hmem => ?_)
    (not_claimed hinj (fun k r' hr' => ?_) (.inr ?_))
  · rw [List.mem_range'_1] at hmem
    omega
  · rw [Nat.zero_add]
    exact hm.keyed.take i k r' hr'
  · rw [List.length_take]
    omega

theorem Stationed.record?_after (hinj : Function.Injective keyOf) (hm : m.Stationed keyOf)
    (h : Handled m i r snapshot u t m') :
    m'.store.record? (.text (keyOf i)) = t.store.record? (.text (keyOf i)) := by
  refine h.after.stays _ (hm.not_publishedUnder hinj fun hmem => ?_)
    (not_claimed hinj (fun k r' hr' => ?_) (.inl (Nat.lt_succ_self i)))
  · rw [List.mem_range'_1] at hmem
    omega
  · rw [List.getElem?_drop] at hr'
    exact hm.keyed _ r' hr'

end Battery

/-- **What a run leaves for one battery** is made of the reading, the watch and the latch. -/
theorem outcome_runBuilding (hinj : Function.Injective keyOf) (hm : m.Stationed keyOf)
    (htrust : m.watch.conditions.useFirmware.isKind .bool = true)
    (hr : m.readings[i]? = some r) (h : Completes runBuilding m snapshots m') :
    ∃ s minutes snapshot latched, m.state? i = some s ∧
      r.estimate m.watch.conditions m.watch.now = .ok minutes ∧
      r.report { s with timeRemaining := .int minutes } m.watch.conditions m.watch.now =
        .ok (snapshot, latched) ∧
      m'.state? i = some ⟨.int minutes, latched, some snapshot⟩ ∧
      snapshot.Exact ∧ m'.store.Shelves (.text (keyOf i)) snapshot.toRecord := by
  obtain ⟨snapshot, u, t, -, hhandled⟩ := handled_runBuilding hm.distinct hr h
  obtain ⟨s, minutes, latched, hs, hminutes, hreport, hu⟩ := hhandled.report
  have hexact : snapshot.Exact :=
    Reading.exact_report (hm.typed r (List.mem_of_getElem? hr)) rfl htrust hreport
  have hplaced := hhandled.placed
  rw [hm.keyed i r hr] at hplaced
  have hbefore := hm.record?_before hinj hr hhandled
  have hafter := hm.record?_after hinj hhandled
  have hmoves (old : Value) : ¬ u.Moves i (.text (keyOf i)) old := by
    rintro ⟨hold, hrest⟩
    exact hm.not_moves i old ⟨hhandled.key ▸ hold, hrest⟩
  refine ⟨s, minutes, snapshot, latched, hs, hminutes, hreport, ?_⟩
  cases hplaced with
  | skipped s' last hs' hlast hsame _ heq =>
    obtain rfl := Option.some.inj (hu.symm.trans hs')
    -- what stands there already is the same snapshot
    obtain ⟨hexact', hshelves⟩ := hm.shown i s last hs hlast
    obtain rfl : last = snapshot :=
      hexact'.eq_of_toRecord_eq hexact ((hexact'.same_iff hexact).1 hsame)
    have ht : t.store = u.store := by rw [heq]
    refine ⟨?_, hexact, hshelves.congr (hafter.trans (by rw [ht, hbefore]))
      (hhandled.after.quiet_iff.trans (by rw [ht, hhandled.before.quiet_iff]))⟩
    rw [hhandled.state?, heq, ← hlast]
    exact hu
  | written s' between store hs' hvacated hset hstates heq =>
    obtain rfl := Option.some.inj (hu.symm.trans hs')
    obtain rfl : between = u.store := by
      rcases hvacated with ⟨-, rfl⟩ | ⟨old, hold, -⟩
      · rfl
      · exact absurd hold (hmoves old)
    have ht : t.store = store := by rw [heq]
    refine ⟨?_, hexact, (Store.shelves_setValue hhandled.before.distinct hset).congr ?_ ?_⟩
    · rw [hhandled.state?, hstates, if_pos rfl]
    · rw [hafter, ht]
    · rw [hhandled.after.quiet_iff, ht]

theorem rekeyed_runBuilding (hd : m.store.values.Distinct)
    (h : Completes runBuilding m snapshots m') :
    m.store.Rekeyed (m.PublishedUnder (List.range' 0 m.readings.length)) (Claimed 0 m.readings)
      m'.store := by
  obtain ⟨e, hestimated, hpass⟩ := completes_runBuilding h
  have hstore : e.store = m.store := by rw [hestimated.eq]
  have hpassed := (passed_pass (hstore ▸ hd) hpass).store
  rw [hstore] at hpassed
  exact hpassed.congr (fun v => (publishedUnder_congr fun j _ => by rw [hestimated.eq]).symm)
    fun _ => .rfl

theorem Stationed.foreign_runBuilding (hm : m.Stationed keyOf)
    (h : Completes runBuilding m snapshots m') (hv : m.Foreign keyOf v) :
    m'.store.record? v = m.store.record? v := by
  refine (rekeyed_runBuilding hm.distinct h).stays v ?_ ?_
  · rintro ⟨j, -, key, hkey, -, hentry⟩
    obtain ⟨hj, rfl⟩ := hm.named j key hkey
    exact hv j hj hentry
  · rintro ⟨k, r, hr, hentry⟩
    obtain ⟨hk, -⟩ := List.getElem?_eq_some_iff.1 hr
    rw [Nat.zero_add, hm.keyed k r hr] at hentry
    exact hv k hk hentry

/-- **A run keeps every index under its own key.** -/
theorem Stationed.runBuilding (hinj : Function.Injective keyOf) (hm : m.Stationed keyOf)
    (htrust : m.watch.conditions.useFirmware.isKind .bool = true)
    (h : Completes runBuilding m snapshots m') : m'.Stationed keyOf := by
  obtain ⟨hreadings, hdistinct, -, houtside⟩ := passed_runBuilding hm.distinct h
  refine ⟨fitted_runBuilding hm.fitted hm.distinct h, hdistinct, hreadings ▸ hm.keyed,
    hreadings ▸ hm.typed, fun i key hkey => ?_, fun i s last hs hlast => ?_⟩
  · by_cases hi : i < m.readings.length
    · obtain ⟨snapshot, u, t, -, hhandled⟩ :=
        handled_runBuilding hm.distinct (List.getElem?_eq_getElem hi) h
      have hkey' := hhandled.key'
      rw [hkey, hm.keyed i _ (List.getElem?_eq_getElem hi)] at hkey'
      exact ⟨hreadings ▸ hi, Option.some.inj hkey'⟩
    · rw [(houtside i (Nat.le_of_not_lt hi)).1] at hkey
      exact hreadings ▸ hm.named i key hkey
  · have hi : i < m.readings.length := hreadings ▸
      (fitted_runBuilding hm.fitted hm.distinct h i).1 (Option.isSome_of_eq_some hs)
    obtain ⟨s', minutes, snapshot, latched, -, -, -, hs', hexact, hshelves⟩ :=
      outcome_runBuilding hinj hm htrust (List.getElem?_eq_getElem hi) h
    cases hs.symm.trans hs'
    cases hlast
    exact ⟨hexact, hshelves⟩

/-! ### Between events -/

/-- **What holds between events**: besides, every battery of the list has been published, and its
latch is where a verdict on its reading leaves it. -/
structure Poised (keyOf : Nat → Text) (m : Monitor τ) : Prop extends m.Stationed keyOf where
  following : m.Following
  known : ∀ i < m.readings.length, m.keys.lookup i = some (.text (keyOf i))
  settled : ∀ i r s, m.readings[i]? = some r → m.state? i = some s →
    ∃ health, r.classify s.latched = .ok (health, s.latched)

omit [Scheduler τ] in
theorem Initial.poised (h : m.Initial) : m.Poised keyOf where
  fitted := h.fitted
  distinct := h.distinct
  keyed i r hr := by rw [h.readings] at hr; cases hr
  typed r hr := by rw [h.readings] at hr; cases hr
  named i key hkey := by rw [h.keys] at hkey; cases hkey
  shown i s last hs := by rw [h.state?] at hs; cases hs
  following := h.following
  known i hi := by rw [h.readings] at hi; cases hi
  settled i r s hr := by rw [h.readings] at hr; cases hr

omit [Scheduler τ] in
theorem Stationed.synced (hinj : Function.Injective keyOf) (hm : m.Stationed keyOf)
    (hkeyed : Reading.Keyed keyOf t.readings) (htyped : ∀ r ∈ t.readings, r.isWellTyped = true)
    (h : Synced { m with readings := t.readings } t) : t.Stationed keyOf where
  fitted := h.fitted
  distinct := h.store.distinct
  keyed := hkeyed
  typed := htyped
  named i key hkey := by
    rw [h.keys] at hkey
    split at hkey
    · cases hkey
    · rename_i hbeyond
      obtain ⟨hi, heq⟩ := hm.named i key hkey
      refine ⟨Nat.lt_of_not_le fun hle => hbeyond (mem_beyond.2 ⟨hle, ?_⟩), heq⟩
      exact (hm.fitted i).2 hi
  shown i s last hs hlast := by
    obtain ⟨hi, hold⟩ := h.state?_of_lastPublished hs hlast
    obtain ⟨hexact, hshelves⟩ := hm.shown i s last hold hlast
    refine ⟨hexact, hshelves.congr (h.store.stays _ ?_ id) h.store.quiet_iff⟩
    exact hm.not_publishedUnder hinj (not_mem_beyond hi)

/-- **Events keep a monitor poised.** -/
theorem Poised.observe {e : Event τ} {o : Option (List Snapshot)}
    (hinj : Function.Injective keyOf) (hm : m.Poised keyOf)
    (hlist : ∀ rs ∈ e.brought, Reading.Keyed keyOf rs ∧ ∀ r ∈ rs, r.isWellTyped = true)
    (h : Completes e.observe m o m') : m'.Poised keyOf := by
  obtain ⟨hturned, hreadings⟩ := turned_observe hm.fitted hm.distinct h
  obtain ⟨hfollowing, -⟩ := following_observe hm.following (fun rs hrs => (hlist rs hrs).2) h
  have hkeyed : Reading.Keyed keyOf m'.readings :=
    hreadings ▸ holds_getD hm.keyed fun rs hrs => (hlist rs hrs).1
  cases hturned with
  | rested hsynced why =>
    have hstationed := hm.toStationed.synced hinj hkeyed hfollowing.typed hsynced
    refine ⟨hstationed, hfollowing, fun i hi => ?_, fun i r s hr hs => ?_⟩
    · rcases why with hempty | hsame
      · rw [hempty] at hi
        cases hi
      · rw [hsynced.lookup_keys hi]
        exact hm.known i (hsame ▸ hi)
    · rcases why with hempty | hsame
      · rw [hempty] at hr
        cases hr
      · obtain ⟨hi, -⟩ := List.getElem?_eq_some_iff.1 hr
        obtain ⟨s', hs'⟩ := Option.isSome_iff_exists.1 ((hm.fitted i).2 (hsame ▸ hi))
        have hstate := hsynced.state? i
        rw [if_pos hi, show ({ m with readings := m'.readings } : Monitor τ).state? i = some s'
          from hs', hs] at hstate
        cases hstate
        exact hm.settled i r _ (hsame ▸ hr) hs'
  | @ran t _ snapshots hsynced hrun =>
    have hreadings' := (passed_runBuilding hsynced.store.distinct hrun).1
    have htrust := hfollowing.trust
    rw [watch_runBuilding hsynced.store.distinct hrun] at htrust
    have ht := hm.toStationed.synced hinj (hreadings' ▸ hkeyed) (hreadings' ▸ hfollowing.typed)
      hsynced
    refine ⟨ht.runBuilding hinj htrust hrun, hfollowing, fun i hi => ?_, fun i r s hr hs => ?_⟩
    · rw [hreadings'] at hi
      obtain ⟨snapshot, u, w, -, hhandled⟩ :=
        handled_runBuilding ht.distinct (List.getElem?_eq_getElem hi) hrun
      rw [hhandled.key', ht.keyed i _ (List.getElem?_eq_getElem hi)]
    · rw [hreadings'] at hr
      obtain ⟨s', minutes, snapshot, latched, -, -, hreport, hs', -⟩ :=
        outcome_runBuilding hinj ht htrust hr hrun
      cases hs.symm.trans hs'
      obtain ⟨capacity, health, -, hclassify, -⟩ := Reading.report_eq_ok hreport
      exact ⟨health, Reading.classify_latched hclassify⟩

/-! ### Monitors that are akin -/

/-- **Two monitors differ only in what makes no difference to a run**: in the times remaining, in
what was published last and in the records under the keys of the list. -/
structure Akin (keyOf : Nat → Text) (m n : Monitor τ) : Prop where
  readings : n.readings = m.readings
  latched : ∀ i, (n.state? i).map (·.latched) = (m.state? i).map (·.latched)
  keys : ∀ i, n.keys.lookup i = m.keys.lookup i
  foreign : ∀ v, m.Foreign keyOf v → n.store.record? v = m.store.record? v
  quiet : n.store.Quiet ↔ m.store.Quiet

omit [Scheduler τ] in
theorem Akin.withWatch (h : m.Akin keyOf n) (watch watch' : Watch τ) :
    ({ m with watch } : Monitor τ).Akin keyOf { n with watch := watch' } :=
  ⟨h.readings, h.latched, h.keys, h.foreign, h.quiet⟩

omit [Scheduler τ] in
theorem akin_withWatch (m : Monitor τ) (watch : Watch τ) : m.Akin keyOf { m with watch } :=
  ⟨rfl, fun _ => rfl, fun _ => rfl, fun _ _ => rfl, .rfl⟩

/-- **A run leaves a monitor akin to the one that it started from**, whatever the watch says. -/
theorem akin_runBuilding {watch : Watch τ} (hinj : Function.Injective keyOf) (hm : m.Poised keyOf)
    (htrust : watch.conditions.useFirmware.isKind .bool = true)
    (h : Completes runBuilding { m with watch } snapshots m') : m.Akin keyOf m' := by
  have hd : ({ m with watch } : Monitor τ).store.values.Distinct := hm.distinct
  have hstationed := hm.toStationed.withWatch watch
  obtain ⟨hreadings, -, -, houtside⟩ := passed_runBuilding hd h
  refine ⟨hreadings, fun i => ?_, fun i => ?_, fun v hv => hstationed.foreign_runBuilding h hv,
    (rekeyed_runBuilding hd h).quiet_iff⟩
  · by_cases hi : i < m.readings.length
    · have hr := List.getElem?_eq_getElem hi
      obtain ⟨s, minutes, snapshot, latched, hs, -, hreport, hs', -⟩ :=
        outcome_runBuilding hinj hstationed htrust hr h
      obtain ⟨health, hsettled⟩ := hm.settled i _ s hr hs
      obtain ⟨capacity, health', -, hclassify, -⟩ := Reading.report_eq_ok hreport
      cases hsettled.symm.trans hclassify
      rw [hs', show m.state? i = some s from hs]
      rfl
    · exact congrArg _ (houtside i (Nat.le_of_not_lt hi)).2
  · by_cases hi : i < m.readings.length
    · obtain ⟨snapshot, u, t, -, hhandled⟩ :=
        handled_runBuilding hd (List.getElem?_eq_getElem hi) h
      rw [hhandled.key', hm.keyed i _ (List.getElem?_eq_getElem hi), hm.known i hi]
    · exact (houtside i (Nat.le_of_not_lt hi)).1

omit [Scheduler τ] in
theorem Akin.synced (h : m.Akin keyOf n) (hfit : m.Fitted) (hfit' : n.Fitted)
    (hknown : ∀ i < m.readings.length, m.keys.lookup i = some (.text (keyOf i)))
    (hm : Synced { m with readings := rs } m') (hn : Synced { n with readings := rs } n') :
    m'.Akin keyOf n' := by
  have hbeyond (j : Nat) : j ∈ ({ n with readings := rs } : Monitor τ).beyond ↔
      j ∈ ({ m with readings := rs } : Monitor τ).beyond := by
    rw [mem_beyond, mem_beyond]
    refine and_congr_right fun _ => (hfit' j).trans ?_
    rw [h.readings]
    exact (hfit j).symm
  have hdropped (v : Value) : ({ n with readings := rs } : Monitor τ).PublishedUnder
      ({ n with readings := rs } : Monitor τ).beyond v ↔
        ({ m with readings := rs } : Monitor τ).PublishedUnder
          ({ m with readings := rs } : Monitor τ).beyond v :=
    exists_congr fun j => and_congr (hbeyond j) (by rw [show
      ({ n with readings := rs } : Monitor τ).keys.lookup j = m.keys.lookup j from h.keys j])
  refine ⟨by rw [hn.readings, hm.readings], fun i => ?_, fun i => ?_, fun v hv => ?_,
    hn.store.quiet_iff.trans (h.quiet.trans hm.store.quiet_iff.symm)⟩
  · rw [hn.state?, hm.state?]
    split
    · have hlatched := h.latched i
      change some ((n.state? i).getD {}).latched = some ((m.state? i).getD {}).latched
      cases hstate : m.state? i <;> cases hstate' : n.state? i <;>
        simp_all
    · rfl
  · rw [hn.keys, hm.keys]
    by_cases hi : i ∈ ({ m with readings := rs } : Monitor τ).beyond
    · rw [if_pos hi, if_pos ((hbeyond i).2 hi)]
    · rw [if_neg hi, if_neg (mt (hbeyond i).1 hi)]
      exact h.keys i
  · by_cases hleft : ({ m with readings := rs } : Monitor τ).PublishedUnder
      ({ m with readings := rs } : Monitor τ).beyond v
    · rw [hn.store.gone v ((hdropped v).2 hleft) id, hm.store.gone v hleft id]
    · rw [hn.store.stays v (mt (hdropped v).1 hleft) id, hm.store.stays v hleft id]
      -- a key of the old list that is none of the new one's has been dropped
      refine h.foreign v fun j hj hentry => ?_
      by_cases hlt : j < rs.length
      · exact hv j (by rw [hm.readings]; exact hlt) hentry
      · exact hleft ⟨j, mem_beyond.2 ⟨Nat.le_of_not_lt hlt, (hfit j).2 hj⟩, _, hknown j hj, rfl,
          hentry⟩

/-- **Runs from monitors that are akin leave the same**, if their watches say the same of what an
estimate looks at. -/
theorem Akin.runBuilding_eq {snapshots' : List Snapshot} (hinj : Function.Injective keyOf)
    (h : m.Akin keyOf n) (hm : m.Stationed keyOf) (hn : n.Stationed keyOf)
    (htrust : m.watch.conditions.useFirmware.isKind .bool = true)
    (hfirmware : n.watch.conditions.useFirmware = m.watch.conditions.useFirmware)
    (hignoring : n.watch.isIgnoring = m.watch.isIgnoring)
    (hrun : Completes runBuilding m snapshots m') (hrun' : Completes runBuilding n snapshots' n') :
    (∀ i, n'.state? i = m'.state? i) ∧ ∀ v, n'.store.record? v = m'.store.record? v := by
  have hquiet : n'.store.Quiet ↔ m'.store.Quiet :=
    (rekeyed_runBuilding hn.distinct hrun').quiet_iff.trans
      (h.quiet.trans (rekeyed_runBuilding hm.distinct hrun).quiet_iff.symm)
  have hbattery (i : Nat) (hi : i < m.readings.length) : n'.state? i = m'.state? i ∧
      n'.store.record? (.text (keyOf i)) = m'.store.record? (.text (keyOf i)) := by
    have hr := List.getElem?_eq_getElem hi
    obtain ⟨s, minutes, snapshot, latched, hs, hminutes, hreport, hs', -, hshelves⟩ :=
      outcome_runBuilding hinj hm htrust hr hrun
    obtain ⟨q, minutes', snapshot', latched', hq, hminutes', hreport', hq', -, hshelves'⟩ :=
      outcome_runBuilding hinj hn (hfirmware ▸ htrust) (by rw [h.readings]; exact hr) hrun'
    -- the reading, the watch and the latch are the same
    rw [Reading.estimate_congr _ hfirmware hignoring, hminutes] at hminutes'
    cases hminutes'
    have hlatched : q.latched = s.latched := by
      have hlatched := h.latched i
      rw [hs, hq] at hlatched
      exact Option.some.inj hlatched
    have hsame : m.readings[i].report { q with timeRemaining := .int minutes }
        n.watch.conditions n.watch.now = m.readings[i].report
          { s with timeRemaining := .int minutes } m.watch.conditions m.watch.now :=
      Reading.report_congr _ rfl hlatched hfirmware hignoring
    cases (hreport'.symm.trans hsame).trans hreport
    exact ⟨by rw [hs', hq'], hshelves.record?_eq hshelves' hquiet⟩
  refine ⟨fun i => ?_, fun v => ?_⟩
  · by_cases hi : i < m.readings.length
    · exact (hbattery i hi).1
    · have hnone {w w' : Monitor τ} {snapshots : List Snapshot} (hw : w.Stationed keyOf)
          (hlen : w.readings = m.readings) (hrun : Completes runBuilding w snapshots w') :
          w'.state? i = none := by
        refine Option.not_isSome_iff_eq_none.1 fun hsome => hi ?_
        have hlt := (fitted_runBuilding hw.fitted hw.distinct hrun i).1 hsome
        rwa [(passed_runBuilding hw.distinct hrun).1, hlen] at hlt
      rw [hnone hn h.readings hrun', hnone hm rfl hrun]
  · by_cases hown : ∃ i < m.readings.length, (Value.text (keyOf i)).entryOf? = v.entryOf?
    · obtain ⟨i, hi, hentry⟩ := hown
      rw [← Store.record?_congr hentry, ← Store.record?_congr hentry]
      exact (hbattery i hi).2
    · have hv : m.Foreign keyOf v := fun i hi hentry => hown ⟨i, hi, hentry⟩
      have hv' : n.Foreign keyOf v := fun i hi => hv i (h.readings ▸ hi)
      rw [hn.foreign_runBuilding hrun' hv', hm.foreign_runBuilding hrun hv, h.foreign v hv]

end Monitor

end BatteryMonitor
