import BatteryMonitor.Proofs.Json.Record
import BatteryMonitor.Proofs.Mirror
import BatteryMonitor.Proofs.Monitor.Events

/-!
# What a turn does to the file of the store

The file is written whenever the store is changed, and so what an operation does to it is said by
whether it changes the store (`Store.Follows`):

* placing a snapshot does, unless the snapshot is the one that was last published for its index, and
  under the same key (`Monitor.Repeats`, `Monitor.follows_place`);
* a run does if it builds a snapshot that was not published already (`Monitor.Renewed`,
  `Monitor.follows_runBuilding`);
* fitting the states to a list does if an index that was published lies beyond its end
  (`Monitor.follows_syncStates`).

A turn is made of these (`Monitor.Swept.follows`).  What it needs of the monitor is kept by every event
that brings well-typed readings (`Monitor.Backed.observe`).
-/

namespace BatteryMonitor

namespace Monitor

open Effect

variable {τ : Type} {m m' t : Monitor τ} {i : Nat} {key : Value} {snapshot : Snapshot} {p : Path}

/-! ### Snapshots that were published already -/

/-- The snapshot is the one that was last published for the index, and under the same key. -/
def Repeats (m : Monitor τ) (i : Nat) (key : Value) (snapshot : Snapshot) : Prop :=
  (∃ last, (m.state? i).bind (·.lastPublished) = some last ∧ last.same snapshot = true) ∧
    ∀ old, ¬ m.Moves i key old

theorem repeats_congr (hlast : (m'.state? i).bind (·.lastPublished) =
      (m.state? i).bind (·.lastPublished)) (hkey : m'.keys.lookup i = m.keys.lookup i) :
    m'.Repeats i key snapshot ↔ m.Repeats i key snapshot := by
  simp only [Repeats, Moves, hlast, hkey]

theorem completes_place_of_repeats (h : m.Repeats i key snapshot) :
    Completes (place i key snapshot) m () { m with keys := setAt i key m.keys } := by
  obtain ⟨⟨last, hlast, hsame⟩, hstay⟩ := h
  obtain ⟨s, hs, hlast⟩ := Option.bind_eq_some_iff.1 hlast
  have hpublish : Completes (Store.publish key s snapshot) m.store false m.store := by
    simp only [Store.publish, hlast, hsame, if_true]
    exact completes_pure.2 ⟨rfl, rfl⟩
  refine completes_bind.2 ⟨(), m, completes_moveKey_of_not_moves hstay, ?_⟩
  rw [completes_modify_bind, completes_get_bind]
  have hs' : ({ m with keys := setAt i key m.keys } : Monitor τ).state? i = some s := hs
  simp only [hs']
  exact completes_bind.2 ⟨false, _, completes_onStore.2 ⟨m.store, hpublish, rfl⟩,
    completes_pure.2 ⟨rfl, rfl⟩⟩

/-! ### Placing a snapshot -/

theorem Vacated.follows {store : Store} (h : m.Vacated i key store) :
    m.store.Follows p (∃ old, m.Moves i key old) store := by
  rcases h with ⟨hstay, rfl⟩ | ⟨old, hmoves, hremove⟩
  · exact .refl fun ⟨old, hmoves⟩ => hstay old hmoves
  · exact (Store.follows_removeValue hremove).congr (iff_true_intro ⟨old, hmoves⟩)

/-- **Placing a snapshot** changes the store unless the snapshot was published already. -/
theorem follows_place {name : Text} (hrecord : snapshot.toRecord.Flat)
    (h : Completes (place i (.text name) snapshot) m () m') :
    m.store.Follows p (¬ m.Repeats i (.text name) snapshot) m'.store := by
  by_cases hrepeats : m.Repeats i (.text name) snapshot
  · obtain ⟨-, rfl⟩ := h.unique (completes_place_of_repeats hrepeats)
    exact .refl (not_not_intro hrepeats)
  · cases placed_place h with
    | skipped s last hs hlast hsame hstay =>
      exact absurd ⟨⟨last, by rw [hs]; exact hlast, hsame⟩, hstay⟩ hrepeats
    | written s between store _ hvacated hset _ heq =>
      have hlegible := Value.isLegible_mono _ (by decide : 1 ≤ Json.nestingLimit - 1) hrecord
      rw [heq]
      exact (hvacated.follows.trans (Store.follows_setValue hlegible hset)).congr
        (iff_of_true hrepeats (.inr trivial))

/-- Some snapshot that was built was not published already. -/
def Renewed (m : Monitor τ) (p : Nat) (rs : List Reading) (snapshots : List Snapshot) : Prop :=
  ∃ (k : Nat) (r : Reading) (snapshot : Snapshot), rs[k]? = some r ∧ snapshots[k]? = some snapshot ∧
    ¬ m.Repeats (p + k) (r.effectiveKey (p + k : Nat)) snapshot

theorem renewed_cons {index : Nat} {r : Reading} {rs : List Reading} {rest : List Snapshot} :
    m.Renewed index (r :: rs) (snapshot :: rest) ↔
      ¬ m.Repeats index (r.effectiveKey index) snapshot ∨ m.Renewed (index + 1) rs rest := by
  constructor
  · rintro ⟨k, r', snapshot', hr, hsnapshot, hnew⟩
    cases k with
    | zero => cases hr; cases hsnapshot; exact .inl hnew
    | succ k =>
      exact .inr ⟨k, r', snapshot', hr, hsnapshot, by rwa [show index + 1 + k = index + (k + 1) by omega]⟩
  · rintro (hnew | ⟨k, r', snapshot', hr, hsnapshot, hnew⟩)
    · exact ⟨0, r, snapshot, rfl, rfl, hnew⟩
    · exact ⟨k + 1, r', snapshot', hr, hsnapshot,
        by rwa [show index + (k + 1) = index + 1 + k by omega]⟩

theorem renewed_congr {index : Nat} {rs : List Reading} {snapshots : List Snapshot}
    (h : ∀ j, index ≤ j → j < index + rs.length →
      (m'.state? j).bind (·.lastPublished) = (m.state? j).bind (·.lastPublished) ∧
        m'.keys.lookup j = m.keys.lookup j) :
    m'.Renewed index rs snapshots ↔ m.Renewed index rs snapshots := by
  refine exists_congr fun k => exists_congr fun r => exists_congr fun snapshot =>
    and_congr_right fun hr => and_congr_right fun _ => not_congr ?_
  obtain ⟨hk, -⟩ := List.getElem?_eq_some_iff.1 hr
  obtain ⟨hlast, hkey⟩ := h (index + k) (by omega) (by omega)
  exact repeats_congr hlast hkey

/-! ### Fitting the states -/

theorem follows_dropBattery (h : Completes (dropBattery i) m () m') :
    m.store.Follows p (∃ v, m.PublishedUnder [i] v) m'.store := by
  have hunder : (∃ v, m.PublishedUnder [i] v) ↔
      ∃ key, m.keys.lookup i = some key ∧ key.isNull = false := by
    simp only [publishedUnder_singleton]
    constructor
    · rintro ⟨v, key, hkey, hnull, -⟩
      exact ⟨key, hkey, hnull⟩
    · rintro ⟨key, hkey, hnull⟩
      exact ⟨key, key, hkey, hnull, rfl⟩
  rw [hunder]
  simp only [dropBattery, completes_get_bind, completes_modify_bind] at h
  cases hkey : m.keys.lookup i with
  | none =>
    rw [hkey] at h
    obtain ⟨-, rfl⟩ := completes_pure.1 h
    refine .refl ?_
    rintro ⟨_, hsome, -⟩
    cases hsome
  | some key =>
    simp only [hkey] at h
    split at h
    · rename_i hnull
      obtain ⟨-, rfl⟩ := completes_pure.1 h
      refine .refl ?_
      rintro ⟨_, ⟨⟩, hsome⟩
      rw [hnull] at hsome
      cases hsome
    · rename_i hnull
      obtain ⟨store, hremove, rfl⟩ := completes_onStore.1 h
      exact (Store.follows_removeValue hremove).congr
        (iff_true_intro ⟨key, rfl, eq_false_of_ne_true hnull⟩)

theorem follows_forIn {count : Nat} : ∀ {entries : List (Nat × BatteryState)} {m m' : Monitor τ}
    {u : PUnit}, m.store.values.Distinct →
    Completes (forIn entries PUnit.unit fun entry _ => match entry with
      | (index, _) => if count ≤ index then do
          dropBattery index
          pure (ForInStep.yield PUnit.unit)
        else pure (ForInStep.yield PUnit.unit) : M τ PUnit) m u m' →
      m.store.Follows p (∃ v, m.PublishedUnder ((entries.map (·.1)).filter (count ≤ ·)) v)
        m'.store := by
  intro entries
  induction entries with
  | nil =>
    intro m m' u _ h
    rw [List.forIn_nil, completes_pure] at h
    rw [h.2]
    exact .refl fun ⟨_, _, hj, _⟩ => List.not_mem_nil hj
  | cons entry entries ih =>
    intro m m' u hd h
    obtain ⟨index, state⟩ := entry
    rw [List.forIn_cons, completes_bind] at h
    obtain ⟨r, t, hone, h⟩ := h
    rw [List.map_cons]
    dsimp only at hone
    split at hone
    · rename_i hcount
      obtain ⟨u', t', hdrop, hone⟩ := completes_bind.1 hone
      obtain ⟨rfl, rfl⟩ := completes_pure.1 hone
      have hdropped := dropped_dropBattery hd hdrop
      rw [List.filter_cons_of_pos (by simpa using hcount)]
      refine ((follows_dropBattery hdrop).trans (ih hdropped.store.distinct h)).congr ?_
      rw [← exists_or]
      exact exists_congr fun v => publishedUnder_append hdropped.keys
    · rename_i hcount
      obtain ⟨rfl, rfl⟩ := completes_pure.1 hone
      rw [List.filter_cons_of_neg (by simpa using hcount)]
      exact ih hd h

/-- **Fitting the states** changes the store if an index beyond the end of the list was published. -/
theorem follows_syncStates (hd : m.store.values.Distinct) (h : Completes syncStates m () m') :
    m.store.Follows p (∃ v, m.PublishedUnder m.beyond v) m'.store := by
  simp only [syncStates, completes_get_bind] at h
  obtain ⟨u, d, hdrop, h⟩ := completes_bind.1 h
  obtain ⟨u', d', hadd, h⟩ := completes_bind.1 h
  obtain ⟨-, rfl⟩ := completes_pure.1 h
  obtain ⟨heq, -⟩ := added_forIn hadd
  have hstore : m'.store = d.store := by rw [heq]
  rw [hstore]
  exact follows_forIn hd hdrop

/-! ### A monitor over a file -/

/-- What a monitor over a file keeps: there is a state and a key for every index of the list, all keys
are texts, the list holds well-typed readings, and text can carry the store. -/
structure Backed (p : Path) (m : Monitor τ) : Prop where
  fitted : m.Fitted
  keyed : ∀ i < m.readings.length, (m.keys.lookup i).isSome
  named : ∀ i key, m.keys.lookup i = some key → ∃ name, key = .text name
  typed : ∀ r ∈ m.readings, r.isWellTyped = true
  legible : m.store.Legible p

theorem Fresh.backed (h : m.Fresh) (hlegible : m.store.Legible p) : m.Backed p where
  fitted := h.fitted
  keyed i hi := by
    rw [h.readings] at hi
    exact absurd hi (Nat.not_lt_zero i)
  named i key hkey := by
    rw [h.keys] at hkey
    cases hkey
  typed := by
    rw [h.readings]
    exact List.forall_mem_nil _
  legible := hlegible

theorem Backed.publishedUnder_beyond (hm : m.Backed p) (rs : List Reading) :
    (∃ v, ({ m with readings := rs } : Monitor τ).PublishedUnder
      ({ m with readings := rs } : Monitor τ).beyond v) ↔ rs.length < m.readings.length := by
  constructor
  · rintro ⟨v, j, hj, -⟩
    obtain ⟨hlength, hsome⟩ := mem_beyond.1 hj
    exact Nat.lt_of_le_of_lt hlength ((hm.fitted j).1 hsome)
  · intro hlt
    obtain ⟨key, hkey⟩ := Option.isSome_iff_exists.1 (hm.keyed rs.length hlt)
    obtain ⟨name, rfl⟩ := hm.named _ _ hkey
    exact ⟨_, rs.length, mem_beyond.2 ⟨Nat.le_refl _, (hm.fitted _).2 hlt⟩, _, hkey, rfl, rfl⟩

theorem Synced.renewed_iff {rs : List Reading} {snapshots : List Snapshot}
    (h : Synced { m with readings := rs } t) :
    t.Renewed 0 rs snapshots ↔ m.Renewed 0 rs snapshots := by
  refine renewed_congr fun j _ hj => ⟨?_, h.lookup_keys (by simpa using hj)⟩
  rw [h.state?, if_pos (by simpa using hj)]
  cases hs : m.state? j with
  | none =>
    rw [show ({ m with readings := rs } : Monitor τ).state? j = none from hs]
    rfl
  | some s =>
    rw [show ({ m with readings := rs } : Monitor τ).state? j = some s from hs]
    rfl

section Runs

variable [Scheduler τ]

/-! ### A run -/

/-- **A pass over the batteries** changes the store if it builds a snapshot that was not published
already. -/
theorem follows_pass : ∀ {rs : List Reading} {index : Nat} {snapshots : List Snapshot}
    {m m' : Monitor τ}, (∀ r ∈ rs, r.isWellTyped = true) → m.Timed index rs →
      Completes (pass index rs) m snapshots m' →
        m.store.Follows p (m.Renewed index rs snapshots) m'.store := by
  intro rs
  induction rs with
  | nil =>
    intro index snapshots m m' _ _ h
    obtain ⟨-, rfl⟩ := completes_pure.1 h
    exact .refl fun ⟨k, r, _, hr, _⟩ => by simp at hr
  | cons r rs ih =>
    intro index snapshots m m' htyped htimed h
    obtain ⟨hr, htyped⟩ := List.forall_mem_cons.1 htyped
    obtain ⟨snapshot, t, hbuild, h⟩ := completes_bind.1 h
    obtain ⟨u, t', hplace, h⟩ := completes_bind.1 h
    obtain ⟨rest, m'', hrest, h⟩ := completes_bind.1 h
    obtain ⟨rfl, rfl⟩ := completes_pure.1 h
    -- the snapshot is made of an estimate, and building it changes nothing but the latch
    obtain ⟨s, latched, hs, hreport, rfl⟩ := completes_build hbuild
    obtain ⟨s', minutes, hs', htime, hminutes⟩ := htimed 0 r rfl
    obtain rfl : s = s' := Option.some.inj (hs.symm.trans hs')
    have hrecord := Reading.flat_report hr (Reading.estimate_range hminutes) htime hreport
    have hplaced := placed_place hplace
    have hothers (j : Nat) (hj : j ≠ index) : t'.state? j = m.state? j := by
      rw [hplaced.state?_of_ne hj]
      simp only [state?, lookup_setAt, if_neg hj]
    have hrepeats : ({ m with states := setAt index { s with latched } m.states } : Monitor τ).Repeats
        index (r.effectiveKey index) snapshot ↔ m.Repeats index (r.effectiveKey index) snapshot := by
      refine repeats_congr ?_ rfl
      simp only [state?, lookup_setAt, if_true]
      rw [show m.states.lookup index = some s from hs]
      rfl
    obtain ⟨name, hname⟩ := Reading.exists_name (Reading.isOptional_storeKey_of_isWellTyped hr) index
    rw [hname] at hplace hrepeats
    have hfirst := follows_place (p := p) hrecord hplace
    have htimed' : t'.Timed (index + 1) rs :=
      htimed.tail.congr hplaced.watch fun j hj => hothers j (by omega)
    refine (hfirst.trans (ih htyped htimed' hrest)).congr ?_
    rw [renewed_cons, hname, hrepeats]
    refine or_congr_right (renewed_congr fun j hj _ => ?_).symm
    rw [hothers j (by omega), hplaced.keys, if_neg (by omega)]
    exact ⟨rfl, rfl⟩

/-- **A run** changes the store if it builds a snapshot that was not published already. -/
theorem follows_runBuilding {snapshots : List Snapshot}
    (htyped : ∀ r ∈ m.readings, r.isWellTyped = true) (h : Completes runBuilding m snapshots m') :
    m.store.Follows p (m.Renewed 0 m.readings snapshots) m'.store := by
  obtain ⟨e, hestimated, hpass⟩ := completes_runBuilding h
  have hstore : e.store = m.store := by rw [hestimated.eq]
  rw [← hstore]
  refine (follows_pass htyped hestimated.timed hpass).congr (renewed_congr fun j _ hj => ?_).symm
  obtain ⟨s, minutes, hs, -, hs'⟩ := hestimated.within j _ (List.getElem?_eq_getElem (by omega))
  rw [hs, hs', hestimated.eq]
  exact ⟨rfl, rfl⟩

/-! ### One turn -/

variable {o : Option (List Snapshot)}

/-- **A turn** changes the store if the list has become shorter, or if a snapshot was built that was
not published already. -/
theorem Swept.follows (h : Swept m o m') (hm : m.Backed p)
    (htyped : ∀ r ∈ m'.readings, r.isWellTyped = true) :
    m.store.Follows p (m'.readings.length < m.readings.length ∨
      ∃ snapshots ∈ o, m.Renewed 0 m'.readings snapshots) m'.store := by
  have hd := hm.legible.distinct
  cases h with
  | @rested t sweep watch why =>
    refine (follows_syncStates (m := { m with readings := t.readings }) hd sweep).congr ?_
    rw [hm.publishedUnder_beyond]
    simp
  | @ran t _ snapshots sweep watch run =>
    have hsynced := synced_syncStates (m := { m with readings := t.readings }) hd sweep
    have hreadings : m'.readings = t.readings :=
      (passed_runBuilding (m := { t with watch }) hsynced.store.distinct run).1
    rw [hreadings] at htyped ⊢
    refine ((follows_syncStates (m := { m with readings := t.readings }) hd sweep).trans
      (follows_runBuilding (m := { t with watch }) htyped run)).congr ?_
    have hrenewed : ({ t with watch } : Monitor τ).Renewed 0 t.readings snapshots ↔
        m.Renewed 0 t.readings snapshots := (hsynced.withWatch watch).renewed_iff
    rw [hm.publishedUnder_beyond, hrenewed]
    simp

theorem Turned.keyed (h : Turned m o m') (hm : m.Backed p) :
    ∀ i < m'.readings.length, (m'.keys.lookup i).isSome := by
  intro i hi
  cases h with
  | rested hsynced why =>
    rcases why with hempty | hsame
    · rw [hempty] at hi
      exact absurd hi (Nat.not_lt_zero i)
    · rw [hsynced.lookup_keys hi]
      exact hm.keyed i (hsame ▸ hi)
  | @ran t _ snapshots hsynced hrun =>
    have hd : t.store.values.Distinct := hsynced.store.distinct
    rw [(passed_runBuilding hd hrun).1] at hi
    obtain ⟨snapshot, u, t', -, hhandled⟩ :=
      handled_runBuilding hd (List.getElem?_eq_getElem hi) hrun
    exact Option.isSome_of_eq_some hhandled.key'

theorem Turned.named (h : Turned m o m') (hm : m.Backed p)
    (htyped : ∀ r ∈ m'.readings, r.isWellTyped = true) :
    ∀ i key, m'.keys.lookup i = some key → ∃ name, key = .text name := by
  have hfitted {rs : List Reading} {t : Monitor τ} (ht : Synced { m with readings := rs } t)
      (i : Nat) (key : Value) (hkey : t.keys.lookup i = some key) : ∃ name, key = .text name := by
    rw [ht.keys] at hkey
    split at hkey
    · cases hkey
    · exact hm.named i key hkey
  intro i key hkey
  cases h with
  | rested hsynced _ => exact hfitted hsynced i key hkey
  | @ran t _ snapshots hsynced hrun =>
    have hd : t.store.values.Distinct := hsynced.store.distinct
    obtain ⟨hreadings, -, -, houtside⟩ := passed_runBuilding hd hrun
    rw [hreadings] at htyped
    by_cases hi : i < t.readings.length
    · obtain ⟨snapshot, u, t', -, hhandled⟩ :=
        handled_runBuilding hd (List.getElem?_eq_getElem hi) hrun
      obtain rfl := Option.some.inj (hhandled.key'.symm.trans hkey)
      exact Reading.exists_name
        (Reading.isOptional_storeKey_of_isWellTyped (htyped _ (List.getElem_mem hi))) i
    · rw [(houtside i (by omega)).1] at hkey
      exact hfitted hsynced i key hkey

/-- **An event over well-typed readings** keeps all that, and what it does to the file is said by
whether it changes the store. -/
theorem Backed.observe {e : Event τ} (hm : m.Backed p)
    (hbrought : ∀ rs ∈ e.brought, ∀ r ∈ rs, r.isWellTyped = true)
    (h : Completes e.observe m o m') : m'.Backed p ∧ m'.readings = e.brought.getD m.readings ∧
      m.store.Follows p (m'.readings.length < m.readings.length ∨
        ∃ snapshots ∈ o, m.Renewed 0 m'.readings snapshots) m'.store := by
  have hd := hm.legible.distinct
  obtain ⟨hswept, hreadings⟩ := swept_observe hm.fitted hd h
  have htyped : ∀ r ∈ m'.readings, r.isWellTyped = true :=
    hreadings ▸ holds_getD (P := fun rs => ∀ r ∈ rs, r.isWellTyped = true) hm.typed hbrought
  have hfollows := hswept.follows hm htyped
  have hturned := hswept.turned hd
  exact ⟨⟨hturned.fitted, hturned.keyed hm, hturned.named hm htyped, htyped,
    hfollows.legible hm.legible⟩, hreadings, hfollows⟩

end Runs

end Monitor

end BatteryMonitor
