import BatteryMonitor.Proofs.Monitor.States

/-!
# A run of the pipeline, with the snapshots that it builds

`Monitor.run` forgets the snapshots that it builds.  `Monitor.runBuilding` is the same run that
gives them back (`Monitor.run_eq`): the times remaining are estimated, and then every battery in
turn has its snapshot built (`Monitor.build`) and put in its place (`Monitor.place`).

What placing does is said once (`Monitor.Placed`): nothing if the snapshot is the one that was
last published under the same key; otherwise the record under the key that the index had before is
removed, if that was another key, and the snapshot is written.  A whole pass over the batteries
then leaves the keys that they had before and takes those that they have now
(`Monitor.Passed.store`).

For one battery a run is what the batteries before it do, its own snapshot, and what the batteries
after it do (`Monitor.Served`, and `Monitor.Handled` for what becomes of the records meanwhile).
-/

namespace BatteryMonitor

namespace Monitor

open Effect

variable {τ : Type} {m m' : Monitor τ} {i : Nat} {key : Value} {snapshot : Snapshot}

/-! ### The stages of a run -/

/-- Builds the snapshot of a battery. -/
def build [Scheduler τ] (index : Nat) (r : Reading) : M τ Snapshot := do
  let m ← get
  match m.state? index with
  | none => throw .missingEntry
  | some state =>
    match r.report state m.watch.conditions m.watch.now with
    | .error fault => throw fault
    | .ok (snapshot, latched) =>
      setState index { state with latched }
      return snapshot

/-- Puts a snapshot under the key of its battery, unless it is there already. -/
def place (index : Nat) (key : Value) (snapshot : Snapshot) : M τ Unit := do
  moveKey index key
  modify fun m => { m with keys := setAt index key m.keys }
  match (← get).state? index with
  | none => throw .missingEntry
  | some state =>
    if ← onStore (Store.publish key state snapshot) then
      setState index { state with lastPublished := some snapshot }

/-- Builds and publishes the snapshots of the batteries from an index on. -/
def pass [Scheduler τ] : Nat → List Reading → M τ (List Snapshot)
  | _, [] => return []
  | index, r :: rs => do
    let snapshot ← build index r
    place index (r.effectiveKey index) snapshot
    let snapshots ← pass (index + 1) rs
    return snapshot :: snapshots

/-- Runs the pipeline and gives the snapshots that it built. -/
def runBuilding [Scheduler τ] : M τ (List Snapshot) := do
  estimateAll
  pass 0 (← get).readings

theorem publishOne_eq [Scheduler τ] (index : Nat) (r : Reading) : (publishOne index r : M τ Unit) =
    build index r >>= place index (r.effectiveKey index) := by
  unfold publishOne build place
  rw [bind_assoc]
  congr 1
  funext m
  cases m.state? index with
  | none => rfl
  | some state =>
    dsimp only
    cases r.report state m.watch.conditions m.watch.now with
    | error fault => rfl
    | ok result => rfl

theorem forIn_publishOne [Scheduler τ] (rs : List Reading) (index : Nat) :
    (forIn (rs.zipIdx index) PUnit.unit fun (x : Reading × Nat) _ => do
      publishOne x.2 x.1
      pure (ForInStep.yield PUnit.unit) : M τ PUnit) = discard (pass index rs) := by
  induction rs generalizing index with
  | nil => rfl
  | cons r rs ih =>
    rw [List.zipIdx_cons, forIn_cons_unit (fun x : Reading × Nat => publishOne x.2 x.1), ih,
      publishOne_eq, bind_assoc]
    simp only [pass, discard_eq, bind_assoc, pure_bind]

/-- **A run builds snapshots and forgets them.** -/
theorem run_eq [Scheduler τ] : (run : M τ Unit) = discard runBuilding := by
  unfold run runBuilding
  simp only [forIn_publishOne, discard_eq, bind_assoc, pure_bind]

/-! ### Building -/

theorem completes_build [Scheduler τ] {r : Reading} (h : Completes (build i r) m snapshot m') :
    ∃ s latched, m.state? i = some s ∧
      r.report s m.watch.conditions m.watch.now = .ok (snapshot, latched) ∧
        m' = { m with states := setAt i { s with latched } m.states } := by
  simp only [build, completes_get_bind] at h
  cases hs : m.state? i with
  | none => rw [hs] at h; exact absurd h completes_throw
  | some s =>
    simp only [hs] at h
    cases hr : r.report s m.watch.conditions m.watch.now with
    | error fault => rw [hr] at h; exact absurd h completes_throw
    | ok result =>
      obtain ⟨snapshot', latched⟩ := result
      simp only [hr, setState, completes_modify_bind] at h
      obtain ⟨rfl, rfl⟩ := completes_pure.1 h
      exact ⟨s, latched, rfl, hr, rfl⟩

theorem revised_build [Scheduler τ] (i : Nat) (r : Reading) (m : Monitor τ) :
    Revised m (after (build i r) m) := by
  unfold after build
  rw [run_get_bind]
  cases hs : m.state? i with
  | none => exact .refl m
  | some s =>
    dsimp only
    cases r.report s m.watch.conditions m.watch.now with
    | error fault => exact .refl m
    | ok result =>
      have hlookup (j : Nat) := lookup_setAt i j { s with latched := result.2 } m.states
      refine ⟨rfl, fun j => ?_⟩
      by_cases hj : j = i
      · subst hj
        exact .inr ⟨s, _, hs, (hlookup j).trans (if_pos rfl), rfl, .inl rfl⟩
      · exact .inl ((hlookup j).trans (if_neg hj))

/-! ### Placing -/

/-- The index was last published under `old`, and that is not `key`. -/
def Moves (m : Monitor τ) (i : Nat) (key old : Value) : Prop :=
  m.keys.lookup i = some old ∧ old.isNull = false ∧ old.equal key = false

/-- The store after the record of an index that moves to `key` was removed. -/
def Vacated (m : Monitor τ) (i : Nat) (key : Value) (store : Store) : Prop :=
  (∀ old, ¬ m.Moves i key old) ∧ store = m.store ∨
    ∃ old, m.Moves i key old ∧ Completes (Store.removeValue old) m.store () store

theorem completes_moveKey_of_not_moves (hstay : ∀ old, ¬ m.Moves i key old) :
    Completes (moveKey i key) m () m := by
  simp only [moveKey, completes_get_bind]
  cases hkey : m.keys.lookup i with
  | none => exact completes_pure.2 ⟨rfl, rfl⟩
  | some old =>
    have hcond : ¬ (!old.isNull && !old.equal key) = true := by
      intro hmoves
      rw [Bool.and_eq_true, Bool.not_eq_true', Bool.not_eq_true'] at hmoves
      exact hstay old ⟨hkey, hmoves⟩
    simp only [if_neg hcond]
    exact completes_pure.2 ⟨rfl, rfl⟩

/-- **Placing a snapshot.** -/
inductive Placed (m : Monitor τ) (i : Nat) (key : Value) (snapshot : Snapshot) (m' : Monitor τ) :
    Prop
  /-- nothing is written: the index stays where it is, and what was last published is the same -/
  | skipped (s : BatteryState) (last : Snapshot) (state : m.state? i = some s)
      (published : s.lastPublished = some last) (same : last.same snapshot = true)
      (stays : ∀ old, ¬ m.Moves i key old) (eq : m' = { m with keys := setAt i key m.keys })
  /-- the index leaves its old key, if it moves, and the snapshot is written -/
  | written (s : BatteryState) (between store : Store) (state : m.state? i = some s)
      (vacated : m.Vacated i key between)
      (set : Completes (Store.setValue key (.object snapshot.toRecord)) between () store)
      (states : ∀ j, m'.state? j =
        if j = i then some { s with lastPublished := some snapshot } else m.state? j)
      (eq : m' = { m with store, keys := setAt i key m.keys, states := m'.states })

/-- An index that has a state had one before it moved, and has forgotten what it last published if
it did move. -/
theorem vacated_moveKey {s' : BatteryState} (h : Completes (moveKey i key) m () m')
    (hs' : m'.state? i = some s') : ∃ s between, m.state? i = some s ∧ m.Vacated i key between ∧
      m' = { m with store := between, states := m'.states } ∧
      (∀ j, m'.state? j = if j = i then some s' else m.state? j) ∧
      (s' = s ∧ m' = m ∧ (∀ old, ¬ m.Moves i key old) ∨ s' = { s with lastPublished := none }) := by
  simp only [moveKey, completes_get_bind] at h
  -- nothing happens unless the index moves
  have hstays (hold : ∀ old, ¬ m.Moves i key old) (hm : m' = m) :
      ∃ s between, m.state? i = some s ∧ m.Vacated i key between ∧
        m' = { m with store := between, states := m'.states } ∧
        (∀ j, m'.state? j = if j = i then some s' else m.state? j) ∧
        (s' = s ∧ m' = m ∧ (∀ old, ¬ m.Moves i key old) ∨
          s' = { s with lastPublished := none }) := by
    subst hm
    refine ⟨s', m'.store, hs', .inl ⟨hold, rfl⟩, rfl, fun j => ?_, .inl ⟨rfl, rfl, hold⟩⟩
    split
    · rename_i hj; rw [hj, hs']
    · rfl
  cases hkey : m.keys.lookup i with
  | none =>
    rw [hkey] at h
    refine hstays ?_ (completes_pure.1 h).2
    rintro old ⟨hold, -⟩
    cases hkey.symm.trans hold
  | some old =>
    simp only [hkey] at h
    split at h
    · rename_i hmove
      obtain ⟨hnull, hequal⟩ : old.isNull = false ∧ old.equal key = false := by
        simpa using hmove
      obtain ⟨u, t, hremove, h⟩ := completes_bind.1 h
      obtain ⟨store, hstore, rfl⟩ := completes_onStore.1 hremove
      rw [completes_get_bind] at h
      simp only [state?] at h
      cases hs : m.states.lookup i with
      | none =>
        rw [hs] at h
        obtain ⟨-, rfl⟩ := completes_pure.1 h
        cases hs.symm.trans hs'
      | some s =>
        simp only [hs] at h
        obtain rfl := completes_modify.1 h
        obtain rfl : { s with lastPublished := none } = s' := by
          simpa [state?, lookup_setAt] using hs'
        exact ⟨s, store, hs, .inr ⟨old, ⟨hkey, hnull, hequal⟩, hstore⟩, rfl,
          fun j => lookup_setAt i j _ m.states, .inr rfl⟩
    · rename_i hstay
      refine hstays ?_ (completes_pure.1 h).2
      rintro old' ⟨hold', hnull, hequal⟩
      obtain rfl : old = old' := Option.some.inj (hkey.symm.trans hold')
      exact hstay (by simp [hnull, hequal])

theorem completes_publish {s : BatteryState} {store store' : Store} {b : Bool}
    (h : Completes (Store.publish key s snapshot) store b store') :
    b = false ∧ store' = store ∧
        (∃ last, s.lastPublished = some last ∧ last.same snapshot = true) ∨
      b = true ∧ Completes (Store.setValue key (.object snapshot.toRecord)) store () store' := by
  have hwrite (h : Completes (do
      Store.setValue key (.object snapshot.toRecord)
      return true) store b store') : b = true ∧
        Completes (Store.setValue key (.object snapshot.toRecord)) store () store' := by
    obtain ⟨u, t, hset, h⟩ := completes_bind.1 h
    obtain ⟨rfl, rfl⟩ := completes_pure.1 h
    exact ⟨rfl, hset⟩
  unfold Store.publish at h
  cases hlast : s.lastPublished with
  | none => rw [hlast] at h; exact .inr (hwrite h)
  | some last =>
    simp only [hlast] at h
    split at h
    · rename_i hsame
      obtain ⟨rfl, rfl⟩ := completes_pure.1 h
      exact .inl ⟨rfl, rfl, last, rfl, hsame⟩
    · exact .inr (hwrite h)

theorem placed_place (h : Completes (place i key snapshot) m () m') :
    Placed m i key snapshot m' := by
  unfold place at h
  obtain ⟨u, t, hmove, h⟩ := completes_bind.1 h
  rw [completes_modify_bind, completes_get_bind] at h
  simp only [state?] at h
  cases hs' : t.states.lookup i with
  | none => rw [hs'] at h; exact absurd h completes_throw
  | some s' =>
    simp only [hs'] at h
    obtain ⟨s, between, hs, hvacated, heq, hstates, hs'⟩ := vacated_moveKey hmove hs'
    have hstore : t.store = between := by rw [heq]
    have hwritten : { s' with lastPublished := some snapshot } =
        { s with lastPublished := some snapshot } := by
      rcases hs' with ⟨rfl, -⟩ | rfl <;> rfl
    obtain ⟨b, w, hw, h⟩ := completes_bind.1 h
    obtain ⟨store, hpublish, rfl⟩ := completes_onStore.1 hw
    rcases completes_publish hpublish with ⟨rfl, rfl, last, hlast, hsame⟩ | ⟨rfl, hset⟩
    · obtain ⟨-, hm'⟩ := completes_pure.1 h
      rcases hs' with ⟨rfl, rfl, hstay⟩ | rfl
      · exact .skipped s' last hs hlast hsame hstay hm'
      · cases hlast
    · obtain rfl := completes_modify.1 h
      refine .written s between store hs hvacated (hstore ▸ hset) (fun j => ?_) ?_
      · simp only [state?, lookup_setAt, hwritten]
        split
        · rfl
        · rename_i hj
          exact (hstates j).trans (if_neg hj)
      · rw [heq]

theorem entryOf?_eq_of_not_moves {old v : Value} (hstay : ¬ m.Moves i key old)
    (hold : m.keys.lookup i = some old) (hnull : old.isNull = false)
    (hv : old.entryOf? = v.entryOf?) (hsome : v.entryOf?.isSome) : key.entryOf? = v.entryOf? := by
  have hequal : old.equal key = true :=
    eq_true_of_ne_false fun hne => hstay ⟨hold, hnull, hne⟩
  rw [← hv, Value.entryOf?_eq_of_equal hequal (hv ▸ hsome)]

theorem Vacated.rekeyed {store : Store} (hd : m.store.values.Distinct)
    (h : m.Vacated i key store) :
    m.store.Rekeyed (m.PublishedUnder [i]) (fun v => key.entryOf? = v.entryOf?) store := by
  rcases h with ⟨hstay, rfl⟩ | ⟨old, ⟨hold, hnull, -⟩, hremove⟩
  -- an index that stays has no other key to leave than the one that it comes to
  · refine ⟨fun _ _ _ => rfl, fun v hv htaken => ?_, hd, id, id⟩
    obtain ⟨old, hold, hnull, hentry⟩ := publishedUnder_singleton.1 hv
    refine Store.record?_eq_none _ (Option.not_isSome_iff_eq_none.1 fun hsome => htaken ?_)
    exact entryOf?_eq_of_not_moves (hstay old) hold hnull hentry hsome
  · have hunder (v : Value) : m.PublishedUnder [i] v ↔ old.entryOf? = v.entryOf? := by
      rw [publishedUnder_singleton, hold]
      simp [hnull]
    have hremoved := Store.rekeyed_removeValue hd hremove
    exact ⟨fun v hv _ => hremoved.stays v (mt (hunder v).2 hv) id,
      fun v hv _ => hremoved.gone v ((hunder v).1 hv) id, hremoved.distinct, hremoved.quiet,
      hremoved.loud⟩

namespace Placed

/-- **Placing a snapshot** leaves the old key of its index and takes the new one. -/
theorem rekeyed (h : Placed m i key snapshot m') (hd : m.store.values.Distinct) :
    m.store.Rekeyed (m.PublishedUnder [i]) (fun v => key.entryOf? = v.entryOf?) m'.store := by
  cases h with
  | skipped s last _ _ _ hstay heq =>
    rw [heq]
    exact Vacated.rekeyed hd (.inl ⟨hstay, rfl⟩)
  | written s between store _ hvacated hset _ heq =>
    rw [heq]
    have hleft := hvacated.rekeyed hd
    exact (hleft.trans (Store.rekeyed_setValue hleft.distinct hset)).congr
      (fun v => (or_false _).symm.to_iff) fun v => (or_self _).symm.to_iff

theorem watch (h : Placed m i key snapshot m') : m'.watch = m.watch := by
  cases h with
  | skipped _ _ _ _ _ _ heq => rw [heq]
  | written _ _ _ _ _ _ _ heq => rw [heq]

theorem readings (h : Placed m i key snapshot m') : m'.readings = m.readings := by
  cases h with
  | skipped _ _ _ _ _ _ heq => rw [heq]
  | written _ _ _ _ _ _ _ heq => rw [heq]

theorem keys (h : Placed m i key snapshot m') (j : Nat) :
    m'.keys.lookup j = if j = i then some key else m.keys.lookup j := by
  cases h with
  | skipped _ _ _ _ _ _ heq => rw [heq]; exact lookup_setAt i j key m.keys
  | written _ _ _ _ _ _ _ heq => rw [heq]; exact lookup_setAt i j key m.keys

theorem state?_of_ne (h : Placed m i key snapshot m') {j : Nat} (hj : j ≠ i) :
    m'.state? j = m.state? j := by
  cases h with
  | skipped _ _ _ _ _ _ heq => rw [heq]; rfl
  | written _ _ _ _ _ _ hstates _ => rw [hstates, if_neg hj]

theorem exists_lastPublished (h : Placed m i key snapshot m') : ∃ s last,
    m.state? i = some s ∧ m'.state? i = some { s with lastPublished := some last } := by
  cases h with
  | skipped s last hs hlast _ _ heq => exact ⟨s, last, hs, by rw [heq, ← hlast]; exact hs⟩
  | written s _ _ hs _ _ hstates _ => exact ⟨s, snapshot, hs, by rw [hstates, if_pos rfl]⟩

end Placed

/-! ### A pass over the batteries -/

/-- One of the readings, the first of which has the index `p`, comes under the key `v`. -/
def Claimed (p : Nat) (rs : List Reading) (v : Value) : Prop :=
  ∃ (k : Nat) (r : Reading), rs[k]? = some r ∧ (r.effectiveKey (p + k : Nat)).entryOf? = v.entryOf?

/-- **A pass over the batteries** from an index on: nothing but the states, the keys and the
records of these batteries changes. -/
structure Passed (m : Monitor τ) (p : Nat) (rs : List Reading) (m' : Monitor τ) : Prop where
  watch : m'.watch = m.watch
  readings : m'.readings = m.readings
  keys : ∀ (k : Nat) (r : Reading), rs[k]? = some r →
    m'.keys.lookup (p + k) = some (r.effectiveKey (p + k : Nat))
  outside : ∀ j, j < p ∨ p + rs.length ≤ j →
    m'.keys.lookup j = m.keys.lookup j ∧ m'.state? j = m.state? j
  store : m.store.Rekeyed (m.PublishedUnder (List.range' p rs.length)) (Claimed p rs) m'.store

theorem claimed_cons {p : Nat} {r : Reading} {rs : List Reading} {v : Value} :
    Claimed p (r :: rs) v ↔ (r.effectiveKey p).entryOf? = v.entryOf? ∨ Claimed (p + 1) rs v := by
  constructor
  · rintro ⟨k, r', hr, hv⟩
    cases k with
    | zero => cases hr; exact .inl hv
    | succ k => exact .inr ⟨k, r', hr, by rwa [show p + 1 + k = p + (k + 1) by omega]⟩
  · rintro (hv | ⟨k, r', hr, hv⟩)
    · exact ⟨0, r, rfl, hv⟩
    · exact ⟨k + 1, r', hr, by rwa [show p + (k + 1) = p + 1 + k by omega]⟩

theorem publishedUnder_cons {i : Nat} {js : List Nat} {v : Value} (hi : i ∉ js)
    (hkeys : ∀ j, j ≠ i → m'.keys.lookup j = m.keys.lookup j) :
    m.PublishedUnder (i :: js) v ↔ m.PublishedUnder [i] v ∨ m'.PublishedUnder js v := by
  have hjs : m'.PublishedUnder js v ↔ m.PublishedUnder js v :=
    exists_congr fun j => and_congr_right fun hj => by
      rw [hkeys j (ne_of_mem_of_not_mem hj hi)]
  rw [hjs]
  simp only [PublishedUnder, List.mem_cons, List.not_mem_nil, or_false, exists_eq_or_imp,
    exists_eq_left]

theorem passed_pass [Scheduler τ] : ∀ {rs : List Reading} {p : Nat} {snapshots : List Snapshot}
    {m m' : Monitor τ}, m.store.values.Distinct → Completes (pass p rs) m snapshots m' →
      Passed m p rs m' := by
  intro rs
  induction rs with
  | nil =>
    intro p snapshots m m' hd h
    obtain ⟨-, rfl⟩ := completes_pure.1 h
    exact ⟨rfl, rfl, fun k r hr => by simp at hr, fun _ _ => ⟨rfl, rfl⟩,
      .refl hd fun _ ⟨_, hj, _⟩ => List.not_mem_nil hj⟩
  | cons r rs ih =>
    intro p snapshots m m' hd h
    -- the first battery is built and placed, and the rest starts from what it leaves
    obtain ⟨snapshot, t, hbuild, h⟩ := completes_bind.1 h
    obtain ⟨u, t', hplace, h⟩ := completes_bind.1 h
    obtain ⟨rest, m'', hrest, h⟩ := completes_bind.1 h
    obtain ⟨-, rfl⟩ := completes_pure.1 h
    obtain ⟨s, latched, -, -, rfl⟩ := completes_build hbuild
    have hplaced := placed_place hplace
    have hfirst := hplaced.rekeyed hd
    have hpassed := ih hfirst.distinct hrest
    refine ⟨by rw [hpassed.watch, hplaced.watch], by rw [hpassed.readings, hplaced.readings],
      fun k r' hr' => ?_, fun j hj => ?_, ?_⟩
    · cases k with
      | zero =>
        cases hr'
        rw [Nat.add_zero, (hpassed.outside p (.inl (by omega))).1, hplaced.keys, if_pos rfl]
      | succ k =>
        have hk := hpassed.keys k r' hr'
        rwa [show p + 1 + k = p + (k + 1) by omega] at hk
    · rw [List.length_cons] at hj
      have hne : j ≠ p := by omega
      obtain ⟨hkey, hstate⟩ := hpassed.outside j (by omega)
      refine ⟨by rw [hkey, hplaced.keys, if_neg hne], ?_⟩
      rw [hstate, hplaced.state?_of_ne hne]
      simp only [state?, lookup_setAt, if_neg hne]
    -- the first battery has only changed its own key, so the rest leaves the keys of the start
    · refine (hfirst.trans hpassed.store).congr (fun v => ?_) fun v => claimed_cons
      rw [List.length_cons, List.range'_succ]
      refine publishedUnder_cons (by rw [List.mem_range'_1]; omega) fun j hj => ?_
      rw [hplaced.keys, if_neg hj]

/-- **One battery in a pass**: the batteries before it come first, then it has its snapshot built
and put in its place, then come those after it. -/
theorem pass_split [Scheduler τ] : ∀ {rs : List Reading} {p k : Nat} {r : Reading}
    {snapshots : List Snapshot} {m m' : Monitor τ}, rs[k]? = some r →
      Completes (pass p rs) m snapshots m' → ∃ before after snapshot t u t',
        snapshots[k]? = some snapshot ∧ Completes (pass p (rs.take k)) m before t ∧
        Completes (build (p + k) r) t snapshot u ∧
        Completes (place (p + k) (r.effectiveKey (p + k : Nat)) snapshot) u () t' ∧
        Completes (pass (p + k + 1) (rs.drop (k + 1))) t' after m' := by
  intro rs
  induction rs with
  | nil => intro p k r _ _ _ hr; simp at hr
  | cons r₀ rs ih =>
    intro p k r snapshots m m' hr h
    obtain ⟨snapshot, t, hbuild, h⟩ := completes_bind.1 h
    obtain ⟨u, t', hplace, h⟩ := completes_bind.1 h
    obtain ⟨rest, m'', hrest, h⟩ := completes_bind.1 h
    obtain ⟨rfl, rfl⟩ := completes_pure.1 h
    cases k with
    | zero =>
      cases hr
      exact ⟨[], rest, snapshot, m, t, t', rfl, completes_pure.2 ⟨rfl, rfl⟩, hbuild, hplace, hrest⟩
    | succ k =>
      obtain ⟨before, after, snapshot', v, w, v', hsnapshot, hbefore, hbuild', hplace', hafter⟩ :=
        ih hr hrest
      rw [show p + 1 + k = p + (k + 1) by omega] at hbuild' hplace' hafter
      refine ⟨snapshot :: before, after, snapshot', v, w, v', hsnapshot, ?_, hbuild', hplace',
        hafter⟩
      refine completes_bind.2 ⟨snapshot, t, hbuild, completes_bind.2 ⟨⟨⟩, t', hplace, ?_⟩⟩
      exact completes_bind.2 ⟨before, v, hbefore, completes_pure.2 ⟨rfl, rfl⟩⟩

/-! ### A run -/

theorem completes_runBuilding [Scheduler τ] {snapshots : List Snapshot}
    (h : Completes runBuilding m snapshots m') :
    ∃ e, Estimated m e ∧ Completes (pass 0 m.readings) e snapshots m' := by
  obtain ⟨u, e, hestimate, h⟩ := completes_bind.1 h
  have hestimated := estimated_estimateAll hestimate
  have hreadings : e.readings = m.readings := by rw [hestimated.eq]
  rw [completes_get_bind, hreadings] at h
  exact ⟨e, hestimated, h⟩

/-- **One battery in a run**, from `m` to `m'`, as the operations that the run is made of: the times
are estimated, the batteries before it are dealt with, its own snapshot is built, which leaves `u`,
and put in its place, which leaves `t`, and then come the batteries after it. -/
structure Served [Scheduler τ] (m : Monitor τ) (k : Nat) (r : Reading) (snapshot : Snapshot)
    (u t m' : Monitor τ) : Prop where
  before : ∃ e d snapshots, Estimated m e ∧
    Completes (pass 0 (m.readings.take k)) e snapshots d ∧ u = { d with states := u.states }
  report : ∃ s minutes latched, m.state? k = some s ∧
    r.estimate m.watch.conditions m.watch.now = .ok minutes ∧
    r.report { s with timeRemaining := .int minutes } m.watch.conditions m.watch.now =
      .ok (snapshot, latched) ∧
    u.state? k = some { s with timeRemaining := .int minutes, latched }
  place : Completes (place k (r.effectiveKey k) snapshot) u () t
  after : ∃ snapshots, Completes (pass (k + 1) (m.readings.drop (k + 1))) t snapshots m'

theorem served_runBuilding [Scheduler τ] {snapshots : List Snapshot} {k : Nat} {r : Reading}
    (hd : m.store.values.Distinct) (hr : m.readings[k]? = some r)
    (h : Completes runBuilding m snapshots m') :
    ∃ snapshot u t, snapshots[k]? = some snapshot ∧ Served m k r snapshot u t m' := by
  obtain ⟨e, hestimated, hpass⟩ := completes_runBuilding h
  obtain ⟨hk, -⟩ := List.getElem?_eq_some_iff.1 hr
  obtain ⟨before, after, snapshot, d, u, t, hsnapshot, hbefore, hbuild, hplace, hafter⟩ :=
    pass_split hr hpass
  rw [Nat.zero_add] at hbuild hplace hafter
  obtain ⟨s, minutes, hs, hminutes, hs'⟩ := hestimated.within k r hr
  have hde : e.store.values.Distinct := by rw [hestimated.eq]; exact hd
  -- the batteries before this one leave its state and the watch alone
  have hpassed := passed_pass hde hbefore
  obtain ⟨-, hstate⟩ := hpassed.outside k (.inr (by rw [List.length_take]; omega))
  have hwatch : d.watch = m.watch := by rw [hpassed.watch, hestimated.eq]
  obtain ⟨s', latched, hs'', hreport, rfl⟩ := completes_build hbuild
  rw [hstate, hs'] at hs''
  cases hs''
  rw [hwatch] at hreport
  refine ⟨snapshot, _, t, hsnapshot, ⟨e, d, before, hestimated, hbefore, rfl⟩,
    ⟨s, minutes, latched, hs, hminutes, hreport, ?_⟩, hplace, ⟨after, hafter⟩⟩
  simp only [state?, lookup_setAt, if_true]

/-- **What a run does for one battery**, and what the other batteries do to the records before and
after its own turn. -/
structure Handled [Scheduler τ] (m : Monitor τ) (k : Nat) (r : Reading) (snapshot : Snapshot)
    (u t m' : Monitor τ) : Prop where
  report : ∃ s minutes latched, m.state? k = some s ∧
    r.estimate m.watch.conditions m.watch.now = .ok minutes ∧
    r.report { s with timeRemaining := .int minutes } m.watch.conditions m.watch.now =
      .ok (snapshot, latched) ∧
    u.state? k = some { s with timeRemaining := .int minutes, latched }
  before : m.store.Rekeyed (m.PublishedUnder (List.range' 0 k)) (Claimed 0 (m.readings.take k))
    u.store
  key : u.keys.lookup k = m.keys.lookup k
  placed : Placed u k (r.effectiveKey k) snapshot t
  after : t.store.Rekeyed
    (m.PublishedUnder (List.range' (k + 1) (m.readings.length - (k + 1))))
    (Claimed (k + 1) (m.readings.drop (k + 1))) m'.store
  state? : m'.state? k = t.state? k
  key' : m'.keys.lookup k = some (r.effectiveKey k)

theorem publishedUnder_congr {js : List Nat} {v : Value}
    (h : ∀ j ∈ js, m'.keys.lookup j = m.keys.lookup j) :
    m'.PublishedUnder js v ↔ m.PublishedUnder js v :=
  exists_congr fun j => and_congr_right fun hj => by rw [h j hj]

theorem handled_runBuilding [Scheduler τ] {snapshots : List Snapshot} {k : Nat} {r : Reading}
    (hd : m.store.values.Distinct) (hr : m.readings[k]? = some r)
    (h : Completes runBuilding m snapshots m') :
    ∃ snapshot u t, snapshots[k]? = some snapshot ∧ Handled m k r snapshot u t m' := by
  obtain ⟨snapshot, u, t, hsnapshot, hserved⟩ := served_runBuilding hd hr h
  obtain ⟨e, d, before, hestimated, hbefore, hu⟩ := hserved.before
  obtain ⟨after, hafter⟩ := hserved.after
  obtain ⟨hk, -⟩ := List.getElem?_eq_some_iff.1 hr
  have hde : e.store.values.Distinct := by rw [hestimated.eq]; exact hd
  have hkeys : e.keys = m.keys := by rw [hestimated.eq]
  -- the batteries before this one and those after it leave its key and its state alone
  have hpassed := passed_pass hde hbefore
  have hplaced := placed_place hserved.place
  have hdu : u.store.values.Distinct := by rw [hu]; exact hpassed.store.distinct
  have hpassed' := passed_pass (hplaced.rekeyed hdu).distinct hafter
  have hkeys' (j : Nat) (hj : k ≤ j) : u.keys.lookup j = m.keys.lookup j := by
    rw [hu, ← hkeys]
    exact (hpassed.outside j (.inr (by rw [List.length_take]; omega))).1
  refine ⟨snapshot, u, t, hsnapshot, hserved.report, ?_, hkeys' k (Nat.le_refl k), hplaced, ?_,
    (hpassed'.outside k (.inl (by omega))).2, ?_⟩
  · have hstore := hpassed.store
    rw [hestimated.eq, List.length_take, Nat.min_eq_left (Nat.le_of_lt hk)] at hstore
    rw [hu]
    exact hstore
  · refine hpassed'.store.congr (fun v => ?_) fun _ => .rfl
    rw [List.length_drop]
    refine (publishedUnder_congr fun j hj => ?_).symm
    rw [List.mem_range'_1] at hj
    rw [hplaced.keys, if_neg (by omega), hkeys' j (by omega)]
  · rw [(hpassed'.outside k (.inl (by omega))).1, hplaced.keys, if_pos rfl]

/-- **What a run makes of one battery**: the time that is estimated for it, and with that time the
snapshot that is built and the latch after it. -/
theorem reported_runBuilding [Scheduler τ] {snapshots : List Snapshot} {k : Nat} {r : Reading}
    (hd : m.store.values.Distinct) (hr : m.readings[k]? = some r)
    (h : Completes runBuilding m snapshots m') : ∃ s s' snapshot minutes,
      m.state? k = some s ∧ m'.state? k = some s' ∧ snapshots[k]? = some snapshot ∧
      r.estimate m.watch.conditions m.watch.now = .ok minutes ∧
      r.report { s with timeRemaining := .int minutes } m.watch.conditions m.watch.now =
        .ok (snapshot, s'.latched) ∧ s'.timeRemaining = .int minutes := by
  obtain ⟨snapshot, u, t, hsnapshot, hhandled⟩ := handled_runBuilding hd hr h
  obtain ⟨s, minutes, latched, hs, hminutes, hreport, hu⟩ := hhandled.report
  obtain ⟨s', last, hs', ht⟩ := hhandled.placed.exists_lastPublished
  cases hu.symm.trans hs'
  exact ⟨s, _, snapshot, minutes, hs, by rw [hhandled.state?, ht], hsnapshot, hminutes, hreport,
    rfl⟩

theorem length_pass [Scheduler τ] : ∀ {rs : List Reading} {p : Nat} {snapshots : List Snapshot}
    {m m' : Monitor τ}, Completes (pass p rs) m snapshots m' → snapshots.length = rs.length := by
  intro rs
  induction rs with
  | nil =>
    intro p snapshots m m' h
    rw [(completes_pure.1 h).1]
    rfl
  | cons r rs ih =>
    intro p snapshots m m' h
    obtain ⟨snapshot, t, -, h⟩ := completes_bind.1 h
    obtain ⟨u, t', -, h⟩ := completes_bind.1 h
    obtain ⟨rest, m'', hrest, h⟩ := completes_bind.1 h
    rw [(completes_pure.1 h).1, List.length_cons, List.length_cons, ih hrest]

theorem length_runBuilding [Scheduler τ] {snapshots : List Snapshot}
    (h : Completes runBuilding m snapshots m') : snapshots.length = m.readings.length := by
  obtain ⟨e, -, hpass⟩ := completes_runBuilding h
  exact length_pass hpass

theorem passed_runBuilding [Scheduler τ] {snapshots : List Snapshot}
    (hd : m.store.values.Distinct) (h : Completes runBuilding m snapshots m') :
    m'.readings = m.readings ∧ m'.store.values.Distinct ∧ (m.store.Quiet → m'.store.Quiet) ∧
      ∀ j, m.readings.length ≤ j →
        m'.keys.lookup j = m.keys.lookup j ∧ m'.state? j = m.state? j := by
  obtain ⟨e, hestimated, hpass⟩ := completes_runBuilding h
  have hstore : e.store = m.store := by rw [hestimated.eq]
  have hpassed := passed_pass (hstore ▸ hd) hpass
  refine ⟨by rw [hpassed.readings, hestimated.eq], hpassed.store.distinct,
    fun hq => hpassed.store.quiet (hstore ▸ hq), fun j hj => ?_⟩
  obtain ⟨hkey, hstate⟩ := hpassed.outside j (.inr (by omega))
  exact ⟨by rw [hkey, hestimated.eq], by rw [hstate, hestimated.outside j hj]⟩

theorem watch_runBuilding [Scheduler τ] {snapshots : List Snapshot} (hd : m.store.values.Distinct)
    (h : Completes runBuilding m snapshots m') : m'.watch = m.watch := by
  obtain ⟨e, hestimated, hpass⟩ := completes_runBuilding h
  have hstore : e.store = m.store := by rw [hestimated.eq]
  rw [(passed_pass (hstore ▸ hd) hpass).watch, hestimated.eq]

end Monitor

end BatteryMonitor
