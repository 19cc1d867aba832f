import BatteryMonitor.Monitor
import BatteryMonitor.Proofs.Store

/-!
# What is kept for each index

A monitor keeps a state and a key for each index of its list.  Two stages of an operation work on
them before anything is published:

* `Monitor.syncStates` fits them to a new list: what lies beyond the end of the list is dropped
  with its records, and an index that is new gets a fresh state (`Monitor.Synced`);
* `Monitor.estimateAll` writes the time remaining of every index of the list and nothing else
  (`Monitor.Estimated`).

An operation on the store changes nothing else in a monitor, and neither does one on the watch
(`Monitor.completes_onStore`, `Monitor.completes_onWatch`).
-/

namespace BatteryMonitor

namespace Monitor

open Effect

/-! ### Entries by index -/

section Entries

variable {α : Type}

theorem lookup_cons_eq_ite (i j : Nat) (a : α) (entries : List (Nat × α)) :
    ((i, a) :: entries).lookup j = if j = i then some a else entries.lookup j := by
  rw [List.lookup_cons]
  by_cases h : j = i
  · simp [h]
  · rw [beq_false_of_ne h, if_neg h]

theorem lookup_setAt (i j : Nat) (a : α) (entries : List (Nat × α)) :
    (setAt i a entries).lookup j = if j = i then some a else entries.lookup j := by
  induction entries with
  | nil => exact lookup_cons_eq_ite i j a []
  | cons e entries ih =>
    obtain ⟨k, b⟩ := e
    simp only [setAt]
    by_cases hk : k = i
    · subst hk
      simp only [if_true, lookup_cons_eq_ite]
      split <;> rfl
    · simp only [if_neg hk, lookup_cons_eq_ite, ih]
      by_cases hj : j = k
      · subst hj; simp [hk]
      · simp [hj]

theorem lookup_eraseAt (i j : Nat) (entries : List (Nat × α)) :
    (eraseAt i entries).lookup j = if j = i then none else entries.lookup j := by
  induction entries with
  | nil => simp [eraseAt]
  | cons e entries ih =>
    obtain ⟨k, b⟩ := e
    unfold eraseAt at ih ⊢
    by_cases hk : k = i
    · subst hk
      rw [List.filter_cons_of_neg (by simp), ih, lookup_cons_eq_ite]
      split <;> rfl
    · rw [List.filter_cons_of_pos (by simpa using hk)]
      simp only [lookup_cons_eq_ite, ih]
      by_cases hj : j = k
      · subst hj; simp [hk]
      · simp [hj]

theorem lookup_foldl_setAt (written : List α) (start j : Nat) (entries : List (Nat × α)) :
    ((written.zipIdx start).foldl (fun all (a, i) => setAt i a all) entries).lookup j =
      if start ≤ j ∧ j < start + written.length then written[j - start]? else entries.lookup j := by
  induction written generalizing start entries with
  | nil => rw [if_neg (by simp only [List.length_nil]; omega)]; rfl
  | cons a written ih =>
    rw [List.zipIdx_cons, List.foldl_cons, ih, lookup_setAt, List.length_cons]
    -- what is written at `start` stays, since all that follows goes to higher indices
    by_cases hj : j = start
    · subst hj
      rw [if_neg (by omega), if_pos rfl, if_pos (by omega), Nat.sub_self, List.getElem?_cons_zero]
    · by_cases hin : start + 1 ≤ j ∧ j < start + 1 + written.length
      · rw [if_pos hin, if_pos (by omega), show j - start = (j - (start + 1)) + 1 by omega,
          List.getElem?_cons_succ]
      · rw [if_neg hin, if_neg hj, if_neg (by omega)]

theorem setAt_self {i : Nat} {a : α} {entries : List (Nat × α)}
    (h : entries.lookup i = some a) : setAt i a entries = entries := by
  induction entries with
  | nil => cases h
  | cons e entries ih =>
    obtain ⟨k, b⟩ := e
    rw [lookup_cons_eq_ite] at h
    simp only [setAt]
    by_cases hk : k = i
    · subst hk
      rw [if_pos rfl] at h ⊢
      rw [Option.some.inj h]
    · rw [if_neg hk]
      rw [if_neg (Ne.symm hk)] at h
      rw [ih h]

theorem foldl_setAt_self {written : List α} {start : Nat} {entries : List (Nat × α)}
    (h : ∀ (k : Nat) (a : α), written[k]? = some a → entries.lookup (start + k) = some a) :
    (written.zipIdx start).foldl (fun all (a, i) => setAt i a all) entries = entries := by
  induction written generalizing start with
  | nil => rfl
  | cons a written ih =>
    have hfirst : setAt start a entries = entries := setAt_self (h 0 a rfl)
    rw [List.zipIdx_cons, List.foldl_cons]
    dsimp only
    rw [hfirst]
    refine ih fun k b hb => ?_
    rw [show start + 1 + k = start + (k + 1) by omega]
    exact h (k + 1) b hb

end Entries

variable {τ : Type} {m m' : Monitor τ} {α : Type}

/-! ### Operations on a part of a monitor -/

theorem run_onStore (act : Store.M α) (m : Monitor τ) : (onStore act).run.run m =
    ((act.run.run m.store).1, { m with store := (act.run.run m.store).2 }) := by
  unfold onStore
  rw [run_get_bind]
  rcases act.run.run m.store with ⟨fault | a, store⟩ <;> rfl

theorem run_onWatch (act : Watch.M τ α) (m : Monitor τ) : (onWatch act).run.run m =
    ((act.run.run m.watch).1, { m with watch := (act.run.run m.watch).2 }) := by
  unfold onWatch
  rw [run_get_bind]
  rcases act.run.run m.watch with ⟨fault | a, watch⟩ <;> rfl

theorem completes_onStore {act : Store.M α} {a : α} : Completes (onStore act) m a m' ↔
    ∃ store, Completes act m.store a store ∧ m' = { m with store } := by
  unfold Completes
  rw [run_onStore]
  rcases act.run.run m.store with ⟨result, store⟩
  constructor
  · rintro ⟨⟩; exact ⟨store, rfl, rfl⟩
  · rintro ⟨_, ⟨⟩, rfl⟩; rfl

theorem completes_onWatch {act : Watch.M τ α} {a : α} : Completes (onWatch act) m a m' ↔
    ∃ watch, Completes act m.watch a watch ∧ m' = { m with watch } := by
  unfold Completes
  rw [run_onWatch]
  rcases act.run.run m.watch with ⟨result, watch⟩
  constructor
  · rintro ⟨⟩; exact ⟨watch, rfl, rfl⟩
  · rintro ⟨_, ⟨⟩, rfl⟩; rfl

theorem keeps_onStore {P : Watch τ → Prop} (act : Store.M α) :
    Keeps (fun m : Monitor τ => P m.watch) (onStore act) := by
  intro m hm
  unfold after
  rw [run_onStore]
  exact hm

theorem keeps_onStore_of {P : Monitor τ → Prop} {Q : Store → Prop} {act : Store.M α}
    (hQ : ∀ m, P m → Q m.store) (hP : ∀ m store, P m → Q store → P { m with store })
    (hact : Keeps Q act) : Keeps P (onStore act) := by
  intro m hm
  unfold after
  rw [run_onStore]
  exact hP m _ hm (hact m.store (hQ m hm))

theorem keeps_store_onWatch {P : Store → Prop} (act : Watch.M τ α) :
    Keeps (fun m : Monitor τ => P m.store) (onWatch act) := by
  intro m hm
  unfold after
  rw [run_onWatch]
  exact hm

/-! ### Fitting the states to the list -/

/-- One of the indices was last published under the key `v`. -/
def PublishedUnder (m : Monitor τ) (indices : List Nat) (v : Value) : Prop :=
  ∃ j ∈ indices, ∃ key, m.keys.lookup j = some key ∧ key.isNull = false ∧ key.entryOf? = v.entryOf?

/-- The monitor without what was kept for the indices, and without their records. -/
structure Dropped (m : Monitor τ) (indices : List Nat) (m' : Monitor τ) : Prop where
  readings : m'.readings = m.readings
  state? : ∀ j, m'.state? j = if j ∈ indices then none else m.state? j
  keys : ∀ j, m'.keys.lookup j = if j ∈ indices then none else m.keys.lookup j
  store : m.store.Rekeyed (m.PublishedUnder indices) (fun _ => False) m'.store

theorem publishedUnder_append {is js : List Nat} {v : Value}
    (hkeys : ∀ j, m'.keys.lookup j = if j ∈ is then none else m.keys.lookup j) :
    m.PublishedUnder (is ++ js) v ↔ m.PublishedUnder is v ∨ m'.PublishedUnder js v := by
  constructor
  · rintro ⟨j, hj, key, hkey, hv⟩
    by_cases hi : j ∈ is
    · exact .inl ⟨j, hi, key, hkey, hv⟩
    · refine .inr ⟨j, (List.mem_append.1 hj).resolve_left hi, key, ?_, hv⟩
      rw [hkeys, if_neg hi, hkey]
  · rintro (⟨j, hj, hkey⟩ | ⟨j, hj, key, hkey, hv⟩)
    · exact ⟨j, List.mem_append_left _ hj, hkey⟩
    · rw [hkeys] at hkey
      split at hkey
      · cases hkey
      · exact ⟨j, List.mem_append_right _ hj, key, hkey, hv⟩

theorem Dropped.refl (hd : m.store.values.Distinct) : Dropped m [] m where
  readings := rfl
  state? _ := by simp
  keys _ := by simp
  store := .refl hd fun _ ⟨_, hj, _⟩ => List.not_mem_nil hj

theorem Dropped.trans {m'' : Monitor τ} {is js : List Nat} (h : Dropped m is m')
    (h' : Dropped m' js m'') : Dropped m (is ++ js) m'' := by
  constructor
  · rw [h'.readings, h.readings]
  · intro j
    rw [h'.state?, h.state?]
    by_cases hi : j ∈ is <;> by_cases hj : j ∈ js <;> simp [hi, hj]
  · intro j
    rw [h'.keys, h.keys]
    by_cases hi : j ∈ is <;> by_cases hj : j ∈ js <;> simp [hi, hj]
  · exact (h.store.trans h'.store).congr (fun v => publishedUnder_append h.keys) fun v => by simp

theorem publishedUnder_singleton {i : Nat} {v : Value} : m.PublishedUnder [i] v ↔
    ∃ key, m.keys.lookup i = some key ∧ key.isNull = false ∧ key.entryOf? = v.entryOf? := by
  simp [PublishedUnder]

theorem dropped_dropBattery {i : Nat} (hd : m.store.values.Distinct)
    (h : Completes (dropBattery i) m () m') : Dropped m [i] m' := by
  simp only [dropBattery, completes_get_bind, completes_modify_bind] at h
  -- the store without the record of the key, if there is one
  obtain ⟨store, rfl, hstore⟩ : ∃ store, m' = { m with
      states := eraseAt i m.states, keys := eraseAt i m.keys, store } ∧
      m.store.Rekeyed (m.PublishedUnder [i]) (fun _ => False) store := by
    cases hkey : m.keys.lookup i with
    | none =>
      rw [hkey] at h
      refine ⟨m.store, (completes_pure.1 h).2, .refl hd fun v hv => ?_⟩
      obtain ⟨key, hkey', -⟩ := publishedUnder_singleton.1 hv
      cases hkey.symm.trans hkey'
    | some key =>
      have hunder (v : Value) : m.PublishedUnder [i] v ↔
          key.isNull = false ∧ key.entryOf? = v.entryOf? := by
        rw [publishedUnder_singleton, hkey]
        simp
      simp only [hkey] at h
      split at h
      · rename_i hnull
        refine ⟨m.store, (completes_pure.1 h).2, .refl hd fun v hv => ?_⟩
        exact Bool.false_ne_true (((hunder v).1 hv).1.symm.trans hnull)
      · rename_i hnull
        obtain ⟨store, hstore, rfl⟩ := completes_onStore.1 h
        refine ⟨store, rfl, (Store.rekeyed_removeValue hd hstore).congr (fun v => ?_) fun _ => .rfl⟩
        rw [hunder, eq_false_of_ne_true hnull]
        exact and_iff_right rfl
  have hlookup {α : Type} (entries : List (Nat × α)) (j : Nat) : (eraseAt i entries).lookup j =
      if j ∈ [i] then none else entries.lookup j := by
    simp only [lookup_eraseAt, List.mem_singleton]
  exact ⟨rfl, hlookup m.states, hlookup m.keys, hstore⟩

theorem dropped_forIn {count : Nat} : ∀ {entries : List (Nat × BatteryState)} {m m' : Monitor τ}
    {u : PUnit}, m.store.values.Distinct →
    Completes (forIn entries PUnit.unit fun entry _ => match entry with
      | (index, _) => if count ≤ index then do
          dropBattery index
          pure (ForInStep.yield PUnit.unit)
        else pure (ForInStep.yield PUnit.unit) : M τ PUnit) m u m' →
      Dropped m ((entries.map (·.1)).filter (count ≤ ·)) m' := by
  intro entries
  induction entries with
  | nil =>
    intro m m' u hd h
    rw [List.forIn_nil, completes_pure] at h
    rw [h.2]
    exact .refl hd
  | cons entry entries ih =>
    intro m m' u hd h
    obtain ⟨index, state⟩ := entry
    rw [List.forIn_cons, completes_bind] at h
    obtain ⟨r, t, hone, h⟩ := h
    rw [List.map_cons]
    dsimp only at hone
    -- an index beyond the end is dropped, and any other is passed over
    split at hone
    · rename_i hcount
      obtain ⟨u', t', hdrop, hone⟩ := completes_bind.1 hone
      obtain ⟨rfl, rfl⟩ := completes_pure.1 hone
      have hdropped := dropped_dropBattery hd hdrop
      rw [List.filter_cons_of_pos (by simpa using hcount)]
      exact hdropped.trans (ih hdropped.store.distinct h)
    · rename_i hcount
      obtain ⟨rfl, rfl⟩ := completes_pure.1 hone
      rw [List.filter_cons_of_neg (by simpa using hcount)]
      exact ih hd h

theorem added_step {index : Nat} {r : ForInStep PUnit} (h : Completes (do
      if ((← get).state? index).isNone then do
        setState index {}
        pure (ForInStep.yield PUnit.unit)
      else pure (ForInStep.yield PUnit.unit) : M τ (ForInStep PUnit)) m r m') :
    r = ForInStep.yield PUnit.unit ∧ m' = { m with states := m'.states } ∧
      ∀ j, m'.state? j = if j = index then some ((m.state? j).getD {}) else m.state? j := by
  rw [completes_get_bind] at h
  split at h
  · rename_i hnone
    obtain ⟨u, t, hset, h⟩ := completes_bind.1 h
    obtain ⟨rfl, rfl⟩ := completes_pure.1 h
    obtain rfl := completes_modify.1 hset
    refine ⟨rfl, rfl, fun j => ?_⟩
    simp only [state?, lookup_setAt]
    split
    · rename_i hj
      rw [hj, show m.states.lookup index = none from Option.isNone_iff_eq_none.1 hnone]
      rfl
    · rfl
  · rename_i hsome
    obtain ⟨s, hs⟩ : ∃ s, m.state? index = some s := by
      simpa [Option.ne_none_iff_exists'] using hsome
    obtain ⟨rfl, rfl⟩ := completes_pure.1 h
    refine ⟨rfl, rfl, fun j => ?_⟩
    split
    · rename_i hj
      rw [hj, hs]
      rfl
    · rfl

theorem added_forIn : ∀ {indices : List Nat} {m m' : Monitor τ} {u : PUnit},
    Completes (forIn indices PUnit.unit fun index _ => do
      if ((← get).state? index).isNone then do
        setState index {}
        pure (ForInStep.yield PUnit.unit)
      else pure (ForInStep.yield PUnit.unit) : M τ PUnit) m u m' →
      m' = { m with states := m'.states } ∧ ∀ j, m'.state? j =
        if j ∈ indices then some ((m.state? j).getD {}) else m.state? j := by
  intro indices
  induction indices with
  | nil =>
    intro m m' u h
    rw [List.forIn_nil, completes_pure] at h
    rw [h.2]
    exact ⟨rfl, fun j => by simp⟩
  | cons index indices ih =>
    intro m m' u h
    rw [List.forIn_cons, completes_bind] at h
    obtain ⟨r, t, hone, h⟩ := h
    obtain ⟨rfl, heq, hstate⟩ := added_step hone
    obtain ⟨heq', hstate'⟩ := ih h
    refine ⟨by rw [heq', heq], fun j => ?_⟩
    rw [hstate', hstate]
    by_cases hj : j = index <;> by_cases hj' : j ∈ indices <;> simp [hj, hj']

/-- The indices of a monitor that lie beyond the end of its list. -/
def beyond (m : Monitor τ) : List Nat :=
  (m.states.map (·.1)).filter (m.readings.length ≤ ·)

theorem mem_beyond {j : Nat} :
    j ∈ m.beyond ↔ m.readings.length ≤ j ∧ (m.state? j).isSome := by
  simp only [beyond, state?, List.mem_filter, List.mem_map, decide_eq_true_eq,
    List.lookup_isSome_iff, beq_iff_eq]
  constructor
  · rintro ⟨⟨e, he, rfl⟩, hj⟩; exact ⟨hj, e, he, rfl⟩
  · rintro ⟨hj, e, he, rfl⟩; exact ⟨⟨e, he, rfl⟩, hj⟩

theorem not_mem_beyond {j : Nat} (hj : j < m.readings.length) : j ∉ m.beyond :=
  fun hbeyond => absurd (mem_beyond.1 hbeyond).1 (Nat.not_le_of_lt hj)

/-- **Fitting the states to the list**: what lies beyond its end is dropped with its records, and
every index of the list has a state, a fresh one if it had none. -/
structure Synced (m m' : Monitor τ) : Prop where
  readings : m'.readings = m.readings
  state? : ∀ j, m'.state? j =
    if j < m.readings.length then some ((m.state? j).getD {}) else none
  keys : ∀ j, m'.keys.lookup j = if j ∈ m.beyond then none else m.keys.lookup j
  store : m.store.Rekeyed (m.PublishedUnder m.beyond) (fun _ => False) m'.store

theorem synced_syncStates (hd : m.store.values.Distinct) (h : Completes syncStates m () m') :
    Synced m m' := by
  simp only [syncStates, completes_get_bind] at h
  obtain ⟨u, d, hdrop, h⟩ := completes_bind.1 h
  obtain ⟨u', d', hadd, h⟩ := completes_bind.1 h
  obtain ⟨-, rfl⟩ := completes_pure.1 h
  have hdropped : Dropped m m.beyond d := dropped_forIn hd hdrop
  obtain ⟨heq, hstate⟩ := added_forIn hadd
  rw [heq]
  refine ⟨hdropped.readings, fun j => ?_, hdropped.keys, hdropped.store⟩
  change m'.state? j = _
  rw [hstate, hdropped.state?]
  -- what has been dropped is not added again, because it lies beyond the end
  by_cases hj : j < m.readings.length
  · rw [if_pos (List.mem_range.2 hj), if_pos hj, if_neg (not_mem_beyond hj)]
  · rw [if_neg (by simpa using hj), if_neg hj]
    split
    · rfl
    · rename_i hbeyond
      cases hs : m.state? j with
      | none => rfl
      | some s => exact absurd (mem_beyond.2 ⟨by omega, by rw [hs]; rfl⟩) hbeyond

namespace Synced

theorem lookup_keys (h : Synced m m') {i : Nat} (hi : i < m.readings.length) :
    m'.keys.lookup i = m.keys.lookup i := by
  rw [h.keys, if_neg (not_mem_beyond hi)]

theorem state?_of_lastPublished (h : Synced m m') {i : Nat} {s : BatteryState} {last : Snapshot}
    (hs : m'.state? i = some s) (hlast : s.lastPublished = some last) :
    i < m.readings.length ∧ m.state? i = some s := by
  rw [h.state?] at hs
  split at hs
  · rename_i hi
    cases hold : m.state? i with
    | none =>
      -- a fresh state has not published anything
      rw [hold] at hs
      cases hs
      cases hlast
    | some s' =>
      rw [hold] at hs
      exact ⟨hi, hs⟩
  · cases hs

end Synced

/-! ### Writing the times remaining -/

theorem currentStates_eq_ok : ∀ {indices : List Nat} {states : List BatteryState},
    m.currentStates indices = .ok states → indices.map m.state? = states.map some := by
  intro indices
  induction indices with
  | nil =>
    intro states h
    cases h
    rfl
  | cons index indices ih =>
    intro states h
    simp only [currentStates] at h
    cases hs : m.state? index with
    | none => rw [hs] at h; cases h
    | some s =>
      rw [hs] at h
      cases hrest : m.currentStates indices with
      | error fault => rw [hrest] at h; cases h
      | ok rest =>
        rw [hrest] at h
        cases h
        rw [List.map_cons, List.map_cons, hs, ih hrest]

theorem getElem?_currentStates {count : Nat} {states : List BatteryState}
    (h : m.currentStates (List.range count) = .ok states) :
    count = states.length ∧ ∀ i < count, states[i]? = m.state? i := by
  have hmap := currentStates_eq_ok h
  refine ⟨by simpa using congrArg List.length hmap, fun i hi => ?_⟩
  have hget := congrArg (·[i]?) hmap
  simp only [List.getElem?_map, List.getElem?_range hi, Option.map_some] at hget
  cases hs : states[i]? with
  | none => rw [hs] at hget; cases hget
  | some s => rw [hs] at hget; simpa using hget.symm

theorem currentStates_congr {n : Monitor τ} (h : n.states = m.states) (indices : List Nat) :
    n.currentStates indices = m.currentStates indices := by
  induction indices with
  | nil => rfl
  | cons i indices ih => rw [currentStates, currentStates, ih, state?, state?, h]

theorem exists_currentStates : ∀ {indices : List Nat}, (∀ i ∈ indices, (m.state? i).isSome) →
    ∃ states, m.currentStates indices = .ok states := by
  intro indices
  induction indices with
  | nil => exact fun _ => ⟨[], rfl⟩
  | cons index indices ih =>
    intro h
    obtain ⟨s, hs⟩ := Option.isSome_iff_exists.1 (h index List.mem_cons_self)
    obtain ⟨states, hstates⟩ := ih fun i hi => h i (List.mem_cons_of_mem _ hi)
    refine ⟨s :: states, ?_⟩
    rw [currentStates, hs, hstates]
    rfl

theorem populate_eq_none {c : Conditions} {now : Binary64} : ∀ {readings : List Reading}
    {states states' : List BatteryState}, readings.length = states.length →
      populate c now readings states = (none, states') → states'.length = states.length ∧
        ∀ (i : Nat) (r : Reading) (s : BatteryState), readings[i]? = some r →
          states[i]? = some s → ∃ minutes, r.estimate c now = .ok minutes ∧
            states'[i]? = some { s with timeRemaining := .int minutes } := by
  intro readings
  induction readings with
  | nil =>
    intro states states' hlen h
    obtain rfl : states = [] := List.eq_nil_of_length_eq_zero hlen.symm
    cases h
    exact ⟨rfl, fun i r s hr => by simp at hr⟩
  | cons r readings ih =>
    intro states states' hlen h
    cases states with
    | nil => simp at hlen
    | cons s states =>
      simp only [populate] at h
      cases hr : r.estimate c now with
      | error fault => rw [hr] at h; cases h
      | ok minutes =>
        simp only [hr] at h
        cases hrest : populate c now readings states with
        | mk fault rest =>
          rw [hrest] at h
          cases h
          obtain ⟨hlen', hall⟩ := ih (by simpa using hlen) hrest
          refine ⟨by simp [hlen'], fun i r' s' hr' hs' => ?_⟩
          cases i with
          | zero =>
            cases hr'
            cases hs'
            exact ⟨minutes, hr, rfl⟩
          | succ i => exact hall i r' s' hr' hs'

theorem populate_self {c : Conditions} {now : Binary64} : ∀ {readings : List Reading}
    {states : List BatteryState}, readings.length = states.length →
      (∀ (i : Nat) (r : Reading) (s : BatteryState), readings[i]? = some r →
        states[i]? = some s → ∃ minutes, r.estimate c now = .ok minutes ∧
          s.timeRemaining = .int minutes) → populate c now readings states = (none, states) := by
  intro readings
  induction readings with
  | nil => exact fun _ _ => rfl
  | cons r readings ih =>
    intro states hlen h
    cases states with
    | nil => simp at hlen
    | cons s states =>
      obtain ⟨minutes, hminutes, hs⟩ := h 0 r s rfl rfl
      have hrest : populate c now readings states = (none, states) :=
        ih (by simpa using hlen) fun i r' s' hr' hs' => h (i + 1) r' s' hr' hs'
      rw [populate, hminutes]
      dsimp only
      rw [hrest, ← hs]

/-- Estimates write minutes and nothing else, also when one of them stops with a fault. -/
theorem getElem?_populate (c : Conditions) (now : Binary64) :
    ∀ (readings : List Reading) (states : List BatteryState) (i : Nat),
      (populate c now readings states).2[i]? = states[i]? ∨ ∃ s minutes, states[i]? = some s ∧
        (populate c now readings states).2[i]? = some { s with timeRemaining := .int minutes }
  | [], _, _ => .inl rfl
  | _ :: _, [], _ => .inl rfl
  | r :: readings, s :: states, i => by
    rw [populate]
    cases r.estimate c now with
    | ok minutes =>
      cases i with
      | zero => exact .inr ⟨s, minutes, rfl, rfl⟩
      | succ i => exact getElem?_populate c now readings states i
    | error fault => exact .inl rfl

/-- **Nothing changes but what is reckoned for the batteries**: their latches, and their times
remaining, which are minutes if they change.  That is so wherever a run stops before it publishes
anything. -/
structure Revised (m m' : Monitor τ) : Prop where
  eq : m' = { m with states := m'.states }
  state? : ∀ i, m'.state? i = m.state? i ∨ ∃ s s', m.state? i = some s ∧ m'.state? i = some s' ∧
    s'.lastPublished = s.lastPublished ∧
      (s'.timeRemaining = s.timeRemaining ∨ ∃ minutes, s'.timeRemaining = .int minutes)

theorem Revised.refl (m : Monitor τ) : Revised m m := ⟨rfl, fun _ => .inl rfl⟩

theorem Revised.lastPublished (h : Revised m m') (i : Nat) :
    (m'.state? i).map (·.lastPublished) = (m.state? i).map (·.lastPublished) := by
  rcases h.state? i with hsame | ⟨s, s', hs, hs', hlast, -⟩
  · rw [hsame]
  · rw [hs, hs', Option.map_some, Option.map_some, hlast]

theorem state?_setStates (written : List BatteryState) (i : Nat) :
    (after (setStates written) m).state? i =
      if i < written.length then written[i]? else m.state? i := by
  have h := lookup_foldl_setAt written 0 i m.states
  simp only [Nat.zero_add, Nat.sub_zero, Nat.zero_le, true_and] at h
  exact h

theorem revised_estimateAll [Scheduler τ] (m : Monitor τ) : Revised m (after estimateAll m) := by
  cases hstates : m.currentStates (List.range m.readings.length) with
  | error fault =>
    unfold after estimateAll
    rw [run_get_bind, hstates]
    exact .refl m
  | ok states =>
    have hafter : after estimateAll m =
        after (setStates (populate m.watch.conditions m.watch.now m.readings states).2) m := by
      unfold after estimateAll
      rw [run_get_bind, hstates]
      dsimp only
      generalize populate m.watch.conditions m.watch.now m.readings states = result
      rcases result with ⟨_ | fault, written⟩ <;> rfl
    rw [hafter]
    obtain ⟨hlen, hget⟩ := getElem?_currentStates hstates
    refine ⟨rfl, fun i => ?_⟩
    rw [state?_setStates]
    split
    · rename_i hi
      -- whatever is written at an index is made of its state
      have hold {s : BatteryState} (hs : states[i]? = some s) : m.state? i = some s := by
        obtain ⟨hi', -⟩ := List.getElem?_eq_some_iff.1 hs
        rw [← hget i (hlen ▸ hi'), hs]
      rcases getElem?_populate m.watch.conditions m.watch.now m.readings states i with
        hsame | ⟨s, minutes, hs, hs'⟩
      · have hwritten := List.getElem?_eq_getElem hi
        exact .inl (hwritten.trans (hold (hsame.symm.trans hwritten)).symm)
      · exact .inr ⟨s, _, hold hs, hs', rfl, .inr ⟨minutes, rfl⟩⟩
    · exact .inl rfl

/-- **Writing the times remaining**: every index of the list gets the estimate for its reading, and
nothing else changes. -/
structure Estimated [Scheduler τ] (m m' : Monitor τ) : Prop where
  eq : m' = { m with states := m'.states }
  within : ∀ i r, m.readings[i]? = some r → ∃ s minutes, m.state? i = some s ∧
    r.estimate m.watch.conditions m.watch.now = .ok minutes ∧
      m'.state? i = some { s with timeRemaining := .int minutes }
  outside : ∀ i, m.readings.length ≤ i → m'.state? i = m.state? i

theorem estimated_estimateAll [Scheduler τ] (h : Completes estimateAll m () m') :
    Estimated m m' := by
  simp only [estimateAll, completes_get_bind] at h
  cases hstates : m.currentStates (List.range m.readings.length) with
  | error fault => rw [hstates] at h; exact absurd h completes_throw
  | ok states =>
    rw [hstates] at h
    dsimp only at h
    obtain ⟨hlen, hget⟩ := getElem?_currentStates hstates
    cases hpopulate : populate m.watch.conditions m.watch.now m.readings states with
    | mk fault states' =>
      rw [hpopulate] at h
      dsimp only at h
      obtain ⟨u, t, hset, h⟩ := completes_bind.1 h
      obtain rfl := completes_modify.1 hset
      cases fault with
      | some fault => exact absurd h completes_throw
      | none =>
        obtain ⟨-, rfl⟩ := completes_pure.1 h
        obtain ⟨hlen', hall⟩ := populate_eq_none hlen hpopulate
        refine ⟨rfl, fun i r hr => ?_, fun i hi => ?_⟩
        · obtain ⟨hi, -⟩ := List.getElem?_eq_some_iff.1 hr
          obtain ⟨s, hs⟩ : ∃ s, states[i]? = some s := ⟨_, List.getElem?_eq_getElem (hlen ▸ hi)⟩
          obtain ⟨minutes, hminutes, hs'⟩ := hall i r s hr hs
          refine ⟨s, minutes, by rw [← hget i hi, hs], hminutes, ?_⟩
          unfold state?
          rw [lookup_foldl_setAt, if_pos (by omega), Nat.sub_zero, hs']
        -- nothing is written beyond the end of the list
        · unfold state?
          rw [lookup_foldl_setAt, if_neg (by omega)]

/-- The times remaining of the batteries from an index on are their estimates. -/
def Timed [Scheduler τ] (m : Monitor τ) (p : Nat) (rs : List Reading) : Prop :=
  ∀ (k : Nat) (r : Reading), rs[k]? = some r → ∃ s minutes, m.state? (p + k) = some s ∧
    s.timeRemaining = .int minutes ∧ r.estimate m.watch.conditions m.watch.now = .ok minutes

theorem Estimated.timed [Scheduler τ] (h : Estimated m m') : m'.Timed 0 m.readings := by
  intro k r hr
  obtain ⟨s, minutes, -, hminutes, hs⟩ := h.within k r hr
  exact ⟨_, minutes, by rw [Nat.zero_add, hs], rfl, by rw [h.eq]; exact hminutes⟩

theorem Timed.congr [Scheduler τ] {p : Nat} {rs : List Reading} (h : m.Timed p rs)
    (hwatch : m'.watch = m.watch) (hstates : ∀ j, p ≤ j → m'.state? j = m.state? j) :
    m'.Timed p rs := by
  intro k r hr
  obtain ⟨s, minutes, hs, htime, hminutes⟩ := h k r hr
  exact ⟨s, minutes, by rw [hstates _ (by omega), hs], htime, by rwa [hwatch]⟩

theorem Timed.tail [Scheduler τ] {p : Nat} {r : Reading} {rs : List Reading}
    (h : m.Timed p (r :: rs)) : m.Timed (p + 1) rs := by
  intro k r' hr'
  rw [show p + 1 + k = p + (k + 1) by omega]
  exact h (k + 1) r' hr'

end Monitor

end BatteryMonitor
