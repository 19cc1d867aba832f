import BatteryMonitor.Proofs.Monitor.Bench
import BatteryMonitor.Proofs.Monitor.Notices

/-!
# Batteries do not interfere except through the primary

All batteries of a list share one watch, one timer and one store, and are dealt with in loops that
go with the list.  Yet what becomes of one of them depends on the others in one way only: the first
of the list is the primary battery, and the watch looks at four things of it (`Reading.face`).
Two runs that agree on these and on the readings of an index agree on all that can be told of the
index, whatever the other readings say and however many there are (`Monitor.separated`).

The proof goes by what the index has to itself (`Monitor.Berth`).  What the stages of an operation
make of that is a function of it, the conditions and the clock:

* `Monitor.Berth.fitted` when the states are fitted to a list (`Monitor.Moored.synced`);
* `Monitor.Berth.ran` when the pipeline runs (`Monitor.Moored.runBuilding`).

Two runs then go side by side (`Monitor.Abreast`): both have the same berth, and their watches are
the same but for the primary battery, of which they only see the face (`Watch.Kin`).
-/

namespace BatteryMonitor

open Effect

/-! ### The face of a battery -/

/-- What a watch looks at in the primary battery. -/
structure Face where
  externalConnected : Value
  isPresent : Value
  invalidWakeSecs : Value
  /-- the battery does not estimate its time remaining itself -/
  isSilent : Bool

/-- What a watch looks at in a reading. -/
def Reading.face (r : Reading) : Face :=
  ⟨r.externalConnected, r.isPresent, r.invalidWakeSecs, r.firmwareTimeRemaining.isNull⟩

namespace Watch

/-- Two watches are the same but for the primary battery, and that has the same face for both. -/
structure Kin (w w' : Watch Bench) : Prop where
  eq : w' = { w with primary := w'.primary }
  face : w'.primary.map Reading.face = w.primary.map Reading.face

theorem Kin.refl (w : Watch Bench) : w.Kin w := ⟨rfl, rfl⟩

theorem coupled_suppress : Coupled Kin suppress suppress := by
  intro w w' ⟨heq, hface⟩
  generalize w'.primary = primary' at heq hface
  subst heq
  unfold after
  rw [run_suppress, run_suppress]
  have hkin := hface
  cases hprimary : w.primary with
  | none =>
    rw [hprimary] at hface
    cases primary' with
    | none => exact ⟨rfl, rfl, hkin⟩
    | some p' => cases hface
  | some p =>
    rw [hprimary] at hface
    cases primary' with
    | none => cases hface
    | some p' =>
      have hsecs : p'.invalidWakeSecs = p.invalidWakeSecs :=
        congrArg Face.invalidWakeSecs (Option.some.inj hface)
      dsimp only
      rw [hsecs]
      cases p.invalidWakeSecs.toDouble with
      | error fault => exact ⟨rfl, rfl, hkin⟩
      | ok delay => exact ⟨rfl, rfl, hkin⟩

theorem coupled_windowOver : Coupled Kin windowOver windowOver := by
  intro w w' ⟨heq, hface⟩
  generalize w'.primary = primary' at heq hface
  subst heq
  unfold after
  rw [run_windowOver, run_windowOver]
  exact ⟨rfl, rfl, hface⟩

theorem coupled_adjust (f : Conditions → Conditions) : Coupled Kin (adjust f) (adjust f) := by
  refine coupled_modify fun w w' ⟨heq, hface⟩ => ?_
  generalize w'.primary = primary' at heq hface
  subst heq
  exact ⟨rfl, hface⟩

theorem Kin.seen {w w' : Watch Bench} (h : w.Kin w') {p p' : Reading} (hface : p'.face = p.face) :
    (w.seen p).Kin (w'.seen p') := by
  obtain ⟨heq, hprimary⟩ := h
  generalize w'.primary = primary' at heq hprimary
  subst heq
  have hexternal := congrArg Face.externalConnected hface
  have hpresent := congrArg Face.isPresent hface
  have hsilent := congrArg Face.isSilent hface
  simp only [Reading.face] at hexternal hpresent hsilent
  refine ⟨?_, hprimary⟩
  simp only [Watch.seen, Reading.isTrusted, hexternal, hpresent, hsilent]

/-- **A watch looks at nothing but the face of the primary battery.** -/
theorem coupled_batteriesChanged {rs rs' : List Reading}
    (hface : rs'.head?.map Reading.face = rs.head?.map Reading.face) :
    Coupled Kin (batteriesChanged rs) (batteriesChanged rs') := by
  cases rs with
  | nil =>
    cases rs' with
    | nil =>
      refine coupled_modify fun w w' ⟨heq, _⟩ => ?_
      generalize w'.primary = primary' at heq
      subst heq
      exact ⟨rfl, rfl⟩
    | cons p' rest' => cases hface
  | cons p rest =>
    cases rs' with
    | nil => cases hface
    | cons p' rest' =>
      have hface : p'.face = p.face := Option.some.inj hface
      have hexternal : p'.externalConnected = p.externalConnected :=
        congrArg Face.externalConnected hface
      intro w w' hkin
      have hprimary : Kin { w with primary := some p } { w' with primary := some p' } := by
        refine ⟨?_, congrArg some hface⟩
        rw [hkin.eq]
      have hlast : w'.conditions.lastExternal = w.conditions.lastExternal := by rw [hkin.eq]
      unfold after
      rw [run_batteriesChanged, run_batteriesChanged, hexternal, hlast]
      split
      · exact ⟨rfl, hprimary.seen hface⟩
      · obtain ⟨hout, hafter⟩ := coupled_suppress _ _ hprimary
        unfold after at hafter
        generalize suppress.run.run { w with primary := some p } = a at hout hafter ⊢
        generalize suppress.run.run { w' with primary := some p' } = b at hout hafter ⊢
        obtain ⟨fault | _, t⟩ := a
        · obtain ⟨_, t'⟩ := b
          cases hout
          exact ⟨rfl, hafter⟩
        · obtain ⟨_, t'⟩ := b
          cases hout
          exact ⟨rfl, Kin.seen hafter hface⟩

end Watch

theorem Store.publish_eq (key : Value) (s : BatteryState) (snapshot : Snapshot) :
    Store.publish key s snapshot =
      if s.lastPublished.any fun last => last.same snapshot then return false
      else do
        Store.setValue key (.object snapshot.toRecord)
        return true := by
  unfold Store.publish
  cases s.lastPublished <;> rfl

namespace Monitor

/-! ### What an index has to itself -/

/-- What an index has to itself: its reading, what is kept for it, the key that it is known under,
and what a listener heard of its key, with the record. -/
structure Berth where
  reading : Option Reading
  state : Option BatteryState
  key : Option Value
  glance : List (Option Value) × Option Value

namespace Berth

/-- An index that is known has a state. -/
def Known (b : Berth) : Prop := b.key.isSome → b.state.isSome

section

variable (name : String) (base : List Subscriber)

/-- The berth when the states have been fitted to a list. -/
def fitted (b : Berth) : Berth :=
  match b.reading with
  | some _ => { b with state := some (b.state.getD {}) }
  | none => { b with
    state := none
    key := none
    glance := if b.key.isSome then Store.parted name base b.glance else b.glance }

/-- The berth when a snapshot has been placed. -/
def placed (key : Text) (s : BatteryState) (snapshot : Snapshot) (b : Berth) : Berth :=
  if s.lastPublished.any fun last => last.same snapshot then
    { b with state := some s, key := some (.text key) }
  else
    let record : Value := .object snapshot.toRecord
    { b with
      state := some { s with lastPublished := some snapshot }
      key := some (.text key)
      glance := base.foldl (Store.echo name base record) (b.glance.1, some record) }

/-- The berth when the pipeline has run. -/
def ran (key : Text) (c : Conditions) (now : Binary64) (b : Berth) : Berth :=
  match b.reading, b.state with
  | some r, some s =>
    match r.estimate c now with
    | .ok minutes =>
      match r.report { s with timeRemaining := .int minutes } c now with
      | .ok (snapshot, latched) =>
        b.placed name base key { s with timeRemaining := .int minutes, latched } snapshot
      | .error _ => b
    | .error _ => b
  | _, _ => b

end

variable {name : String} {base : List Subscriber} {b : Berth}

theorem known_fitted : (b.fitted name base).Known := by
  unfold Known fitted
  split
  · exact fun _ => rfl
  · exact fun hkey => hkey

theorem Known.ran (h : b.Known) (key : Text) (c : Conditions) (now : Binary64) :
    (b.ran name base key c now).Known := by
  unfold Berth.ran
  split
  · split
    · split
      · unfold placed
        split <;> exact fun _ => rfl
      · exact h
    · exact h
  · exact h

end Berth

section

variable {τ : Type} {m m' : Monitor τ} {name : String} {base : List Subscriber}
  {keyOf : Nat → Text} {i : Nat}

/-- What an index of a monitor has to itself. -/
def berth (name : String) (key : Text) (i : Nat) (m : Monitor τ) : Berth :=
  ⟨m.readings[i]?, m.state? i, m.keys.lookup i, m.store.glance name key⟩

/-- **What holds between events**, whatever the readings say: every index is known under no key but
its own, and there are states for just the indices of the list. -/
structure Moored (name : String) (base : List Subscriber) (keyOf : Nat → Text) (i : Nat)
    (m : Monitor τ) : Prop extends m.Orderly (Store.Audience name base) keyOf where
  fitted : m.Fitted
  keyed : Reading.Keyed keyOf m.readings
  known : (m.berth name (keyOf i) i).Known

theorem Moored.withWatch (h : m.Moored name base keyOf i) (watch : Watch τ) :
    ({ m with watch } : Monitor τ).Moored name base keyOf i :=
  ⟨h.toOrderly.congr rfl rfl, h.fitted, h.keyed, h.known⟩

theorem Fresh.moored (h : m.Fresh) (haudience : m.store.Audience name base) :
    m.Moored name base keyOf i where
  distinct := h.distinct
  audience := haudience
  named j key hkey := by rw [h.keys] at hkey; cases hkey
  fitted := h.fitted
  keyed j r hr := by rw [h.readings] at hr; cases hr
  known hkey := by rw [berth, h.keys] at hkey; cases hkey

theorem Moored.berth_synced {rs : List Reading} (hm : m.Moored name base keyOf i)
    (hsynced : Synced { m with readings := rs } m')
    (hfate : Fate name base keyOf i { m with readings := rs } m') : m'.berth name (keyOf i) i =
      Berth.fitted name base { m.berth name (keyOf i) i with reading := rs[i]? } := by
  have hreadings : m'.readings = rs := hsynced.readings
  by_cases hi : i < rs.length
  · have hkey : m'.keys.lookup i = m.keys.lookup i := hsynced.lookup_keys hi
    have hstate : m'.state? i = some ((m.state? i).getD {}) :=
      (hsynced.state? i).trans (if_pos hi)
    have hglance : m'.store.glance name (keyOf i) = m.store.glance name (keyOf i) := by
      cases hfate with
      | stays _ hglance => exact hglance
      | goes hknown hgone _ =>
        rw [show ({ m with readings := rs } : Monitor τ).keys.lookup i = m.keys.lookup i from rfl,
          ← hkey, hgone] at hknown
        cases hknown
    simp only [berth, Berth.fitted, hreadings, List.getElem?_eq_getElem hi, hkey, hstate, hglance]
  · have hnone : rs[i]? = none := List.getElem?_eq_none (Nat.le_of_not_lt hi)
    have hstate : m'.state? i = none := (hsynced.state? i).trans (if_neg hi)
    -- an index that is known has a state, and is dropped with it
    have hkey : m'.keys.lookup i = none := by
      rw [hsynced.keys]
      split
      · rfl
      · rename_i hbeyond
        have hsome : ¬ (m.keys.lookup i).isSome := fun hknown =>
          hbeyond (mem_beyond.2 ⟨Nat.le_of_not_lt hi, hm.known hknown⟩)
        exact Option.not_isSome_iff_eq_none.1 hsome
    have hglance : m'.store.glance name (keyOf i) = if (m.keys.lookup i).isSome then
        Store.parted name base (m.store.glance name (keyOf i))
        else m.store.glance name (keyOf i) := by
      cases hfate with
      | stays hstays hglance =>
        have hunknown : m.keys.lookup i = none := hstays.symm.trans hkey
        rw [hunknown]
        exact hglance
      | goes hknown _ hglance =>
        rw [if_pos hknown]
        exact hglance
    simp only [berth, Berth.fitted, hreadings, hnone, hstate, hkey, hglance]
    rfl

/-- **Fitting the states to a list** does to an index what its own reading asks for. -/
theorem Moored.synced {rs : List Reading} (hinj : Function.Injective keyOf)
    (hm : m.Moored name base keyOf i) (hkeyed : Reading.Keyed keyOf rs)
    (h : Completes syncStates { m with readings := rs } () m') : m'.Moored name base keyOf i ∧
      m'.berth name (keyOf i) i =
        Berth.fitted name base { m.berth name (keyOf i) i with reading := rs[i]? } := by
  have horderly : ({ m with readings := rs } : Monitor τ).Orderly
      (Store.Audience name base) keyOf := hm.toOrderly.congr rfl rfl
  have hsynced := synced_syncStates horderly.distinct h
  have horderly' := orderly_syncStates (Store.upheld_audience name base) horderly h
  have hberth := hm.berth_synced hsynced (fate_syncStates hinj horderly h)
  refine ⟨⟨horderly', hsynced.fitted, hsynced.readings ▸ hkeyed, ?_⟩, hberth⟩
  rw [hberth]
  exact Berth.known_fitted

/-- **Placing a snapshot** under the own key of an index. -/
theorem berth_place {s : BatteryState} {snapshot : Snapshot}
    (hm : m.Orderly (Store.Audience name base) keyOf) (hs : m.state? i = some s)
    (h : Completes (place i (.text (keyOf i)) snapshot) m () m') : m'.berth name (keyOf i) i =
      (m.berth name (keyOf i) i).placed name base (keyOf i) s snapshot := by
  obtain ⟨u, t, hmove, hrest⟩ := completes_bind.1 h
  obtain rfl : t = m := hmove.unique (completes_moveKey_of_not_moves (hm.not_moves i))
  rw [completes_modify_bind, completes_get_bind] at hrest
  simp only [show t.states.lookup i = some s from hs, state?, Store.publish_eq] at hrest
  have hkey : (setAt i (Value.text (keyOf i)) t.keys).lookup i = some (.text (keyOf i)) :=
    (lookup_setAt i i _ t.keys).trans (if_pos rfl)
  obtain ⟨b, v, honStore, hwritten⟩ := completes_bind.1 hrest
  obtain ⟨store, hpublish, rfl⟩ := completes_onStore.1 honStore
  unfold Berth.placed
  split at hpublish
  · rename_i hsame
    obtain ⟨rfl, rfl⟩ := completes_pure.1 hpublish
    obtain ⟨-, rfl⟩ := completes_pure.1 hwritten
    rw [if_pos hsame]
    simp only [berth, state?, hkey, show t.states.lookup i = some s from hs]
  · rename_i hsame
    obtain ⟨u', store', hset, hdone⟩ := completes_bind.1 hpublish
    obtain ⟨rfl, rfl⟩ := completes_pure.1 hdone
    obtain rfl := completes_modify.1 hwritten
    have hstate : (setAt i { s with lastPublished := some snapshot } t.states).lookup i =
        some { s with lastPublished := some snapshot } :=
      (lookup_setAt i i _ t.states).trans (if_pos rfl)
    have hglance := Store.glance_setValue_eq hm.distinct hm.audience hset
    rw [if_neg hsame]
    simp only [berth, state?, hkey, hstate, hglance]
    rfl

theorem Aside.berth {A : Store → Prop} (h : Aside A name keyOf i m m')
    (hstate : m'.state? i = m.state? i) :
    m'.berth name (keyOf i) i = m.berth name (keyOf i) i := by
  simp only [Monitor.berth, h.readings, h.key, hstate]
  exact congrArg _ h.glance

/-! ### Runs -/

section Runs

variable [Scheduler τ] {snapshots : List Snapshot}

/-- **A run** does to an index what its own reading asks for under the conditions. -/
theorem Moored.runBuilding (hinj : Function.Injective keyOf) (hm : m.Moored name base keyOf i)
    (h : Completes runBuilding m snapshots m') : m'.Moored name base keyOf i ∧
      m'.berth name (keyOf i) i =
        (m.berth name (keyOf i) i).ran name base (keyOf i) m.watch.conditions m.watch.now := by
  have hA := Store.upheld_audience name base
  suffices hberth : m'.Orderly (Store.Audience name base) keyOf ∧ m'.berth name (keyOf i) i =
      (m.berth name (keyOf i) i).ran name base (keyOf i) m.watch.conditions m.watch.now by
    refine ⟨⟨hberth.1, fitted_runBuilding hm.fitted hm.distinct h, ?_, ?_⟩, hberth.2⟩
    · rw [(passed_runBuilding hm.distinct h).1]
      exact hm.keyed
    · rw [hberth.2]
      exact hm.known.ran _ _ _
  by_cases hi : i < m.readings.length
  · have hr := List.getElem?_eq_getElem hi
    obtain ⟨snapshot, u, t, -, hserved⟩ := served_runBuilding hm.distinct hr h
    obtain ⟨s, minutes, latched, hs, hminutes, hreport, hs'⟩ := hserved.report
    obtain ⟨hu, hafter⟩ := aside_served name hA hinj hm.toOrderly hm.keyed hr hserved
    have hplace := hserved.place
    rw [hm.keyed i _ hr] at hplace
    obtain ⟨hm', hstate⟩ := hafter (orderly_place hA hplace hu.orderly).1
    refine ⟨hm'.orderly, (hm'.berth hstate).trans ((berth_place hu.orderly hs' hplace).trans ?_)⟩
    have hglance : u.store.glance name (keyOf i) = m.store.glance name (keyOf i) := hu.glance
    simp only [berth, Berth.ran, Berth.placed, hu.readings, hr, hs, hminutes, hreport, hu.key,
      hglance]
  -- beyond the end of the list there is no reading, and nothing is done
  · have hbeyond := Nat.le_of_not_lt hi
    obtain ⟨hm', hstate⟩ :=
      aside_runBuilding name hA hinj hm.toOrderly hm.keyed hbeyond h
    refine ⟨hm'.orderly, (hm'.berth hstate).trans ?_⟩
    simp only [berth, Berth.ran, List.getElem?_eq_none hbeyond]

end Runs

end

/-! ### Two runs side by side -/

/-- **Two monitors are the same for an index**: it has the same to itself in both, and their watches
have seen the same face of the primary battery. -/
structure Abreast (name : String) (base : List Subscriber) (keyOf keyOf' : Nat → Text) (i : Nat)
    (m n : Monitor Bench) : Prop where
  left : m.Moored name base keyOf i
  right : n.Moored name base keyOf' i
  berth : n.berth name (keyOf' i) i = m.berth name (keyOf i) i
  watch : m.watch.Kin n.watch
  empty : n.readings = [] ↔ m.readings = []

/-- Two lists have the same reading at an index, or none, and their first batteries have the same
face, or there is none. -/
structure Matched (i : Nat) (rs rs' : List Reading) : Prop where
  face : rs'.head?.map Reading.face = rs.head?.map Reading.face
  same : rs'[i]? = rs[i]?

theorem Matched.empty {i : Nat} {rs rs' : List Reading} (h : Matched i rs rs') :
    rs' = [] ↔ rs = [] := by
  have hface := h.face
  cases rs <;> cases rs' <;> simp_all

/-- The first list is one, or it is as if there were none. -/
theorem found_cases (found : Option (List Reading)) :
    (found.getD [] = [] ∧ (Request.prime found).observe = (pure none : M Bench _)) ∨
      ∃ r rs, found = some (r :: rs) := by
  rcases found with _ | ⟨_ | ⟨r, rs⟩⟩
  · exact .inl ⟨rfl, rfl⟩
  · exact .inl ⟨rfl, rfl⟩
  · exact .inr ⟨r, rs, rfl⟩

/-- **Two events are the same but for what their lists say of other batteries.** -/
inductive BenchEvent.Twin (i : Nat) : BenchEvent → BenchEvent → Prop
  | same {e : BenchEvent} (quiet : e.brought = none) : Twin i e e
  | prime {found found' : Option (List Reading)}
    (matched : Matched i (found.getD []) (found'.getD [])) :
    Twin i (.request (.prime found)) (.request (.prime found'))
  | changed {rs rs' : List Reading} (matched : Matched i rs rs') :
    Twin i (.request (.batteriesChanged rs)) (.request (.batteriesChanged rs'))

section TwoRuns

variable {m m' n n' : Monitor Bench} {name : String} {base : List Subscriber}
  {keyOf keyOf' : Nat → Text} {i : Nat}  {o o' : Option (List Snapshot)}

theorem Abreast.onWatch {α : Type} {act act' : Watch.M Bench α} {a a' : α}
    (h : Abreast name base keyOf keyOf' i m n) (hact : Coupled Watch.Kin act act')
    (hm : Completes (onWatch act) m a m') (hn : Completes (onWatch act') n a' n') :
    Abreast name base keyOf keyOf' i m' n' := by
  obtain ⟨w, hw, rfl⟩ := completes_onWatch.1 hm
  obtain ⟨w', hw', rfl⟩ := completes_onWatch.1 hn
  obtain ⟨w'', hw'', hkin⟩ := hact.completes h.watch hw
  obtain rfl := hw'.unique hw''
  exact ⟨h.left.withWatch w, h.right.withWatch w', h.berth, hkin, h.empty⟩

theorem Abreast.withTimers (h : Abreast name base keyOf keyOf' i m n) (timers : Bench) :
    Abreast name base keyOf keyOf' i { m with watch := { m.watch with timers } }
      { n with watch := { n.watch with timers } } := by
  refine ⟨h.left.withWatch _, h.right.withWatch _, h.berth, ⟨?_, h.watch.face⟩, h.empty⟩
  rw [h.watch.eq]

theorem Abreast.withAgenda (h : Abreast name base keyOf keyOf' i m n) (agenda : Agenda) :
    Abreast name base keyOf keyOf' i (m.withAgenda agenda) (n.withAgenda agenda) := by
  have htimers : n.watch.timers = m.watch.timers := by rw [h.watch.eq]
  have heq : n.withAgenda agenda =
      { n with watch := { n.watch with timers := { m.watch.timers with agenda } } } := by
    rw [← htimers]
    rfl
  rw [heq]
  exact h.withTimers { m.watch.timers with agenda }

variable (hinj : Function.Injective keyOf) (hinj' : Function.Injective keyOf')
  (hkey : keyOf' i = keyOf i)

include hinj hinj' hkey

theorem Abreast.runBuilding {snapshots snapshots' : List Snapshot}
    (h : Abreast name base keyOf keyOf' i m n) (hm : Completes runBuilding m snapshots m')
    (hn : Completes runBuilding n snapshots' n') : Abreast name base keyOf keyOf' i m' n' := by
  obtain ⟨hleft, hberth⟩ := h.left.runBuilding hinj hm
  obtain ⟨hright, hberth'⟩ := h.right.runBuilding hinj' hn
  have hconditions : n.watch.conditions = m.watch.conditions := by rw [h.watch.eq]
  have hnow : n.watch.now = m.watch.now := by rw [h.watch.eq]; rfl
  refine ⟨hleft, hright, ?_, ?_, ?_⟩
  · rw [hberth', hberth, h.berth, hconditions, hnow, hkey]
  · rw [watch_runBuilding h.left.distinct hm, watch_runBuilding h.right.distinct hn]
    exact h.watch
  · rw [(passed_runBuilding h.left.distinct hm).1, (passed_runBuilding h.right.distinct hn).1]
    exact h.empty

theorem Abreast.refreshBuilding (h : Abreast name base keyOf keyOf' i m n)
    (hm : Completes refreshBuilding m o m') (hn : Completes refreshBuilding n o' n') :
    Abreast name base keyOf keyOf' i m' n' := by
  rcases completes_refreshBuilding.1 hm with ⟨hempty, -, rfl⟩ | ⟨hnonempty, snapshots, -, hm⟩
  · rcases completes_refreshBuilding.1 hn with ⟨-, -, rfl⟩ | ⟨hnonempty, -⟩
    · exact h
    · exact absurd (h.empty.2 hempty) hnonempty
  · rcases completes_refreshBuilding.1 hn with ⟨hempty, -⟩ | ⟨-, snapshots', -, hn⟩
    · exact absurd (h.empty.1 hempty) hnonempty
    · exact h.runBuilding hinj hinj' hkey hm hn

/-- **New lists** keep two monitors the same for an index, if they are the same for it. -/
theorem Abreast.changeBuilding {rs rs' : List Reading} (h : Abreast name base keyOf keyOf' i m n)
    (hmatched : Matched i rs rs') (hkeyed : Reading.Keyed keyOf rs)
    (hkeyed' : Reading.Keyed keyOf' rs') (hm : Completes (changeBuilding rs) m o m')
    (hn : Completes (changeBuilding rs') n o' n') : Abreast name base keyOf keyOf' i m' n' := by
  obtain ⟨t, watch, hsync, hsaw, hm⟩ := completes_changeBuilding.1 hm
  obtain ⟨t', watch', hsync', hsaw', hn⟩ := completes_changeBuilding.1 hn
  obtain ⟨hleft, hberth⟩ := h.left.synced hinj hkeyed hsync
  obtain ⟨hright, hberth'⟩ := h.right.synced hinj' hkeyed' hsync'
  have hwatch : t.watch = m.watch :=
    watch_completes (m := { m with readings := rs }) leavesWatch_syncStates hsync
  have hwatch' : t'.watch = n.watch :=
    watch_completes (m := { n with readings := rs' }) leavesWatch_syncStates hsync'
  have hreadings : t.readings = rs :=
    (synced_syncStates (m := { m with readings := rs }) h.left.distinct hsync).readings
  have hreadings' : t'.readings = rs' :=
    (synced_syncStates (m := { n with readings := rs' }) h.right.distinct hsync').readings
  have hsynced : Abreast name base keyOf keyOf' i t t' := by
    refine ⟨hleft, hright, ?_, ?_, ?_⟩
    · rw [hberth', hberth, h.berth, hmatched.same]
    · rw [hwatch, hwatch']
      exact h.watch
    · rw [hreadings, hreadings']
      exact hmatched.empty
  have hseen : Abreast name base keyOf keyOf' i { t with watch } { t' with watch := watch' } :=
    hsynced.onWatch (Watch.coupled_batteriesChanged hmatched.face)
      (completes_onWatch.2 ⟨watch, hsaw, rfl⟩) (completes_onWatch.2 ⟨watch', hsaw', rfl⟩)
  exact hseen.refreshBuilding hinj hinj' hkey hm hn

theorem Abreast.request {r : Request} (h : Abreast name base keyOf keyOf' i m n)
    (hquiet : (Event.request r : Event Bench).brought = none) (hm : Completes r.observe m o m')
    (hn : Completes r.observe n o' n') : Abreast name base keyOf keyOf' i m' n' := by
  cases r with
  | prime found =>
    rcases found with _ | ⟨_ | ⟨r, rs⟩⟩
    · obtain ⟨-, rfl⟩ := completes_pure.1 hm
      obtain ⟨-, rfl⟩ := completes_pure.1 hn
      exact h
    · obtain ⟨-, rfl⟩ := completes_pure.1 hm
      obtain ⟨-, rfl⟩ := completes_pure.1 hn
      exact h
    · cases hquiet
  | batteriesChanged rs => cases hquiet
  | wake =>
    simp only [Request.observe, completes_get_bind, List.isEmpty_iff, h.empty] at hm hn
    split at hm
    · rename_i hempty
      rw [if_pos hempty] at hn
      obtain ⟨-, rfl⟩ := completes_pure.1 hm
      obtain ⟨-, rfl⟩ := completes_pure.1 hn
      exact h
    · rename_i hnonempty
      rw [if_neg hnonempty] at hn
      obtain ⟨_, t, hsuppress, hm⟩ := completes_bind.1 hm
      obtain ⟨_, t', hsuppress', hn⟩ := completes_bind.1 hn
      obtain ⟨snapshots, u, hrun, hm⟩ := completes_bind.1 hm
      obtain ⟨snapshots', u', hrun', hn⟩ := completes_bind.1 hn
      obtain ⟨-, rfl⟩ := completes_pure.1 hm
      obtain ⟨-, rfl⟩ := completes_pure.1 hn
      exact (h.onWatch Watch.coupled_suppress hsuppress hsuppress').runBuilding hinj hinj' hkey
        hrun hrun'
  | refresh => exact h.refreshBuilding hinj hinj' hkey hm hn

theorem Abreast.same {e : Event Bench} (h : Abreast name base keyOf keyOf' i m n)
    (hquiet : e.brought = none) (hm : Completes e.observe m o m')
    (hn : Completes e.observe n o' n') : Abreast name base keyOf keyOf' i m' n' := by
  cases e with
  | request r => exact h.request hinj hinj' hkey hquiet hm hn
  | windowOver =>
    obtain ⟨_, t, hover, hm⟩ := completes_bind.1 hm
    obtain ⟨_, t', hover', hn⟩ := completes_bind.1 hn
    exact (h.onWatch Watch.coupled_windowOver hover hover').refreshBuilding hinj hinj' hkey hm hn
  | elapse timers =>
    simp only [Event.observe, completes_modify_bind] at hm hn
    obtain ⟨-, rfl⟩ := completes_pure.1 hm
    obtain ⟨-, rfl⟩ := completes_pure.1 hn
    exact h.withTimers timers
  | support supported =>
    obtain ⟨_, t, hadjust, hm⟩ := completes_bind.1 hm
    obtain ⟨_, t', hadjust', hn⟩ := completes_bind.1 hn
    obtain ⟨-, rfl⟩ := completes_pure.1 hm
    obtain ⟨-, rfl⟩ := completes_pure.1 hn
    exact h.onWatch (Watch.coupled_adjust _) hadjust hadjust'

/-- **Twin events keep two monitors the same for an index.** -/
theorem Abreast.observe {e e' : BenchEvent} (h : Abreast name base keyOf keyOf' i m n)
    (htwin : e.Twin i e') (hkeyed : ∀ rs ∈ e.brought, Reading.Keyed keyOf rs)
    (hkeyed' : ∀ rs ∈ e'.brought, Reading.Keyed keyOf' rs) (hm : Completes e.observe m o m')
    (hn : Completes e'.observe n o' n') : Abreast name base keyOf keyOf' i m' n' := by
  cases htwin with
  | same hquiet =>
    have htimers : n.watch.timers = m.watch.timers := by rw [h.watch.eq]
    rw [BenchEvent.completes_observe] at hm hn
    rw [htimers] at hn
    exact (h.withAgenda _).same hinj hinj' hkey ((e.brought_plain _).trans hquiet) hm hn
  | @prime found found' hmatched =>
    -- a list that is not there is empty, and does nothing in either run
    rcases found_cases found with ⟨hfound, hact⟩ | ⟨r, rs, rfl⟩
    · rcases found_cases found' with ⟨-, hact'⟩ | ⟨r', rs', rfl⟩
      · rw [show (BenchEvent.request (.prime found)).observe = pure none from hact] at hm
        rw [show (BenchEvent.request (.prime found')).observe = pure none from hact'] at hn
        obtain ⟨-, rfl⟩ := completes_pure.1 hm
        obtain ⟨-, rfl⟩ := completes_pure.1 hn
        exact h
      · cases hmatched.empty.2 hfound
    · rcases found_cases found' with ⟨hfound', -⟩ | ⟨r', rs', rfl⟩
      · cases hmatched.empty.1 hfound'
      · exact h.changeBuilding hinj hinj' hkey hmatched (hkeyed _ rfl) (hkeyed' _ rfl) hm hn
  | changed hmatched =>
    exact h.changeBuilding hinj hinj' hkey hmatched (hkeyed _ rfl) (hkeyed' _ rfl) hm hn

end TwoRuns

/-! ### Histories -/

section Histories

variable {start : Monitor Bench} {past past' : List BenchEvent} {name : String}
  {base : List Subscriber} {keyOf keyOf' : Nat → Text} {i : Nat}

theorem abreast_afterAll (hfresh : start.Fresh) (haudience : start.store.Audience name base)
    (hinj : Function.Injective keyOf) (hinj' : Function.Injective keyOf')
    (hkey : keyOf' i = keyOf i) (htwins : List.Forall₂ (BenchEvent.Twin i) past past') :
    faultless BenchEvent.act start past → faultless BenchEvent.act start past' →
    (∀ e ∈ past, ∀ rs ∈ e.brought, Reading.Keyed keyOf rs) →
    (∀ e ∈ past', ∀ rs ∈ e.brought, Reading.Keyed keyOf' rs) →
      Abreast name base keyOf keyOf' i (afterAll BenchEvent.act start past)
        (afterAll BenchEvent.act start past') := by
  induction htwins with
  | nil =>
    intro _ _ _ _
    refine ⟨hfresh.moored haudience, hfresh.moored haudience, ?_, .refl _, .rfl⟩
    rw [hkey]
  | cons htwin _ ih =>
    intro hfaultless hfaultless' hkeyed hkeyed'
    obtain ⟨hpast, u, hlast⟩ := faultless_cons.1 hfaultless
    obtain ⟨hpast', u', hlast'⟩ := faultless_cons.1 hfaultless'
    rw [BenchEvent.act_eq, completes_discard] at hlast hlast'
    obtain ⟨o, hlast⟩ := hlast
    obtain ⟨o', hlast'⟩ := hlast'
    have habreast := ih hpast hpast' (fun e he => hkeyed e (List.mem_cons_of_mem _ he))
      fun e he => hkeyed' e (List.mem_cons_of_mem _ he)
    exact habreast.observe hinj hinj' hkey htwin (hkeyed _ List.mem_cons_self)
      (hkeyed' _ List.mem_cons_self) hlast hlast'

/-- **Batteries do not interfere except through the primary.**  Two histories start from the same
monitor and have the same events, without any fault, and each index has a key of its own.  Where
they bring lists, both are empty or both are not, and then the first batteries have the same face;
an index has the same reading in both, or none.  Then after each event the time remaining of the
index is the same for both, and so are the latch that is kept for it and what any subscriber heard
of its key, if no recruit goes by the name of this subscriber. -/
theorem separated (hfresh : start.Fresh) (hinj : Function.Injective keyOf)
    (hinj' : Function.Injective keyOf') (hkey : keyOf' i = keyOf i)
    (htwins : List.Forall₂ (BenchEvent.Twin i) past past')
    (hfaultless : faultless BenchEvent.act start past)
    (hfaultless' : faultless BenchEvent.act start past')
    (hkeyed : ∀ e ∈ past, ∀ rs ∈ e.brought, Reading.Keyed keyOf rs)
    (hkeyed' : ∀ e ∈ past', ∀ rs ∈ e.brought, Reading.Keyed keyOf' rs) (k : Nat) :
    let m := afterAll BenchEvent.act start (past.drop k)
    let n := afterAll BenchEvent.act start (past'.drop k)
    n.timeRemaining (.int i) = m.timeRemaining (.int i) ∧
    (n.state? i).map (·.latched) = (m.state? i).map (·.latched) ∧
    ∀ name, (∀ subscriber ∈ start.store.subscribers, subscriber.reaction = .recruit →
        subscriber.name ++ "+" ≠ name) →
      n.store.heardOf name (.text (keyOf i)) = m.store.heardOf name (.text (keyOf i)) := by
  intro m n
  rw [← List.take_append_drop k past] at hfaultless
  rw [← List.take_append_drop k past'] at hfaultless'
  have hpast := faultless_of_append hfaultless
  have hpast' := faultless_of_append hfaultless'
  have habreast (name : String) (halone : ∀ subscriber ∈ start.store.subscribers,
      subscriber.reaction = .recruit → subscriber.name ++ "+" ≠ name) :
      n.berth name (keyOf' i) i = m.berth name (keyOf i) i :=
    (abreast_afterAll hfresh ⟨halone, [], (List.append_nil _).symm, nofun⟩ hinj hinj' hkey
      (List.forall₂_drop k htwins) hpast hpast' (fun e he => hkeyed e (List.mem_of_mem_drop he))
      fun e he => hkeyed' e (List.mem_of_mem_drop he)).berth
  -- no recruit is without a name
  have hnameless : ∀ subscriber ∈ start.store.subscribers, subscriber.reaction = .recruit →
      subscriber.name ++ "+" ≠ "" := by
    intro subscriber _ _ hname
    have hlength := congrArg String.length hname
    rw [String.length_append] at hlength
    cases hlength
  have hstate : n.state? i = m.state? i := congrArg Berth.state (habreast "" hnameless)
  refine ⟨?_, congrArg _ hstate, fun name halone => ?_⟩
  · rw [timeRemaining_int, timeRemaining_int, Int.toNat_natCast, hstate]
  · have hheard := congrArg (fun b => b.glance.1) (habreast name halone)
    rw [hkey] at hheard
    exact hheard

/-- A monitor on a bench, whose store is heard by a listener, by one who recruits and by one who
removes records. -/
def amongOthers : Monitor Bench :=
  { onBench with store := { subscribers :=
      [{ name := "recruiter", reaction := .recruit }, { name := "thief", reaction := .remove },
        { name := "listener" }] } }

/-- The power source is plugged in, the system wakes, the window passes, and only two batteries are
left; `charge` is that of the first one, and `others` are those that go. -/
def secondAmong (charge : Int) (others : List Reading) : List BenchEvent :=
  let first : Reading :=
    { externalConnected := .bool true, currentCapacity := .int charge, maxCapacity := .int 100 }
  let second (charge : Int) : Reading :=
    { currentCapacity := .int charge, maxCapacity := .int 50, avgAmperage := .int (-10) }
  [.request (.batteriesChanged [first, second 20]), .fire 1, .tick 60, .request .wake,
    .request (.batteriesChanged (first :: second 30 :: others))]

/-- The second of three batteries and the second of two: there come to be different numbers of
recruits, and the thief takes all records away, but of the second battery the listener hears the
same. -/
theorem separated_secondAmong :
    let m := afterAll BenchEvent.act amongOthers (secondAmong 40 [])
    let n := afterAll BenchEvent.act amongOthers (secondAmong 90 [{}])
    n.timeRemaining (.int 1) = m.timeRemaining (.int 1) ∧
    (n.state? 1).map (·.latched) = (m.state? 1).map (·.latched) ∧
    n.store.heardOf "listener" (.text (Reading.defaultName 1)) =
      m.store.heardOf "listener" (.text (Reading.defaultName 1)) ∧
    (m.store.heardOf "listener" (.text (Reading.defaultName 1))).map (·.isSome) =
      [true, false, true, false] := by
  have hfresh : amongOthers.Fresh := ⟨rfl, rfl, rfl, .nil⟩
  have htwins : List.Forall₂ (BenchEvent.Twin 1) (secondAmong 40 []) (secondAmong 90 [{}]) :=
    .cons (.changed ⟨rfl, rfl⟩) (.cons (.same rfl) (.cons (.same rfl) (.cons (.same rfl)
      (.cons (.changed ⟨rfl, rfl⟩) .nil))))
  have hkeyless : ∀ e ∈ secondAmong 40 [] ++ secondAmong 90 [{}], ∀ rs ∈ e.brought, ∀ r ∈ rs,
      r.storeKey.truth = false := by decide +kernel
  have hkeyed : ∀ e ∈ secondAmong 40 [] ++ secondAmong 90 [{}], ∀ rs ∈ e.brought,
      Reading.Keyed Reading.defaultName rs :=
    fun e he rs hrs => Reading.keyed_defaultName (hkeyless e he rs hrs)
  obtain ⟨htime, hlatched, hheard⟩ := separated (i := 1) hfresh Reading.defaultName_injective
    Reading.defaultName_injective rfl htwins (by decide +kernel) (by decide +kernel)
    (fun e he => hkeyed e (List.mem_append_left _ he))
    (fun e he => hkeyed e (List.mem_append_right _ he)) 0
  exact ⟨htime, hlatched, hheard "listener" (by decide +kernel), by decide +kernel⟩

end Histories

end Monitor

end BatteryMonitor
