import BatteryMonitor.Proofs.Monitor.Pass
import BatteryMonitor.Timers.Agenda

/-!
# Events of a monitor

A monitor is driven by events (`Monitor.Event`): what is asked of it, its window timer, and what
happens around it, that is time and timers, which go on in any way at all, and the hardware
support.  A history is a list of events, the last one first.

An event that runs the pipeline builds a snapshot for every battery, and `Monitor.Event.observe`
gives these snapshots (`Monitor.Event.act_eq`).  Whatever it is, an event is one turn
(`Monitor.Swept`): the states are fitted to the list, and the pipeline runs unless there is nothing
to run it on or nothing to run it for.  `Monitor.Turned` is what a turn does to the states, the
keys and the records.
-/

namespace BatteryMonitor

namespace Monitor

open Effect

variable {τ : Type} {m m' : Monitor τ}

/-! ### Requests and events -/

/-- What is asked of a monitor. -/
inductive Request where
  /-- take the first list, if telemetry found one -/
  | prime (found : Option (List Reading))
  /-- take a new list -/
  | batteriesChanged (readings : List Reading)
  /-- the system woke from sleep -/
  | wake
  /-- run the pipeline again -/
  | refresh

/-- The list that a request brings. -/
def Request.brought : Request → Option (List Reading)
  | .prime (some (r :: rs)) => some (r :: rs)
  | .batteriesChanged readings => some readings
  | .prime _ | .wake | .refresh => none

/-- What happens to a monitor. -/
inductive Event (τ : Type) where
  | request (r : Request)
  /-- the timer of the window runs -/
  | windowOver
  /-- time passes, and timers come and go -/
  | elapse (timers : τ)
  /-- the hardware turns out to support the estimates of the batteries, or not -/
  | support (supported : Value)

/-- The list that an event brings. -/
def Event.brought : Event τ → Option (List Reading)
  | .request r => r.brought
  | .windowOver | .elapse _ | .support _ => none

/-- Runs the pipeline again, if there are batteries, and gives the snapshots that it built. -/
def refreshBuilding [Scheduler τ] : M τ (Option (List Snapshot)) := do
  if (← get).readings.isEmpty then return none
  return some (← runBuilding)

/-- Takes a new list and gives the snapshots that were built for it. -/
def changeBuilding [Scheduler τ] (readings : List Reading) : M τ (Option (List Snapshot)) := do
  modify fun m => { m with readings }
  syncStates
  onWatch (Watch.batteriesChanged readings)
  refreshBuilding

namespace Request

variable [Scheduler τ]

/-- What a monitor does with a request. -/
def act : Request → M τ Unit
  | prime found => Monitor.prime found
  | batteriesChanged readings => Monitor.batteriesChanged readings
  | wake => systemDidWake
  | refresh => Monitor.refresh

/-- The same, with the snapshots that were built. -/
def observe : Request → M τ (Option (List Snapshot))
  | prime (some (r :: rs)) => changeBuilding (r :: rs)
  | prime _ => return none
  | batteriesChanged readings => changeBuilding readings
  | wake => do
    if (← get).readings.isEmpty then return none
    onWatch Watch.suppress
    return some (← runBuilding)
  | refresh => refreshBuilding

end Request

namespace Event

variable [Scheduler τ]

/-- What happens to a monitor in an event. -/
def act : Event τ → M τ Unit
  | request r => r.act
  | windowOver => Monitor.windowOver
  | elapse timers => modify fun m => { m with watch := { m.watch with timers } }
  | support supported => onWatch (Watch.adjust fun c => { c with supported })

/-- The same, with the snapshots that were built. -/
def observe : Event τ → M τ (Option (List Snapshot))
  | request r => r.observe
  | windowOver => do
    onWatch Watch.windowOver
    refreshBuilding
  | elapse timers => do
    modify fun m => { m with watch := { m.watch with timers } }
    return none
  | support supported => do
    onWatch (Watch.adjust fun c => { c with supported })
    return none

end Event

section Observing

variable [Scheduler τ]

theorem refresh_eq : (refresh : M τ Unit) = discard refreshBuilding := by
  unfold refresh refreshBuilding
  rw [discard_eq, bind_assoc]
  congr 1
  funext m
  split
  · rfl
  · rw [run_eq, discard_eq, bind_assoc]
    rfl

theorem batteriesChanged_eq (readings : List Reading) :
    (batteriesChanged readings : M τ Unit) = discard (changeBuilding readings) := by
  unfold batteriesChanged changeBuilding
  rw [refresh_eq]
  simp only [discard_eq, bind_assoc]

theorem Request.act_eq (r : Request) : (r.act : M τ Unit) = discard r.observe := by
  cases r with
  | prime found =>
    rcases found with _ | ⟨_ | ⟨r, rs⟩⟩
    · rfl
    · rfl
    · exact batteriesChanged_eq (r :: rs)
  | batteriesChanged readings => exact batteriesChanged_eq readings
  | wake =>
    change systemDidWake = discard _
    unfold systemDidWake observe
    rw [discard_eq, bind_assoc]
    congr 1
    funext m
    split
    · rfl
    · rw [run_eq, discard_eq]
      simp only [bind_assoc, pure_bind]
  | refresh => exact refresh_eq

/-- **An event builds snapshots and forgets them.** -/
theorem Event.act_eq (e : Event τ) : e.act = discard e.observe := by
  cases e with
  | request r => exact Request.act_eq r
  | windowOver =>
    unfold act observe Monitor.windowOver
    rw [refresh_eq]
    simp only [discard_eq, bind_assoc]
  | elapse timers =>
    unfold act observe
    simp only [discard_eq, bind_assoc, pure_bind, bind_pure_unit]
  | support supported =>
    unfold act observe
    simp only [discard_eq, bind_assoc, pure_bind, bind_pure_unit]

section

variable {m m' : Monitor τ} {rs : List Reading} {o : Option (List Snapshot)}

theorem Event.completes_act {e : Event τ} :
    Completes e.act m () m' ↔ ∃ o, Completes e.observe m o m' := by
  rw [act_eq, completes_discard]

theorem completes_refreshBuilding : Completes refreshBuilding m o m' ↔
    m.readings = [] ∧ o = none ∧ m' = m ∨
      m.readings ≠ [] ∧ ∃ snapshots, o = some snapshots ∧ Completes runBuilding m snapshots m' := by
  simp only [refreshBuilding, completes_get_bind, List.isEmpty_iff]
  split
  · rename_i hempty
    rw [completes_pure]
    simp [hempty]
  · rename_i hnonempty
    simp only [completes_bind, completes_pure, hnonempty, false_and, false_or]
    constructor
    · rintro ⟨snapshots, t, hrun, rfl, rfl⟩
      exact ⟨hnonempty, snapshots, rfl, hrun⟩
    · rintro ⟨-, snapshots, rfl, hrun⟩
      exact ⟨snapshots, m', hrun, rfl, rfl⟩

theorem completes_refresh : Completes refresh m () m' ↔
    m.readings = [] ∧ m' = m ∨
      m.readings ≠ [] ∧ ∃ snapshots, Completes runBuilding m snapshots m' := by
  rw [refresh_eq, completes_discard]
  simp only [completes_refreshBuilding]
  constructor
  · rintro ⟨o, ⟨hempty, -, rfl⟩ | ⟨hnonempty, snapshots, -, hrun⟩⟩
    · exact .inl ⟨hempty, rfl⟩
    · exact .inr ⟨hnonempty, snapshots, hrun⟩
  · rintro (⟨hempty, rfl⟩ | ⟨hnonempty, snapshots, hrun⟩)
    · exact ⟨none, .inl ⟨hempty, rfl, rfl⟩⟩
    · exact ⟨some snapshots, .inr ⟨hnonempty, snapshots, rfl, hrun⟩⟩

/-- **Taking a new list**: the states are fitted to it, the watch sees it, and the pipeline runs. -/
theorem completes_changeBuilding : Completes (changeBuilding rs) m o m' ↔
    ∃ t watch, Completes syncStates { m with readings := rs } () t ∧
      Completes (Watch.batteriesChanged rs) t.watch () watch ∧
      Completes refreshBuilding { t with watch } o m' := by
  simp only [changeBuilding, completes_modify_bind]
  constructor
  · intro h
    obtain ⟨u, t, hsync, h⟩ := completes_bind.1 h
    obtain ⟨u', t', hwatch, hrefresh⟩ := completes_bind.1 h
    obtain ⟨watch, hsaw, rfl⟩ := completes_onWatch.1 hwatch
    exact ⟨t, watch, hsync, hsaw, hrefresh⟩
  · rintro ⟨t, watch, hsync, hsaw, hrefresh⟩
    exact completes_bind.2 ⟨(), t, hsync, completes_bind.2 ⟨(), _,
      completes_onWatch.2 ⟨watch, hsaw, rfl⟩, hrefresh⟩⟩

theorem completes_batteriesChanged : Completes (batteriesChanged rs) m () m' ↔
    ∃ t watch, Completes syncStates { m with readings := rs } () t ∧
      Completes (Watch.batteriesChanged rs) t.watch () watch ∧
      Completes refresh { t with watch } () m' := by
  rw [batteriesChanged_eq, refresh_eq, completes_discard]
  simp only [completes_changeBuilding, completes_discard]
  constructor
  · rintro ⟨o, t, watch, hsync, hsaw, hrefresh⟩
    exact ⟨t, watch, hsync, hsaw, o, hrefresh⟩
  · rintro ⟨t, watch, hsync, hsaw, o, hrefresh⟩
    exact ⟨o, t, watch, hsync, hsaw, hrefresh⟩

end

end Observing

/-! ### Beginnings -/

/-- A monitor that has not seen a battery yet, with a store that may hold anything. -/
structure Fresh (m : Monitor τ) : Prop where
  readings : m.readings = []
  states : m.states = []
  keys : m.keys = []
  distinct : m.store.values.Distinct

/-- A monitor as it is made: besides, nothing is known of a primary battery and no window has been
opened.  The hardware support, the timers and the store may be anything. -/
structure Initial (m : Monitor τ) : Prop extends m.Fresh where
  primary : m.watch.primary = none
  conditions : m.watch.conditions = { supported := m.watch.conditions.supported }

/-- A monitor on a bench, with an empty store. -/
def onBench : Monitor Bench := { watch := { timers := {} }, store := {} }

theorem fresh_onBench : onBench.Fresh := ⟨rfl, rfl, rfl, .nil⟩

theorem initial_onBench : onBench.Initial := ⟨fresh_onBench, rfl, rfl⟩

/-! ### Turns -/

/-- There is a state for exactly the indices of the list. -/
def Fitted (m : Monitor τ) : Prop := ∀ i, (m.state? i).isSome ↔ i < m.readings.length

theorem Fresh.state? (h : m.Fresh) (i : Nat) : m.state? i = none := by
  rw [Monitor.state?, h.states]
  rfl

theorem Fresh.fitted (h : m.Fresh) : m.Fitted := by
  intro i
  simp [h.state? i, h.readings]

theorem completes_syncStates_self (h : m.Fitted) : Completes syncStates m () m := by
  simp only [syncStates, completes_get_bind]
  refine completes_bind.2 ⟨⟨⟩, m, completes_forIn_self fun entry hentry => ?_,
    completes_bind.2 ⟨⟨⟩, m, completes_forIn_self fun index hindex => ?_,
      completes_pure.2 ⟨rfl, rfl⟩⟩⟩
  -- no state lies beyond the end of the list, and none is missing
  · have hsome : (m.state? entry.1).isSome :=
      List.lookup_isSome_iff.2 ⟨entry, hentry, beq_self_eq_true _⟩
    have hlt := (h entry.1).1 hsome
    rw [if_neg (by omega)]
    exact completes_pure.2 ⟨rfl, rfl⟩
  · have hsome := (h index).2 (List.mem_range.1 hindex)
    rw [completes_get_bind, if_neg (by simpa [Option.isSome_iff_ne_none] using hsome)]
    exact completes_pure.2 ⟨rfl, rfl⟩

/-- **One turn of a monitor**: the states are fitted to the list, and then the pipeline runs or
does not. -/
inductive Turned [Scheduler τ] (m : Monitor τ) : Option (List Snapshot) → Monitor τ → Prop
  /-- there are no batteries, or nothing is run for an event of this kind -/
  | rested {m' : Monitor τ} (synced : Synced { m with readings := m'.readings } m')
      (why : m'.readings = [] ∨ m'.readings = m.readings) : Turned m none m'
  | ran {t m' : Monitor τ} {snapshots : List Snapshot}
      (synced : Synced { m with readings := t.readings } t)
      (run : Completes runBuilding t snapshots m') : Turned m (some snapshots) m'

/-- The same turn with the operations that it is made of. -/
inductive Swept [Scheduler τ] (m : Monitor τ) : Option (List Snapshot) → Monitor τ → Prop
  | rested {t : Monitor τ} (sweep : Completes syncStates { m with readings := t.readings } () t)
      (watch : Watch τ) (why : t.readings = [] ∨ t.readings = m.readings) :
      Swept m none { t with watch }
  | ran {t m' : Monitor τ} {snapshots : List Snapshot}
      (sweep : Completes syncStates { m with readings := t.readings } () t) (watch : Watch τ)
      (run : Completes runBuilding { t with watch } snapshots m') : Swept m (some snapshots) m'

theorem Synced.withWatch (h : Synced m m') (watch : Watch τ) : Synced m { m' with watch } :=
  ⟨h.readings, h.state?, h.keys, h.store⟩

theorem synced_self (hfitted : m.Fitted) (hd : m.store.values.Distinct) (watch : Watch τ) :
    Synced m { m with watch } :=
  (synced_syncStates hd (completes_syncStates_self hfitted)).withWatch watch

theorem Synced.fitted (h : Synced m m') : m'.Fitted := by
  intro i
  rw [h.state?, h.readings]
  split <;> simp_all

theorem fitted_runBuilding [Scheduler τ] {snapshots : List Snapshot} (hfitted : m.Fitted)
    (hd : m.store.values.Distinct) (h : Completes runBuilding m snapshots m') : m'.Fitted := by
  obtain ⟨hreadings, -, -, houtside⟩ := passed_runBuilding hd h
  intro i
  rw [hreadings]
  by_cases hi : i < m.readings.length
  · obtain ⟨snapshot, u, t, -, hhandled⟩ :=
      handled_runBuilding hd (List.getElem?_eq_getElem hi) h
    obtain ⟨s, last, -, hs⟩ := hhandled.placed.exists_lastPublished
    rw [hhandled.state?, hs]
    exact iff_of_true rfl hi
  · rw [(houtside i (by omega)).2]
    exact hfitted i

theorem Placed.fitted {i : Nat} {key : Value} {snapshot : Snapshot}
    (h : Placed m i key snapshot m') (hfitted : m.Fitted) : m'.Fitted := by
  intro j
  rw [h.readings]
  by_cases hji : j = i
  · obtain ⟨s, last, hs, hs'⟩ := h.exists_lastPublished
    rw [hji, hs', ← hfitted i, hs]
    exact iff_of_true rfl rfl
  · rw [h.state?_of_ne hji]
    exact hfitted j

theorem Revised.fitted (h : Revised m m') (hfitted : m.Fitted) : m'.Fitted := by
  intro j
  rw [← Option.isSome_map, h.lastPublished, Option.isSome_map, h.eq]
  exact hfitted j

/-- What holds of the list and of the one that an event brings holds of the list after it. -/
theorem holds_getD {P : List Reading → Prop} {rs : List Reading} {brought : Option (List Reading)}
    (h : P rs) (hbrought : ∀ rs ∈ brought, P rs) : P (brought.getD rs) := by
  cases brought with
  | none => exact h
  | some rs' => exact hbrought rs' rfl

section Turning

variable [Scheduler τ] {t : Monitor τ} {o : Option (List Snapshot)}

theorem Swept.turned (h : Swept m o m') (hd : m.store.values.Distinct) : Turned m o m' := by
  cases h with
  | @rested t sweep watch why =>
    have hsynced := synced_syncStates (m := { m with readings := t.readings }) hd sweep
    exact .rested (hsynced.withWatch watch) why
  | @ran t _ snapshots sweep watch run =>
    have hsynced := synced_syncStates (m := { m with readings := t.readings }) hd sweep
    exact .ran (t := { t with watch }) (hsynced.withWatch watch) run

theorem swept_run {snapshots : List Snapshot} {watch : Watch τ}
    (hd : m.store.values.Distinct)
    (sweep : Completes syncStates { m with readings := t.readings } () t)
    (h : Completes runBuilding { t with watch } snapshots m') :
    Swept m (some snapshots) m' ∧ m'.readings = t.readings := by
  have hsynced := synced_syncStates (m := { m with readings := t.readings }) hd sweep
  have hd' : ({ t with watch } : Monitor τ).store.values.Distinct := hsynced.store.distinct
  exact ⟨.ran sweep watch h, (passed_runBuilding hd' h).1⟩

theorem swept_refreshBuilding {watch : Watch τ} (hd : m.store.values.Distinct)
    (sweep : Completes syncStates { m with readings := t.readings } () t)
    (h : Completes refreshBuilding { t with watch } o m') :
    Swept m o m' ∧ m'.readings = t.readings := by
  rcases completes_refreshBuilding.1 h with ⟨hempty, rfl, rfl⟩ | ⟨-, snapshots, rfl, hrun⟩
  · exact ⟨.rested sweep watch (.inl hempty), rfl⟩
  · exact swept_run hd sweep hrun

theorem swept_changeBuilding {readings : List Reading} (hd : m.store.values.Distinct)
    (h : Completes (changeBuilding readings) m o m') :
    Swept m o m' ∧ m'.readings = readings := by
  -- whatever becomes of the watch, it has no part in the turn
  obtain ⟨t, watch, hsync, -, hrefresh⟩ := completes_changeBuilding.1 h
  obtain rfl : t.readings = readings :=
    (synced_syncStates (m := { m with readings }) hd hsync).readings
  exact swept_refreshBuilding hd hsync hrefresh

theorem swept_request {r : Request} (hfitted : m.Fitted) (hd : m.store.values.Distinct)
    (h : Completes r.observe m o m') :
    Swept m o m' ∧ m'.readings = r.brought.getD m.readings := by
  have hself : Completes syncStates { m with readings := m.readings } () m :=
    completes_syncStates_self hfitted
  cases r with
  | prime found =>
    rcases found with _ | ⟨_ | ⟨r, rs⟩⟩
    · obtain ⟨rfl, rfl⟩ := completes_pure.1 h
      exact ⟨.rested hself m'.watch (.inr rfl), rfl⟩
    · obtain ⟨rfl, rfl⟩ := completes_pure.1 h
      exact ⟨.rested hself m'.watch (.inr rfl), rfl⟩
    · exact swept_changeBuilding hd h
  | batteriesChanged readings => exact swept_changeBuilding hd h
  | wake =>
    simp only [Request.observe, completes_get_bind] at h
    split at h
    · obtain ⟨rfl, rfl⟩ := completes_pure.1 h
      exact ⟨.rested hself m'.watch (.inr rfl), rfl⟩
    · obtain ⟨u, t, hwatch, h⟩ := completes_bind.1 h
      obtain ⟨watch, -, rfl⟩ := completes_onWatch.1 hwatch
      obtain ⟨snapshots, t', hrun, h⟩ := completes_bind.1 h
      obtain ⟨rfl, rfl⟩ := completes_pure.1 h
      exact swept_run hd hself hrun
  | refresh =>
    have hrefresh : Completes refreshBuilding { m with watch := m.watch } o m' := h
    exact swept_refreshBuilding hd hself hrefresh

/-- **Every event is one turn** with the list that it brings, if it brings one. -/
theorem swept_observe {e : Event τ} (hfitted : m.Fitted) (hd : m.store.values.Distinct)
    (h : Completes e.observe m o m') :
    Swept m o m' ∧ m'.readings = e.brought.getD m.readings := by
  have hself : Completes syncStates { m with readings := m.readings } () m :=
    completes_syncStates_self hfitted
  cases e with
  | request r => exact swept_request hfitted hd h
  | windowOver =>
    obtain ⟨u, t, hwatch, h⟩ := completes_bind.1 h
    obtain ⟨watch, -, rfl⟩ := completes_onWatch.1 hwatch
    exact swept_refreshBuilding hd hself h
  | elapse timers =>
    simp only [Event.observe, completes_modify_bind] at h
    obtain ⟨rfl, rfl⟩ := completes_pure.1 h
    exact ⟨.rested hself _ (.inr rfl), rfl⟩
  | support supported =>
    obtain ⟨u, t, hwatch, h⟩ := completes_bind.1 h
    obtain ⟨watch, -, rfl⟩ := completes_onWatch.1 hwatch
    obtain ⟨rfl, rfl⟩ := completes_pure.1 h
    exact ⟨.rested hself watch (.inr rfl), rfl⟩

theorem turned_request {r : Request} (hfitted : m.Fitted) (hd : m.store.values.Distinct)
    (h : Completes r.observe m o m') :
    Turned m o m' ∧ m'.readings = r.brought.getD m.readings :=
  (swept_request hfitted hd h).imp_left fun hswept => hswept.turned hd

theorem turned_observe {e : Event τ} (hfitted : m.Fitted) (hd : m.store.values.Distinct)
    (h : Completes e.observe m o m') :
    Turned m o m' ∧ m'.readings = e.brought.getD m.readings :=
  (swept_observe hfitted hd h).imp_left fun hswept => hswept.turned hd

theorem eq_nil_of_changeBuilding {rs : List Reading} (hd : m.store.values.Distinct)
    (h : Completes (changeBuilding rs) m none m') : rs = [] := by
  obtain ⟨t, watch, hsync, -, hrefresh⟩ := completes_changeBuilding.1 h
  have hreadings : t.readings = rs :=
    (synced_syncStates (m := { m with readings := rs }) hd hsync).readings
  rcases completes_refreshBuilding.1 hrefresh with ⟨hempty, -, -⟩ | ⟨-, snapshots, hsome, -⟩
  · exact hreadings.symm.trans hempty
  · cases hsome

theorem eq_nil_of_brought {e : Event τ} (hd : m.store.values.Distinct)
    (h : Completes e.observe m none m') : ∀ rs ∈ e.brought, rs = [] := by
  intro rs hrs
  cases e with
  | request q =>
    cases q with
    | prime found =>
      rcases found with _ | ⟨_ | ⟨r, rs'⟩⟩
      · cases hrs
      · cases hrs
      · cases hrs
        exact eq_nil_of_changeBuilding hd h
    | batteriesChanged rs' =>
      cases hrs
      exact eq_nil_of_changeBuilding hd h
    | wake | refresh => cases hrs
  | windowOver | elapse _ | support _ => cases hrs

theorem Turned.fitted (h : Turned m o m') : m'.Fitted := by
  cases h with
  | rested hsynced _ => exact hsynced.fitted
  | ran hsynced hrun => exact fitted_runBuilding hsynced.fitted hsynced.store.distinct hrun

theorem Turned.distinct (h : Turned m o m') : m'.store.values.Distinct := by
  cases h with
  | rested hsynced _ => exact hsynced.store.distinct
  | ran hsynced hrun => exact (passed_runBuilding hsynced.store.distinct hrun).2.1

end Turning

/-! ### The lists of a history -/

/-- The lists that a history brought, the last one first. -/
def listsOf (past : List (Event τ)) : List (List Reading) := past.filterMap Event.brought

theorem listsOf_cons (e : Event τ) (past : List (Event τ)) :
    listsOf (e :: past) = e.brought.toList ++ listsOf past := by
  unfold listsOf
  rw [List.filterMap_cons]
  cases e.brought <;> rfl

/-- **Between events** there is a state for exactly the indices of the list, and that is the last
one that came. -/
theorem fitted_afterAll [Scheduler τ] {start : Monitor τ} (hfresh : start.Fresh) :
    ∀ {past : List (Event τ)}, faultless Event.act start past →
      (afterAll Event.act start past).Fitted ∧
      (afterAll Event.act start past).store.values.Distinct ∧
      (afterAll Event.act start past).readings = (listsOf past).head?.getD []
  | [], _ => ⟨hfresh.fitted, hfresh.distinct, hfresh.readings⟩
  | e :: past, hfaultless => by
    obtain ⟨hpast, u, h⟩ := faultless_cons.1 hfaultless
    obtain ⟨hfitted, hd, hreadings⟩ := fitted_afterAll hfresh hpast
    obtain ⟨o, h⟩ := Event.completes_act.1 h
    obtain ⟨hturned, hreadings'⟩ := turned_observe hfitted hd h
    refine ⟨hturned.fitted, hturned.distinct, ?_⟩
    rw [hreadings', hreadings, listsOf_cons]
    cases e.brought <;> rfl

end Monitor

end BatteryMonitor
