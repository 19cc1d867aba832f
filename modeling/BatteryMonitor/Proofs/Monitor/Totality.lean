import BatteryMonitor.Proofs.Json.Record
import BatteryMonitor.Proofs.Monitor.Bench
import BatteryMonitor.Proofs.Monitor.Rest
import BatteryMonitor.Proofs.Range

/-!
# Nothing stops a monitor whose readings are sound

Over a store in memory whose subscribers do not fail, no event stops with a fault as long as all
readings are sound (`Reading.isSound`): not for what is in the lists, how long they are or which
keys they name, nor for when timers run and what the clock says (`Monitor.faultless_of_sound`).

Every stage of an operation has something that it needs.  Estimates and snapshots need sound
readings (`Reading.exists_estimate`, `Reading.exists_report`), and all stages need a state for
every index of the list and a store that nothing stops (`Monitor.Working`), be it one in memory or
not.  So every stage completes (`Monitor.exists_estimateAll`, `Monitor.exists_pass`,
`Monitor.exists_suppress`), and with them every event (`Monitor.Working.exists_event`).
-/

namespace BatteryMonitor

namespace Monitor

open Effect

variable {before : Table Value} {P : Store → Prop}

/-! ### What the stages need -/

section Needs

variable {τ : Type} {m m' : Monitor τ}

/-- What an operation needs: there is a state for just the indices of the list, all keys are texts,
and the store is one that nothing stops. -/
structure Working (P : Store → Prop) (m : Monitor τ) : Prop where
  fitted : m.Fitted
  named : ∀ i key, m.keys.lookup i = some key → ∃ name, key = .text name
  store : P m.store

theorem Kept.working (h : m.Kept before) : m.Working Store.Steady :=
  ⟨h.fitted, fun i key hkey => (h.owned.named i key hkey).imp fun _ h => h.1, h.owned.steady⟩

namespace Working

theorem withWatch (h : m.Working P) (watch : Watch τ) : ({ m with watch } : Monitor τ).Working P :=
  ⟨h.fitted, h.named, h.store⟩

theorem revised (h : m.Working P) (hrevised : Revised m m') : m'.Working P := by
  refine ⟨hrevised.fitted h.fitted, ?_, ?_⟩ <;> rw [hrevised.eq]
  exacts [h.named, h.store]

theorem placed {i : Nat} {name : Text} {snapshot : Snapshot} (h : m.Working P)
    (hplaced : Placed m i (.text name) snapshot m') (hstore : P m'.store) : m'.Working P := by
  refine ⟨hplaced.fitted h.fitted, fun j key hkey => ?_, hstore⟩
  rw [hplaced.keys] at hkey
  split at hkey
  · exact ⟨name, (Option.some.inj hkey).symm⟩
  · exact h.named j key hkey

theorem exists_synced {good : Table Value → Prop} (h : m.Working P)
    (hP : Store.Tireless good P) (rs : List Reading) :
    ∃ t, Completes syncStates { m with readings := rs } () t ∧ t.readings = rs ∧ t.Working P := by
  obtain ⟨t, hsync, ht⟩ := exists_syncStates hP (m := { m with readings := rs })
    ⟨h.store, h.named, fun _ => .rfl⟩
  have hsynced := synced_syncStates (m := { m with readings := rs }) (hP.distinct h.store) hsync
  exact ⟨t, hsync, hsynced.readings, hsynced.fitted, ht.named, ht.carried⟩

end Working

end Needs

/-! ### Stages of a run -/

section Runs

variable {τ : Type} [Scheduler τ] {m : Monitor τ}

theorem fst_populate (c : Conditions) (now : Binary64) : ∀ {readings : List Reading}
    (states : List BatteryState), (∀ r ∈ readings, r.isSound = true) →
      (populate c now readings states).1 = none := by
  intro readings
  induction readings with
  | nil => exact fun _ _ => rfl
  | cons r readings ih =>
    intro states hsound
    cases states with
    | nil => rfl
    | cons s states =>
      obtain ⟨minutes, hminutes⟩ := Reading.exists_estimate (hsound r List.mem_cons_self) c now
      rw [populate, hminutes]
      exact ih states fun r' hr' => hsound r' (List.mem_cons_of_mem _ hr')

theorem exists_estimateAll (hfitted : m.Fitted) (hsound : ∀ r ∈ m.readings, r.isSound = true) :
    ∃ m', Completes estimateAll m () m' := by
  have hsome : ∀ i ∈ List.range m.readings.length, (m.state? i).isSome :=
    fun i hi => (hfitted i).2 (List.mem_range.1 hi)
  obtain ⟨states, hstates⟩ := exists_currentStates hsome
  have hnone := fst_populate m.watch.conditions m.watch.now states hsound
  simp only [estimateAll, completes_get_bind, hstates]
  cases hpopulate : populate m.watch.conditions m.watch.now m.readings states with
  | mk fault states' =>
    obtain rfl : fault = none := by rw [← hnone, hpopulate]
    exact ⟨_, completes_modify_bind.2 (completes_pure.2 ⟨rfl, rfl⟩)⟩

theorem exists_build {i : Nat} {r : Reading} (hsome : (m.state? i).isSome)
    (hsound : r.isSound = true) : ∃ snapshot m', Completes (build i r) m snapshot m' := by
  obtain ⟨s, hs⟩ := Option.isSome_iff_exists.1 hsome
  obtain ⟨⟨snapshot, latched⟩, hreport⟩ :=
    Reading.exists_report hsound s m.watch.conditions m.watch.now
  simp only [build, completes_get_bind, hs, hreport, setState, completes_modify_bind]
  exact ⟨snapshot, _, completes_pure.2 ⟨rfl, rfl⟩⟩

theorem exists_pass (hP : Store.Tireless Table.Flat P) : ∀ {rs : List Reading} {p : Nat}
    {m : Monitor τ}, m.Working P → m.Timed p rs → (∀ r ∈ rs, r.isSound = true) →
      ∃ snapshots m', Completes (pass p rs) m snapshots m' ∧ m'.Working P := by
  intro rs
  induction rs with
  | nil => exact fun hm _ _ => ⟨[], _, completes_pure.2 ⟨rfl, rfl⟩, hm⟩
  | cons r rs ih =>
    intro p m hm htimed hsound
    obtain ⟨hr, hsound⟩ := List.forall_mem_cons.1 hsound
    obtain ⟨s, minutes, hs, htime, hminutes⟩ := htimed 0 r rfl
    obtain ⟨name, hname⟩ := Reading.exists_name (Reading.isOptional_storeKey hr) p
    obtain ⟨snapshot, t, hbuild⟩ := exists_build (Option.isSome_of_eq_some hs) hr
    have ht : t.Working P := hbuild.after_eq ▸ hm.revised (revised_build p r m)
    obtain ⟨s', latched, hs', hreport, rfl⟩ := completes_build hbuild
    obtain rfl : s = s' := Option.some.inj (hs.symm.trans hs')
    have hflat := Reading.flat_report (Reading.isWellTyped_of_isSound hr)
      (Reading.estimate_range hminutes) htime hreport
    have hsome : (({ m with states := setAt p { s with latched } m.states } :
        Monitor τ).state? p).isSome := by
      rw [state?, lookup_setAt, if_pos rfl]
      rfl
    obtain ⟨u, hplace, hu⟩ := exists_place hP ht.store (ht.named p) name hflat hsome
    have hplaced := placed_place hplace
    have htimed' : u.Timed (p + 1) rs := by
      refine htimed.tail.congr hplaced.watch fun j hj => ?_
      have hjp : j ≠ p := by omega
      rw [hplaced.state?_of_ne hjp]
      simp only [state?, lookup_setAt, Nat.add_zero, if_neg hjp]
    obtain ⟨snapshots, m', hrest, hm'⟩ := ih (ht.placed hplaced hu) htimed' hsound
    refine ⟨snapshot :: snapshots, m', completes_bind.2 ⟨snapshot, _, hbuild,
      completes_bind.2 ⟨(), u, by rwa [hname], completes_bind.2 ⟨snapshots, m', hrest, ?_⟩⟩⟩, hm'⟩
    exact completes_pure.2 ⟨rfl, rfl⟩

/-- **The pipeline can be run.** -/
theorem exists_runBuilding (hP : Store.Tireless Table.Flat P) (hm : m.Working P)
    (hsound : ∀ r ∈ m.readings, r.isSound = true) :
    ∃ snapshots m', Completes runBuilding m snapshots m' ∧ m'.Working P := by
  obtain ⟨e, hestimate⟩ := exists_estimateAll hm.fitted hsound
  have he : e.Working P := hestimate.after_eq ▸ hm.revised (revised_estimateAll m)
  have hestimated := estimated_estimateAll hestimate
  have hreadings : e.readings = m.readings := by rw [hestimated.eq]
  obtain ⟨snapshots, m', hpass, hm'⟩ := exists_pass hP he hestimated.timed hsound
  refine ⟨snapshots, m', completes_bind.2 ⟨(), e, hestimate, ?_⟩, hm'⟩
  rwa [completes_get_bind, hreadings]

theorem exists_refreshBuilding (hP : Store.Tireless Table.Flat P) (hm : m.Working P)
    (hsound : ∀ r ∈ m.readings, r.isSound = true) :
    ∃ o m', Completes refreshBuilding m o m' ∧ m'.Working P := by
  by_cases hempty : m.readings = []
  · exact ⟨none, m, completes_refreshBuilding.2 (.inl ⟨hempty, rfl, rfl⟩), hm⟩
  · obtain ⟨snapshots, m', hrun, hm'⟩ := exists_runBuilding hP hm hsound
    exact ⟨some snapshots, m',
      completes_refreshBuilding.2 (.inr ⟨hempty, snapshots, rfl, hrun⟩), hm'⟩

end Runs

/-! ### Events -/

section Events

variable {m : Monitor Bench}

theorem exists_suppress {w : Watch Bench} (hsound : ∀ r ∈ w.primary, r.isSound = true) :
    ∃ w', Completes Watch.suppress w () w' := by
  unfold Completes
  rw [Watch.run_suppress]
  cases hprimary : w.primary with
  | none => exact ⟨w, rfl⟩
  | some primary =>
    obtain ⟨delay, hdelay⟩ := Reading.exists_invalidWakeSecs (hsound primary hprimary)
    exact ⟨w.withWindow (w.window.opened delay), by simp only [hdelay]⟩

theorem exists_see (w : Watch Bench) {rs : List Reading} (hsound : ∀ r ∈ rs, r.isSound = true) :
    ∃ w', Completes (Watch.batteriesChanged rs) w () w' := by
  cases rs with
  | nil => exact ⟨_, completes_modify.2 rfl⟩
  | cons primary rest =>
    unfold Completes
    rw [Watch.run_batteriesChanged]
    split
    · exact ⟨_, rfl⟩
    · obtain ⟨w', hw'⟩ := exists_suppress (w := { w with primary := some primary }) fun r hr =>
        Option.some.inj hr ▸ hsound primary List.mem_cons_self
      rw [show Watch.suppress.run.run _ = _ from hw']
      exact ⟨_, rfl⟩

theorem exists_changeBuilding (hP : Store.Tireless Table.Flat P) (hm : m.Working P)
    {rs : List Reading} (hsound : ∀ r ∈ rs, r.isSound = true) :
    ∃ o m', Completes (changeBuilding rs) m o m' ∧ m'.Working P := by
  obtain ⟨t, hsync, hreadings, ht⟩ := hm.exists_synced hP rs
  obtain ⟨watch, hsaw⟩ := exists_see t.watch hsound
  obtain ⟨o, m', hrun, hm'⟩ := exists_refreshBuilding hP (ht.withWatch watch) (hreadings ▸ hsound)
  exact ⟨o, m', completes_changeBuilding.2 ⟨t, watch, hsync, hsaw, hrun⟩, hm'⟩

/-- **What stops no event**: the list, the reading that the watch has seen last and the list that
the event brings are sound. -/
theorem Working.exists_event (hm : m.Working P) (hP : Store.Tireless Table.Flat P) {e : Event Bench}
    (hreadings : ∀ r ∈ m.readings, r.isSound = true)
    (hprimary : ∀ r ∈ m.watch.primary, r.isSound = true)
    (hlist : ∀ rs ∈ e.brought, ∀ r ∈ rs, r.isSound = true) :
    ∃ o m', Completes e.observe m o m' ∧ m'.Working P := by
  cases e with
  | request r =>
    cases r with
    | prime found =>
      rcases found with _ | ⟨_ | ⟨r, rs⟩⟩
      · exact ⟨none, m, completes_pure.2 ⟨rfl, rfl⟩, hm⟩
      · exact ⟨none, m, completes_pure.2 ⟨rfl, rfl⟩, hm⟩
      · exact exists_changeBuilding hP hm (hlist _ rfl)
    | batteriesChanged rs => exact exists_changeBuilding hP hm (hlist _ rfl)
    | wake =>
      simp only [Event.observe, Request.observe, completes_get_bind]
      split
      · exact ⟨none, m, completes_pure.2 ⟨rfl, rfl⟩, hm⟩
      · obtain ⟨watch, hsuppress⟩ := exists_suppress hprimary
        obtain ⟨snapshots, m', hrun, hm'⟩ := exists_runBuilding hP (hm.withWatch watch) hreadings
        exact ⟨some snapshots, m', completes_bind.2 ⟨(), _, completes_onWatch.2
          ⟨watch, hsuppress, rfl⟩, completes_bind.2 ⟨snapshots, m', hrun,
            completes_pure.2 ⟨rfl, rfl⟩⟩⟩, hm'⟩
    | refresh => exact exists_refreshBuilding hP hm hreadings
  | windowOver =>
    obtain ⟨o, m', hrun, hm'⟩ := exists_refreshBuilding hP
      (hm.withWatch (m.watch.withWindow m.watch.window.closed)) hreadings
    exact ⟨o, m', completes_bind.2 ⟨(), _, completes_onWatch.2
      ⟨_, Watch.run_windowOver m.watch, rfl⟩, hrun⟩, hm'⟩
  | elapse timers =>
    exact ⟨none, _, completes_modify_bind.2 (completes_pure.2 ⟨rfl, rfl⟩), hm.withWatch _⟩
  | support supported =>
    exact ⟨none, _, completes_bind.2 ⟨(), _, completes_onWatch.2
      ⟨_, completes_modify.2 rfl, rfl⟩, completes_pure.2 ⟨rfl, rfl⟩⟩, hm.withWatch _⟩

/-! ### A store in memory -/

/-- What holds between events: besides, the readings are sound, those of the list and the one that
the watch has seen last. -/
structure Safe (before : Table Value) (m : Monitor Bench) : Prop extends m.Kept before where
  sound : ∀ r ∈ m.readings, r.isSound = true
  primary : ∀ r ∈ m.watch.primary, r.isSound = true

theorem Safe.event {m' : Monitor Bench} {e : Event Bench} {o : Option (List Snapshot)}
    (hm : m.Safe before) (hlist : ∀ rs ∈ e.brought, ∀ r ∈ rs, r.isSound = true)
    (h : Completes e.observe m o m') : m'.Safe before := by
  have hkept : m'.Kept before := h.keeps (keeps_kept_observe fun rs hrs r hr =>
    Reading.isOptional_storeKey (hlist rs hrs r hr)) hm.toKept
  obtain ⟨-, hreadings⟩ := turned_observe hm.fitted hm.owned.steady.distinct h
  have hprimary : m'.watch.primary = (e.view m.watch.outlook).primary :=
    congrArg Outlook.primary (outlook_act (Event.completes_act.2 ⟨o, h⟩))
  refine ⟨hkept, hreadings ▸ holds_getD (P := fun rs => ∀ r ∈ rs, r.isSound = true) hm.sound hlist,
    fun r hr => ?_⟩
  rw [hprimary] at hr
  cases e with
  | request request =>
    have hbrought := hlist
    simp only [Event.view, Event.brought] at hr hbrought
    cases hrs : request.brought with
    | none => rw [hrs] at hr; exact hm.primary r hr
    | some rs =>
      rw [hrs] at hr
      rw [Option.elim_some, (Outlook.matches_saw _ rs).primary] at hr
      exact hbrought rs hrs r (List.mem_of_mem_head? hr)
  | windowOver | elapse _ | support _ => exact hm.primary r hr

/-- **No event stops with a fault** if the lists that it brings are sound. -/
theorem Safe.exists_observe (hm : m.Safe before) {e : BenchEvent}
    (hlist : ∀ rs ∈ e.brought, ∀ r ∈ rs, r.isSound = true) :
    ∃ o m', Completes e.observe m o m' ∧ m'.Safe before := by
  have hagenda : (m.withAgenda (e.plain m.watch.timers).2).Safe before :=
    ⟨hm.toKept.withAgenda _, hm.sound, hm.primary⟩
  rw [← e.brought_plain m.watch.timers] at hlist
  obtain ⟨o, m', h, -⟩ := hagenda.working.exists_event (Store.tireless_steady _) hagenda.sound
    hagenda.primary hlist
  exact ⟨o, m', BenchEvent.completes_observe.2 h, hagenda.event hlist h⟩

end Events

/-! ### Histories -/

section Histories

variable {start : Monitor Bench} {past : List BenchEvent}

theorem Initial.safe_overheard (h : start.Initial) (hbacking : start.store.backing = none)
    (hcalm : ∀ subscriber ∈ start.store.subscribers, subscriber.reaction ≠ .fail) :
    start.overheard.Safe start.store.values where
  toKept := h.kept_overheard hbacking hcalm
  sound r hr := by
    rw [show start.overheard.readings = [] from h.readings] at hr
    exact absurd hr List.not_mem_nil
  primary r hr := by
    rw [show start.overheard.watch.primary = none from h.primary] at hr
    cases hr

theorem Safe.afterAll (h : start.Safe before)
    (hlists : ∀ e ∈ past, ∀ rs ∈ e.brought, ∀ r ∈ rs, r.isSound = true) :
    faultless BenchEvent.act start past = true ∧
      (afterAll BenchEvent.act start past).Safe before := by
  induction past with
  | nil => exact ⟨rfl, h⟩
  | cons e past ih =>
    obtain ⟨hfaultless, hpast⟩ := ih fun e' he' => hlists e' (List.mem_cons_of_mem _ he')
    obtain ⟨o, m', hobserve, hsafe⟩ := hpast.exists_observe (hlists e List.mem_cons_self)
    have hact : Completes e.act (Effect.afterAll BenchEvent.act start past) () m' := by
      rw [e.act_eq, completes_discard]
      exact ⟨o, hobserve⟩
    refine ⟨?_, ?_⟩
    · rw [faultless, hfaultless, hact.isClean]
      rfl
    · rw [Effect.afterAll, hact.after_eq]
      exact hsafe

/-- **Nothing stops a monitor whose readings are sound.**  From a new monitor over a store in memory
whose subscribers do not fail, no event of any history stops with a fault if every reading is
well-typed and has no integer beyond `2^53`, whatever its capacities and currents, the lengths of
the lists, the keys that they name, the timers that are let run and the clock. -/
theorem faultless_of_sound (hinitial : start.Initial) (hbacking : start.store.backing = none)
    (hcalm : ∀ subscriber ∈ start.store.subscribers, subscriber.reaction ≠ .fail)
    (hlists : ∀ e ∈ past, ∀ rs ∈ e.brought, ∀ r ∈ rs, r.isSound = true) :
    faultless BenchEvent.act start past = true := by
  -- the proof follows what is heard, so that somebody has to listen
  rw [faultless_eq_of_coupled (overhears_overheard start) coupled_act]
  exact ((hinitial.safe_overheard hbacking hcalm).afterAll hlists).1

/-- A history of extremes, the last event first: the timer of the window runs, and then that of no
window at all; two batteries share a key, one of them without any capacity and both at the ends
of the range; the first of them is moved to another key; all batteries go. -/
def extremes : List BenchEvent :=
  let least : Value := .int (-Nat.pow 2 53)
  let most : Value := .int (Nat.pow 2 53)
  let first : Reading :=
    { storeKey := .text "A", externalConnected := .bool true, designCapacity := .int (-1),
      currentCapacity := most, maxCapacity := .int 1, avgAmperage := .int (-1),
      hasInstantAmperage := .bool true, instantAmperage := least, invalidWakeSecs := least }
  let second : Reading :=
    { storeKey := .text "A", isCharging := .bool true, designCapacity := .int 0,
      currentCapacity := least, cycleCount := most, avgAmperage := .int 1 }
  [.request (.batteriesChanged []),
    .request (.batteriesChanged [{ first with storeKey := .text "B", isPresent := .bool false }]),
    .request .refresh, .fire 7, .fire 1, .request .wake,
    .request (.batteriesChanged [first, second])]

/-- None of it stops the monitor, even if a subscriber takes the records away that it hears of. -/
theorem faultless_extremes :
    (∀ e ∈ extremes, ∀ rs ∈ e.brought, ∀ r ∈ rs, r.isSound = true) ∧
      faultless BenchEvent.act onSharedBench extremes = true := by
  have hsound : ∀ e ∈ extremes, ∀ rs ∈ e.brought, ∀ r ∈ rs, r.isSound = true := by decide +kernel
  have hinitial : onSharedBench.Initial :=
    ⟨⟨rfl, rfl, rfl, List.pairwise_singleton _ _⟩, rfl, rfl⟩
  exact ⟨hsound, faultless_of_sound hinitial rfl (by decide +kernel) hsound⟩

end Histories

end Monitor

end BatteryMonitor
