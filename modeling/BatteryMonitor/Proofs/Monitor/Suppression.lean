import BatteryMonitor.Proofs.Monitor.Window
import BatteryMonitor.Proofs.Report

/-!
# Estimates are suppressed exactly when the history says so

Whether estimates are suppressed is decided by a clock and a number in the conditions.  This file
says it by the history alone, for histories without faults on a clock that does not run back.

* `Monitor.Latest` : the last discontinuity of a history.  What is a discontinuity is also told
  from the history, by the lists that came before (`Monitor.readingsAfter`,
  `Monitor.externalAfter`).
* `Monitor.isIgnoring_iff` : estimates are suppressed iff there was a discontinuity, its timer has
  not run, and the clock is before the end of its delay.
* `Monitor.silent_run` : a run of the pipeline while they are suppressed gives no battery a time.
* `Monitor.suppression` : both together, at every moment and for every run.
-/

namespace BatteryMonitor

namespace Monitor

open Effect

/-! ### Events with the snapshots that they build -/

/-- The list that an event brings. -/
def BenchEvent.brought : BenchEvent → Option (List Reading)
  | request r => r.brought
  | fire _ | tick _ | support _ => none

/-- What is done for an alarm, with the snapshots that were built. -/
def observeAlarm : Alarm → M Bench (Option (List Snapshot))
  | .windowOver => Event.windowOver.observe
  | .wakeSettled => Request.wake.observe

/-- What happens to a monitor in an event, with the snapshots that were built. -/
def BenchEvent.observe : BenchEvent → M Bench (Option (List Snapshot))
  | request r => r.observe
  | fire handle => do
    let m ← get
    match m.watch.timers.agenda.take? handle with
    | none => return none
    | some (alarm, agenda) =>
      set (HasAgenda.setAgenda agenda m)
      observeAlarm alarm
  | tick now => do
    modify fun m => { m with watch.timers.clock := now }
    return none
  | support supported => (Event.support supported).observe

theorem handle_eq (alarm : Alarm) : Monitor.handle alarm = discard (observeAlarm alarm) := by
  cases alarm with
  | windowOver => exact Event.act_eq .windowOver
  | wakeSettled => exact Request.act_eq .wake

/-- **An event builds snapshots and forgets them.** -/
theorem BenchEvent.act_eq (e : BenchEvent) : e.act = discard e.observe := by
  cases e with
  | request r => exact Request.act_eq r
  | fire handle =>
    unfold act observe Agenda.fire
    simp only [discard_eq, bind_assoc]
    congr 1
    funext m
    change (match m.watch.timers.agenda.take? handle with
      | none => _
      | some (alarm, agenda) => _ : M Bench Bool) >>= _ = _
    cases m.watch.timers.agenda.take? handle with
    | none => rfl
    | some taken => simp only [handle_eq, discard_eq, bind_assoc, pure_bind]
  | tick now =>
    unfold act observe
    simp only [discard_eq, bind_assoc, pure_bind, bind_pure_unit]
  | support supported => exact Event.act_eq (.support supported)

/-! ### A run while estimates are suppressed -/

section Runs

variable {τ : Type} [Scheduler τ] {m m' : Monitor τ}

/-- **A run while estimates are suppressed** gives no battery a time, and says so in every
snapshot. -/
theorem silent_run {snapshots : List Snapshot} (hd : m.store.values.Distinct)
    (hignoring : m.watch.isIgnoring = true) (h : Completes runBuilding m snapshots m') {i : Nat}
    {r : Reading} (hr : m.readings[i]? = some r) :
    ∃ s snapshot, m'.state? i = some s ∧ s.timeRemaining = .int indeterminate ∧
      snapshots[i]? = some snapshot ∧ snapshot.waitingForEstimates = .bool true ∧
      (r.isPresent.truth = true → snapshot.timeToEmpty = .int indeterminate ∧
        snapshot.timeToFullCharge = .int indeterminate) := by
  obtain ⟨snapshot, u, t, hsnapshot, hhandled⟩ := handled_runBuilding hd hr h
  obtain ⟨s, minutes, latched, -, hminutes, hreport, hu⟩ := hhandled.report
  obtain rfl : minutes = indeterminate := Reading.estimate_eq_indeterminate hignoring hminutes
  obtain ⟨hwaiting, htimes⟩ := Reading.report_indeterminate rfl hreport
  obtain ⟨s', last, hs', ht⟩ := hhandled.placed.exists_lastPublished
  obtain rfl := Option.some.inj (hu.symm.trans hs')
  refine ⟨_, snapshot, hhandled.state?.trans ht, rfl, hsnapshot, ?_, htimes⟩
  rw [hwaiting]
  exact congrArg Value.bool hignoring

end Runs

/-! ### Events as turns -/

section Turns

variable {m m' : Monitor Bench} {o : Option (List Snapshot)}

theorem Turned.ofWatch {watch : Watch Bench} (h : Turned { m with watch } o m') :
    Turned m o m' := by
  cases h with
  | rested hsynced why =>
    exact .rested ⟨hsynced.readings, hsynced.state?, hsynced.keys, hsynced.store⟩ why
  | ran hsynced hrun =>
    exact .ran ⟨hsynced.readings, hsynced.state?, hsynced.keys, hsynced.store⟩ hrun

theorem completes_observe_fire {handle : Nat} (hsingle : m.watch.window.Single)
    (h : Completes (BenchEvent.fire handle).observe m o m') :
    if m.watch.window.pendingTimer = some handle then
      Completes (Event.windowOver).observe (m.withoutTimer handle) o m'
    else o = none ∧ m' = m := by
  have hstart : Completes (match m.watch.timers.agenda.take? handle with
      | none => return none
      | some (alarm, agenda) => do
        set (HasAgenda.setAgenda agenda m)
        observeAlarm alarm : M Bench (Option (List Snapshot))) m o m' := h
  rw [show m.watch.timers.agenda.take? handle = _ from hsingle.take? handle] at hstart
  by_cases htimer : m.watch.window.pendingTimer = some handle
  · rw [if_pos htimer] at hstart ⊢
    exact hstart
  · rw [if_neg htimer] at hstart ⊢
    exact completes_pure.1 hstart

theorem turned_bench {e : BenchEvent} (hsingle : m.watch.window.Single) (hfitted : m.Fitted)
    (hd : m.store.values.Distinct) (h : Completes e.observe m o m') :
    Turned m o m' ∧ m'.readings = e.brought.getD m.readings := by
  have hself : Synced m m := synced_self hfitted hd m.watch
  cases e with
  | request r => exact turned_request hfitted hd h
  | fire handle =>
    have hfire := completes_observe_fire hsingle h
    split at hfire
    · obtain ⟨hturned, hreadings⟩ := turned_observe (m := m.withoutTimer handle) hfitted hd hfire
      exact ⟨hturned.ofWatch, hreadings⟩
    · obtain ⟨rfl, rfl⟩ := hfire
      exact ⟨.rested hself (.inr rfl), rfl⟩
  | tick now =>
    simp only [BenchEvent.observe, completes_modify_bind] at h
    obtain ⟨rfl, rfl⟩ := completes_pure.1 h
    exact ⟨.rested (hself.withWatch _) (.inr rfl), rfl⟩
  | support supported => exact turned_observe (e := .support supported) hfitted hd h

/-! ### The watch after an event that completes -/

/-- The window after an event that is no discontinuity. -/
def undisturbed (w : Window) : BenchEvent → Window
  | .fire handle => w.fired handle
  | .tick now => { w with clock := now }
  | .request _ | .support _ => w

/-- What an event that completes has done to the window. -/
def Advanced (m : Monitor Bench) (e : BenchEvent) (w : Window) : Prop :=
  match e.disruption? m.watch.conditions.lastExternal m.readings with
  | none => w = undisturbed m.watch.window e
  | some primary => ∃ delay, primary.invalidWakeSecs.toDouble = .ok delay ∧
      w = m.watch.window.opened delay

/-- A request does nothing else to the window than a discontinuity does. -/
theorem advanced_request {r : Request} {w : Window} (h : Watch.Disrupted m.watch.window
    (BenchEvent.disruption? m.watch.conditions.lastExternal m.readings (.request r)) w) :
    Advanced m (.request r) w := by
  unfold Advanced
  revert h
  cases BenchEvent.disruption? m.watch.conditions.lastExternal m.readings (.request r) with
  | none => exact id
  | some primary => exact id

/-- The power source that was last seen, after a list that may have come. -/
def externalSeen (external : Bool) (brought : Option (List Reading)) : Bool :=
  ((brought.bind (·.head?)).map (·.externalConnected.truth)).getD external

theorem watch_batteriesChanged {rs : List Reading} {u : Unit}
    (h : Completes (batteriesChanged rs) m u m') :
    Watch.Disrupted m.watch.window (Watch.replugged m.watch.conditions.lastExternal rs)
        m'.watch.window ∧
      m'.watch.primary = rs.head? ∧
      m'.watch.conditions.lastExternal =
        (rs.head?.map (·.externalConnected.truth)).getD m.watch.conditions.lastExternal := by
  obtain ⟨s, watch, hsync, hchanged, hrefresh⟩ := completes_batteriesChanged.1 h
  have hs : s.watch = m.watch :=
    watch_completes (m := { m with readings := rs }) leavesWatch_syncStates hsync
  rw [watch_completes leavesWatch_refresh hrefresh, ← hs]
  exact Watch.completes_batteriesChanged hchanged

/-- **What a request does to the watch** when it completes. -/
theorem watch_request {r : Request} {u : Unit} (hprimary : m.watch.primary = m.readings.head?)
    (h : Completes r.act m u m') : Advanced m (.request r) m'.watch.window ∧
      m'.watch.primary = (r.brought.getD m.readings).head? ∧
      m'.watch.conditions.lastExternal =
        externalSeen m.watch.conditions.lastExternal r.brought := by
  cases r with
  | prime found =>
    rcases found with _ | ⟨_ | ⟨primary, rest⟩⟩
    · obtain ⟨-, rfl⟩ := completes_pure.1 h
      exact ⟨rfl, hprimary, rfl⟩
    · obtain ⟨-, rfl⟩ := completes_pure.1 h
      exact ⟨rfl, hprimary, rfl⟩
    · obtain ⟨hwindow, hrest⟩ := watch_batteriesChanged h
      exact ⟨advanced_request hwindow, hrest⟩
  | batteriesChanged rs =>
    obtain ⟨hwindow, hrest⟩ := watch_batteriesChanged h
    exact ⟨advanced_request hwindow, hrest⟩
  | wake =>
    simp only [Request.act, systemDidWake, completes_get_bind] at h
    split at h
    · rename_i hempty
      obtain ⟨-, rfl⟩ := completes_pure.1 h
      refine ⟨advanced_request ?_, hprimary, rfl⟩
      simp only [BenchEvent.disruption?, List.isEmpty_iff.1 hempty]
      rfl
    · obtain ⟨u', t, hwatch, hrun⟩ := completes_bind.1 h
      obtain ⟨watch, hsuppress, rfl⟩ := completes_onWatch.1 hwatch
      obtain ⟨hwindow, hprimary', hexternal⟩ := Watch.completes_suppress hsuppress
      rw [watch_completes leavesWatch_run hrun]
      refine ⟨advanced_request ?_, hprimary'.trans hprimary, hexternal⟩
      rw [BenchEvent.disruption?, ← hprimary]
      exact hwindow
  | refresh =>
    rw [watch_completes leavesWatch_refresh h]
    exact ⟨rfl, hprimary, rfl⟩

/-- **What an event does to the watch** when it completes. -/
theorem watch_act {e : BenchEvent} {u : Unit} (hsingle : m.watch.window.Single)
    (hprimary : m.watch.primary = m.readings.head?) (h : Completes e.act m u m') :
    Advanced m e m'.watch.window ∧ m'.watch.primary = (e.brought.getD m.readings).head? ∧
      m'.watch.conditions.lastExternal =
        externalSeen m.watch.conditions.lastExternal e.brought := by
  cases e with
  | request r => exact watch_request hprimary h
  | fire handle =>
    unfold Completes at h
    rw [run_act_fire hsingle] at h
    simp only [Advanced, BenchEvent.disruption?, undisturbed, Window.fired]
    split at h
    · rename_i htimer
      rw [if_pos htimer]
      obtain ⟨u', t, hwatch, hrefresh⟩ := completes_bind.1 h
      obtain ⟨watch, hover, rfl⟩ := completes_onWatch.1 hwatch
      have hclosed := hover.after_eq
      rw [Watch.after_windowOver] at hclosed
      rw [watch_completes leavesWatch_refresh hrefresh, ← hclosed]
      exact ⟨rfl, hprimary, rfl⟩
    · rename_i htimer
      rw [if_neg htimer]
      cases h
      exact ⟨rfl, hprimary, rfl⟩
  | tick now =>
    obtain rfl := completes_modify.1 h
    exact ⟨rfl, hprimary, rfl⟩
  | support supported =>
    rw [BenchEvent.act, completes_onWatch] at h
    obtain ⟨watch, hadjust, rfl⟩ := h
    obtain rfl := completes_modify.1 hadjust
    exact ⟨rfl, hprimary, rfl⟩

end Turns

/-! ### What the history says -/

/-- The list after a history. -/
def readingsAfter : List BenchEvent → List Reading
  | [] => []
  | e :: past => e.brought.getD (readingsAfter past)

/-- Whether the primary battery of the last list that was not empty is on external power. -/
def externalAfter : List BenchEvent → Bool
  | [] => false
  | e :: past => externalSeen (externalAfter past) e.brought

/-- The battery at which an event is a discontinuity, after a history. -/
def disruptionAfter (past : List BenchEvent) (e : BenchEvent) : Option Reading :=
  e.disruption? (externalAfter past) (readingsAfter past)

/-- **The last discontinuity of a history** is `e`, at a battery, with `earlier` before it and
`later` after it. -/
structure Latest (past later : List BenchEvent) (e : BenchEvent) (earlier : List BenchEvent)
    (primary : Reading) : Prop where
  eq : past = later ++ e :: earlier
  disrupts : disruptionAfter earlier e = some primary
  steady : ∀ e' between, e' :: between <:+ later →
    disruptionAfter (between ++ e :: earlier) e' = none

namespace Latest

variable {past later later' earlier earlier' : List BenchEvent} {e e' : BenchEvent}
  {primary primary' : Reading}

theorem cons (h : Latest past later e earlier primary) {e₀ : BenchEvent}
    (hsteady : disruptionAfter past e₀ = none) :
    Latest (e₀ :: past) (e₀ :: later) e earlier primary where
  eq := congrArg _ h.eq
  disrupts := h.disrupts
  steady := forall_suffix_cons.2 ⟨h.eq ▸ hsteady, h.steady⟩

theorem not_suffix (h : Latest past later e earlier primary)
    (h' : Latest past later' e' earlier' primary') : ¬ e :: earlier <:+ earlier' := by
  rintro ⟨between, hbetween⟩
  have hpast : later ++ e :: earlier = (later' ++ e' :: between) ++ e :: earlier := by
    rw [← h.eq, h'.eq, ← hbetween]
    simp
  have hlater : later = later' ++ e' :: between := List.append_cancel_right hpast
  have hnone := h.steady e' between (hlater ▸ List.suffix_append later' (e' :: between))
  rw [hbetween, h'.disrupts] at hnone
  cases hnone

theorem unique (h : Latest past later e earlier primary)
    (h' : Latest past later' e' earlier' primary') :
    later' = later ∧ e' = e ∧ earlier' = earlier ∧ primary' = primary := by
  -- both end the same history, so one of them ends the other
  have hsame : e' :: earlier' = e :: earlier := by
    rcases List.suffix_or_suffix_of_suffix (h.eq ▸ List.suffix_append later (e :: earlier))
      (h'.eq ▸ List.suffix_append later' (e' :: earlier')) with hsuffix | hsuffix
    · rcases List.suffix_cons_iff.1 hsuffix with heq | hsuffix'
      · exact heq.symm
      · exact absurd hsuffix' (h.not_suffix h')
    · rcases List.suffix_cons_iff.1 hsuffix with heq | hsuffix'
      · exact heq
      · exact absurd hsuffix' (h'.not_suffix h)
  cases hsame
  refine ⟨List.append_cancel_right (h'.eq.symm.trans h.eq), rfl, rfl, ?_⟩
  exact Option.some.inj (h'.disrupts.symm.trans h.disrupts)

end Latest

/-! ### The watch after a history -/

/-- A monitor on a bench that nothing has happened to yet, with any records in its store. -/
structure New (m : Monitor Bench) : Prop extends Fresh m, Idle m where
  primary : m.watch.primary = none
  lastExternal : m.watch.conditions.lastExternal = false

theorem new_onBench : onBench.New := ⟨fresh_onBench, idle_onBench, rfl, rfl⟩

/-- What a monitor remembers of its history, besides the window. -/
structure Tracked (past : List BenchEvent) (m : Monitor Bench) : Prop where
  fitted : m.Fitted
  distinct : m.store.values.Distinct
  readings : m.readings = readingsAfter past
  primary : m.watch.primary = (readingsAfter past).head?
  lastExternal : m.watch.conditions.lastExternal = externalAfter past

/-- What the window is after a history: none has been opened, or the last discontinuity has opened
it, and its timer is still there or has run. -/
def Explained (start : Monitor Bench) (past : List BenchEvent) (w : Window) : Prop :=
  (∀ e between, e :: between <:+ past → disruptionAfter between e = none) ∧ w.pendingTimer = none ∨
    ∃ later e earlier primary delay handle, Latest past later e earlier primary ∧
      primary.invalidWakeSecs.toDouble = .ok delay ∧
      (afterAll BenchEvent.act start (e :: earlier)).watch.conditions.pendingTimer = some handle ∧
      (BenchEvent.fire handle ∉ later ∧ w.pendingTimer = some handle ∧
          w.invalidUntil = (clockAfter start.watch.timers.clock earlier).add delay ∨
        BenchEvent.fire handle ∈ later ∧ w.pendingTimer = none)

section Histories

variable {start : Monitor Bench} {past : List BenchEvent} {e : BenchEvent}

theorem New.tracked (h : start.New) : Tracked [] start where
  fitted := h.toFresh.fitted
  distinct := h.distinct
  readings := h.readings
  primary := h.primary
  lastExternal := h.lastExternal

theorem Tracked.act {m m' : Monitor Bench} {u : Unit} (htracked : Tracked past m)
    (hsingle : m.watch.window.Single) (h : Completes e.act m u m') : Tracked (e :: past) m' := by
  have hprimary : m.watch.primary = m.readings.head? := by
    rw [htracked.primary, htracked.readings]
  obtain ⟨-, hprimary', hexternal⟩ := watch_act hsingle hprimary h
  rw [BenchEvent.act_eq, completes_discard] at h
  obtain ⟨o, h⟩ := h
  obtain ⟨hturned, hreadings⟩ := turned_bench hsingle htracked.fitted htracked.distinct h
  rw [htracked.readings] at hreadings hprimary'
  rw [htracked.lastExternal] at hexternal
  exact ⟨hturned.fitted, hturned.distinct, hreadings, hprimary', hexternal⟩

theorem pendingTimer_undisturbed {w : Window} (h : w.pendingTimer = none) (e : BenchEvent) :
    (undisturbed w e).pendingTimer = none := by
  cases e with
  | request _ | tick _ | support _ => exact h
  | fire handle => simp [undisturbed, Window.fired, h]

/-- An event that is no discontinuity leaves the explanation as it is, but for a timer that runs. -/
theorem Explained.cons {w : Window} (h : Explained start past w)
    (hsteady : disruptionAfter past e = none) :
    Explained start (e :: past) (undisturbed w e) := by
  rcases h with ⟨hquiet, hw⟩ |
    ⟨later, e', earlier, primary, delay, handle, hlatest, hdelay, htimer, hw⟩
  · exact .inl ⟨forall_suffix_cons.2 ⟨hsteady, hquiet⟩, pendingTimer_undisturbed hw e⟩
  · refine .inr ⟨e :: later, e', earlier, primary, delay, handle, hlatest.cons hsteady, hdelay,
      htimer, ?_⟩
    rcases hw with ⟨hfire, hw, huntil⟩ | ⟨hfire, hw⟩
    -- the timer of the last discontinuity has not run before, and may run now
    · by_cases hrun : e = .fire handle
      · subst hrun
        refine .inr ⟨List.mem_cons_self, ?_⟩
        simp [undisturbed, Window.fired, Window.closed, hw]
      · refine .inl ⟨fun hmem => ?_, ?_⟩
        · rcases List.mem_cons.1 hmem with heq | hmem'
          · exact hrun heq.symm
          · exact hfire hmem'
        · cases e with
          | request _ | tick _ | support _ => exact ⟨hw, huntil⟩
          | fire handle' =>
            have hother : w.pendingTimer ≠ some handle' := by
              rw [hw]
              exact fun heq => hrun (by rw [Option.some.inj heq])
            simp only [undisturbed, Window.fired, if_neg hother]
            exact ⟨hw, huntil⟩
    · exact .inr ⟨List.mem_cons_of_mem _ hfire, pendingTimer_undisturbed hw e⟩

/-- **What a monitor remembers and why its window is as it is**, after any history without faults.
-/
theorem explained_afterAll (hnew : start.New) (hforward : forward start.watch.timers.clock past)
    (hfaultless : faultless BenchEvent.act start past) :
    Tracked past (afterAll BenchEvent.act start past) ∧
      Explained start past (afterAll BenchEvent.act start past).watch.window := by
  induction past with
  | nil => exact ⟨hnew.tracked, .inl ⟨forall_suffix_nil, hnew.pendingTimer⟩⟩
  | cons e past ih =>
    obtain ⟨hpast, -⟩ := forward_cons hforward
    obtain ⟨hfaultless', u, hact⟩ := faultless_cons.1 hfaultless
    obtain ⟨htracked, hexplained⟩ := ih hpast hfaultless'
    obtain ⟨hsingle, hclock⟩ := window_afterAll hnew.toIdle hpast
    refine ⟨htracked.act hsingle hact, ?_⟩
    have hadvanced := (watch_act hsingle (by rw [htracked.primary, htracked.readings]) hact).1
    unfold Advanced at hadvanced
    rw [htracked.lastExternal, htracked.readings] at hadvanced
    split at hadvanced
    · rename_i hsteady
      rw [hadvanced]
      exact hexplained.cons hsteady
    -- the event is itself the last discontinuity now, with nothing after it
    · rename_i primary hdisrupts
      obtain ⟨delay, hdelay, hopened⟩ := hadvanced
      rw [hopened]
      refine .inr ⟨[], e, past, primary, delay, _, ⟨rfl, hdisrupts, forall_suffix_nil⟩, hdelay,
        congrArg Window.pendingTimer hopened, .inl ⟨List.not_mem_nil, rfl, ?_⟩⟩
      rw [← hclock]
      rfl

/-- **Estimates are suppressed exactly when the history says so**: there was a discontinuity, the
timer that the last one armed has not run, and the clock is before the end of its delay. -/
theorem isIgnoring_iff (hnew : start.New) (hforward : forward start.watch.timers.clock past)
    (hfaultless : faultless BenchEvent.act start past) :
    (afterAll BenchEvent.act start past).watch.isIgnoring = true ↔
      ∃ later e earlier primary delay handle, Latest past later e earlier primary ∧
        primary.invalidWakeSecs.toDouble = .ok delay ∧
        (afterAll BenchEvent.act start (e :: earlier)).watch.conditions.pendingTimer = some handle ∧
        BenchEvent.fire handle ∉ later ∧
        (clockAfter start.watch.timers.clock past).value.lt
          ((clockAfter start.watch.timers.clock earlier).add delay).value = true := by
  obtain ⟨hsingle, hclock⟩ := window_afterAll hnew.toIdle hforward
  obtain ⟨-, hexplained⟩ := explained_afterAll hnew hforward hfaultless
  rw [Watch.isIgnoring_eq, Window.isIgnoring, hclock]
  constructor
  · intro hignoring
    -- a window that is open has its timer
    have hopen : (afterAll BenchEvent.act start past).watch.window.pendingTimer ≠ none := by
      intro hnone
      have hshut := hsingle.shut hnone
      rw [Window.isIgnoring, hclock, hignoring] at hshut
      exact Bool.noConfusion hshut
    rcases hexplained with ⟨-, hnone⟩ |
      ⟨later, e, earlier, primary, delay, handle, hlatest, hdelay, htimer, hw⟩
    · exact absurd hnone hopen
    · rcases hw with ⟨hfire, -, huntil⟩ | ⟨-, hnone⟩
      · rw [huntil] at hignoring
        exact ⟨later, e, earlier, primary, delay, handle, hlatest, hdelay, htimer, hfire, hignoring⟩
      · exact absurd hnone hopen
  · rintro ⟨later, e, earlier, primary, delay, handle, hlatest, hdelay, htimer, hfire, hlt⟩
    rcases hexplained with ⟨hquiet, -⟩ |
      ⟨later', e', earlier', primary', delay', handle', hlatest', hdelay', htimer', hw⟩
    · have hnone := hquiet e earlier (hlatest.eq ▸ List.suffix_append later (e :: earlier))
      cases hnone.symm.trans hlatest.disrupts
    -- the discontinuity that explains the window is the one that is given
    · obtain ⟨rfl, rfl, rfl, rfl⟩ := hlatest.unique hlatest'
      obtain rfl := Option.some.inj (htimer.symm.trans htimer')
      cases hdelay.symm.trans hdelay'
      rcases hw with ⟨-, -, huntil⟩ | ⟨hfire', -⟩
      · rw [huntil]
        exact hlt
      · exact absurd hfire' hfire

/-- **Suppression is what the history says, and nothing gets a time meanwhile.**  At every moment
of a history without faults estimates are suppressed iff there was a discontinuity, the timer that
the last one armed has not run and its delay has not passed; and every run of the pipeline that is
made while they are suppressed makes the time remaining of every battery indeterminate, and gives
every battery that is present a snapshot with neither time and with the flag of a battery that
waits.  A run leaves the watch alone, so that they are suppressed after it iff they were during
it.  The snapshots are those that the operations themselves build: an event is what is observed of it
with the snapshots forgotten (`BenchEvent.act_eq`). -/
theorem suppression (hnew : start.New) (hforward : forward start.watch.timers.clock past)
    (hfaultless : faultless BenchEvent.act start past) :
    ((afterAll BenchEvent.act start past).watch.isIgnoring = true ↔
      ∃ later e earlier primary delay handle, Latest past later e earlier primary ∧
        primary.invalidWakeSecs.toDouble = .ok delay ∧
        (afterAll BenchEvent.act start (e :: earlier)).watch.conditions.pendingTimer = some handle ∧
        BenchEvent.fire handle ∉ later ∧
        (clockAfter start.watch.timers.clock past).value.lt
          ((clockAfter start.watch.timers.clock earlier).add delay).value = true) ∧
    ∀ (e : BenchEvent) (snapshots : List Snapshot) (m' : Monitor Bench),
      Completes e.observe (afterAll BenchEvent.act start past) (some snapshots) m' →
      m'.watch.isIgnoring = true →
      ∀ (i : Nat) (r : Reading), (readingsAfter (e :: past))[i]? = some r →
        ∃ s snapshot, m'.state? i = some s ∧ s.timeRemaining = .int indeterminate ∧
          snapshots[i]? = some snapshot ∧ snapshot.waitingForEstimates = .bool true ∧
          (r.isPresent.truth = true → snapshot.timeToEmpty = .int indeterminate ∧
            snapshot.timeToFullCharge = .int indeterminate) := by
  refine ⟨isIgnoring_iff hnew hforward hfaultless, fun e snapshots m' h hignoring i r hr => ?_⟩
  obtain ⟨hsingle, -⟩ := window_afterAll hnew.toIdle hforward
  obtain ⟨htracked, -⟩ := explained_afterAll hnew hforward hfaultless
  obtain ⟨hturned, hreadings⟩ := turned_bench hsingle htracked.fitted htracked.distinct h
  cases hturned with
  | ran hsynced hrun =>
    rw [watch_runBuilding hsynced.store.distinct hrun] at hignoring
    refine silent_run hsynced.store.distinct hignoring hrun ?_
    rw [← (passed_runBuilding hsynced.store.distinct hrun).1, hreadings, htracked.readings]
    exact hr

end Histories

/-- A battery is plugged in, which opens the window for half a minute. -/
def pluggedIn : List BenchEvent :=
  [.request (.batteriesChanged [{ externalConnected := .bool true, invalidWakeSecs := .int 30 }])]

/-- Estimates are suppressed after a battery was plugged in, and the next run gives it no time. -/
theorem suppression_pluggedIn :
    (∃ later e earlier primary delay handle, Latest pluggedIn later e earlier primary ∧
      primary.invalidWakeSecs.toDouble = .ok delay ∧
      (afterAll BenchEvent.act onBench (e :: earlier)).watch.conditions.pendingTimer = some handle ∧
      BenchEvent.fire handle ∉ later ∧ (clockAfter onBench.watch.timers.clock pluggedIn).value.lt
        ((clockAfter onBench.watch.timers.clock earlier).add delay).value = true) ∧
    ∃ snapshots m' s snapshot, Completes (BenchEvent.request .refresh).observe
        (afterAll BenchEvent.act onBench pluggedIn) (some snapshots) m' ∧
      m'.watch.isIgnoring = true ∧ m'.state? 0 = some s ∧
      s.timeRemaining = .int indeterminate ∧ snapshots[0]? = some snapshot ∧
      snapshot.timeToEmpty = .int indeterminate := by
  have hforward : forward onBench.watch.timers.clock pluggedIn := by decide +kernel
  have h := suppression new_onBench hforward (by decide +kernel)
  refine ⟨h.1.1 (by decide +kernel), ?_⟩
  obtain ⟨snapshots, hrun⟩ := completes_of_yields (BenchEvent.request .refresh).observe
    (afterAll BenchEvent.act onBench pluggedIn) (by decide +kernel)
  generalize hm : after _ _ = m' at hrun
  have hignoring : m'.watch.isIgnoring = true := by
    rw [← hm]
    decide +kernel
  obtain ⟨s, snapshot, hs, htime, hsnapshot, -, hempty⟩ := h.2 _ snapshots m' hrun hignoring 0 _ rfl
  exact ⟨snapshots, m', s, snapshot, hrun, hignoring, hs, htime, hsnapshot, (hempty rfl).1⟩

end Monitor

end BatteryMonitor
