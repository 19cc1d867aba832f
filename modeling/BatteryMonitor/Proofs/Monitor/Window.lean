import BatteryMonitor.Proofs.Monitor.Events
import BatteryMonitor.Proofs.Monitor.Frame
import BatteryMonitor.Proofs.Watch

/-!
# One timer for the window that is open

A monitor on a bench is driven by requests, by its timers, which run when they are told to, and by
its clock, which is set by hand (`Monitor.BenchEvent`).  Operations may stop with a fault
anywhere.

* `Monitor.WindowStep` : all that an event does to the suppression window, whatever its outcome.
  Only the watch has to do with the window, and nothing else in a monitor touches the watch
  (`Monitor.LeavesWatch`).
* `Window.Single` : the invariant.  The timer that is kept for the window is the only one that is
  pending, and it is due when the window ends; without a timer the window is closed.
* `Monitor.single_timer` : so it is in every state that a monitor reaches while its clock does not
  run back.  A window that is closed with no timer pending stays closed until the next
  discontinuity, and a timer that is gone never does anything again.
-/

namespace BatteryMonitor

open Effect

/-! ### The invariant -/

namespace Window

/-- The window after a timer was let run: closed, if it was the timer of the window. -/
def fired (w : Window) (handle : Nat) : Window :=
  if w.pendingTimer = some handle then { w with agenda := w.agenda.remove handle }.closed else w

/-- The timer has been armed and is not kept for the window any more. -/
def Gone (w : Window) (handle : Nat) : Prop :=
  handle ≤ w.agenda.issued ∧ w.pendingTimer ≠ some handle

/-- **The timer of the window is the only one**, and it is due when the window ends. -/
structure Single (w : Window) : Prop where
  pending : w.agenda.pending =
    (w.pendingTimer.map fun handle => ⟨handle, w.invalidUntil, .windowOver⟩).toList
  issued : ∀ handle, w.pendingTimer = some handle → handle ≤ w.agenda.issued
  shut : w.pendingTimer = none → w.isIgnoring = false

/-- What holds of the timer even if the clock runs back: it is the only one, and it is due when the
window ends. -/
structure Sole (w : Window) : Prop where
  pending : w.agenda.pending =
    (w.pendingTimer.map fun handle => ⟨handle, w.invalidUntil, .windowOver⟩).toList
  issued : ∀ handle, w.pendingTimer = some handle → handle ≤ w.agenda.issued

variable {w : Window}

theorem Single.sole (h : w.Single) : w.Sole := ⟨h.pending, h.issued⟩

theorem Sole.pending_none (h : w.Sole) (hnone : w.pendingTimer = none) :
    w.agenda.pending = [] := by
  rw [h.pending, hnone]
  rfl

theorem Sole.pending_some (h : w.Sole) {handle : Nat} (hsome : w.pendingTimer = some handle) :
    w.agenda.pending = [⟨handle, w.invalidUntil, .windowOver⟩] := by
  rw [h.pending, hsome]
  rfl

theorem Sole.disarmed_pending (h : w.Sole) : w.disarmed.pending = [] := by
  unfold disarmed
  cases htimer : w.pendingTimer with
  | none => exact h.pending_none htimer
  | some handle => simp [Agenda.cancel, Agenda.remove, h.pending_some htimer]

theorem Sole.opened (h : w.Sole) (delay : Binary64) : (w.opened delay).Sole where
  pending := by
    simp only [Window.opened, h.disarmed_pending]
    rfl
  issued handle hsome := by
    cases hsome
    exact Nat.le_refl _

theorem Sole.closed_pending (h : w.Sole) {handle : Nat} (hsome : w.pendingTimer = some handle) :
    (w.agenda.remove handle).pending = [] := by
  simp [Agenda.remove, h.pending_some hsome]

theorem Sole.fired (h : w.Sole) (handle : Nat) : (w.fired handle).Sole := by
  unfold Window.fired
  split
  · rename_i htimer
    -- its timer was the only one, so nothing is left on the agenda
    exact ⟨h.closed_pending htimer, fun _ hsome => absurd hsome.symm (Option.some_ne_none _)⟩
  · exact h

theorem Single.opened (h : w.Single) (delay : Binary64) : (w.opened delay).Single where
  pending := (h.sole.opened delay).pending
  issued := (h.sole.opened delay).issued
  shut := nofun

theorem Single.fired (h : w.Single) (handle : Nat) : (w.fired handle).Single where
  pending := (h.sole.fired handle).pending
  issued := (h.sole.fired handle).issued
  shut hnone := by
    unfold Window.fired at hnone ⊢
    split at hnone
    · rw [if_pos ‹_›]
      exact isIgnoring_closed _
    · rw [if_neg ‹_›]
      exact h.shut hnone

theorem Single.withClock (h : w.Single) {now : Binary64} (hle : w.clock.value.le now.value) :
    { w with clock := now }.Single where
  pending := h.pending
  issued := h.issued
  shut hnone := by
    have hshut := h.shut hnone
    unfold isIgnoring at hshut ⊢
    refine eq_false_of_ne_true fun hlt => ?_
    rw [Extended.lt_of_le_of_lt hle hlt] at hshut
    exact Bool.noConfusion hshut

theorem Sole.take? (h : w.Sole) (handle : Nat) : w.agenda.take? handle =
    if w.pendingTimer = some handle then some (.windowOver, w.agenda.remove handle) else none := by
  unfold Agenda.take?
  cases htimer : w.pendingTimer with
  | none => simp [h.pending_none htimer]
  | some handle' =>
    rw [h.pending_some htimer]
    by_cases hsame : handle' = handle <;> simp [hsame]

theorem Single.take? (h : w.Single) (handle : Nat) : w.agenda.take? handle =
    if w.pendingTimer = some handle then some (.windowOver, w.agenda.remove handle) else none :=
  h.sole.take? handle

end Window

namespace Monitor

/-! ### What leaves the watch alone -/

section Frames

variable {τ : Type} {α β : Type} {m : Monitor τ}

/-- The watch is the same after the operation, even if it stopped with a fault. -/
def LeavesWatch (act : M τ α) : Prop := ∀ w : Watch τ, Keeps (fun m : Monitor τ => m.watch = w) act

theorem LeavesWatch.watch_after {act : M τ α} (h : LeavesWatch act) (m : Monitor τ) :
    (after act m).watch = m.watch :=
  h m.watch m rfl

theorem watch_completes {m' : Monitor τ} {act : M τ α} {a : α} (hleaves : LeavesWatch act)
    (h : Completes act m a m') : m'.watch = m.watch :=
  h.keeps (hleaves m.watch) rfl

theorem leavesWatch_syncStates : LeavesWatch (syncStates : M τ Unit) :=
  fun w => (framed_watch w).syncStates

variable [Scheduler τ]

theorem leavesWatch_run : LeavesWatch (run : M τ Unit) := fun w => (framed_watch w).run

/-- **Running the pipeline leaves the watch alone.** -/
theorem leavesWatch_refresh : LeavesWatch (refresh : M τ Unit) := fun w => (framed_watch w).refresh

end Frames

/-! ### Events on a bench -/

/-- What happens to a monitor on a bench. -/
inductive BenchEvent where
  | request (r : Request)
  /-- a timer is let run, whatever its deadline -/
  | fire (handle : Nat)
  /-- the clock is set -/
  | tick (now : Binary64)
  /-- the hardware turns out to support the estimates of the batteries, or not -/
  | support (supported : Value)

/-- What happens to a monitor in an event. -/
def BenchEvent.act : BenchEvent → M Bench Unit
  | request r => r.act
  | fire handle => discard (Agenda.fire Monitor.handle handle)
  | tick now => modify fun m => { m with watch.timers.clock := now }
  | support supported => onWatch (Watch.adjust fun c => { c with supported })

/-- The battery at which an event is a discontinuity, if it is one: the primary battery when the
system wakes and when it comes with another power source than the one that was last seen. -/
def BenchEvent.disruption? (external : Bool) (readings : List Reading) : BenchEvent → Option Reading
  | request .wake => readings.head?
  | request r => r.brought.bind (Watch.replugged external)
  | fire _ | tick _ | support _ => none

/-- The event is a discontinuity. -/
def Disrupts (m : Monitor Bench) (e : BenchEvent) : Prop :=
  (e.disruption? m.watch.conditions.lastExternal m.readings).isSome

/-- The clock after a history. -/
def clockAfter (start : Binary64) : List BenchEvent → Binary64
  | .tick now :: _ => now
  | .request _ :: past | .fire _ :: past | .support _ :: past => clockAfter start past
  | [] => start

/-- The clock starts at zero or later and does not run back. -/
def forward (start : Binary64) : List BenchEvent → Bool
  | .tick now :: past => forward start past && (clockAfter start past).value.le now.value
  | .request _ :: past | .fire _ :: past | .support _ :: past => forward start past
  | [] => (0 : Binary64).value.le start.value

/-! ### What an event does to the window -/

/-- **One step of the window.** -/
inductive WindowStep (m : Monitor Bench) : BenchEvent → Window → Prop
  | rested (r : Request) : WindowStep m (.request r) m.watch.window
  | disrupted (r : Request) (delay : Binary64) (h : Disrupts m (.request r)) :
    WindowStep m (.request r) (m.watch.window.opened delay)
  | fired (handle : Nat) : WindowStep m (.fire handle) (m.watch.window.fired handle)
  | ticked (now : Binary64) : WindowStep m (.tick now) { m.watch.window with clock := now }
  | supported (v : Value) : WindowStep m (.support v) m.watch.window

section Steps

variable {m : Monitor Bench}

theorem watch_after_bind {τ α β : Type} {m : Monitor τ} {x : M τ α} {f : α → M τ β}
    (hf : ∀ a, LeavesWatch (f a)) : (after (x >>= f) m).watch = (after x m).watch := by
  rw [after_bind]
  split
  · exact (hf _).watch_after _
  · rfl

theorem watch_after_onWatch {τ α : Type} (act : Watch.M τ α) (m : Monitor τ) :
    (after (onWatch act) m).watch = after act m.watch := by
  unfold after
  rw [run_onWatch]

/-- A new list reaches the watch, unless fitting the states to it stops with a fault. -/
theorem watch_after_batteriesChanged (rs : List Reading) (m : Monitor Bench) :
    (after (batteriesChanged rs) m).watch = m.watch ∨
      (after (batteriesChanged rs) m).watch = after (Watch.batteriesChanged rs) m.watch := by
  have hstart : after (batteriesChanged rs) m = after (do
      syncStates
      onWatch (Watch.batteriesChanged rs)
      refresh) { m with readings := rs } := rfl
  have hsync := leavesWatch_syncStates.watch_after { m with readings := rs }
  rw [hstart, after_bind]
  split
  · rw [watch_after_bind fun _ => leavesWatch_refresh, watch_after_onWatch, hsync]
    exact .inr rfl
  · exact .inl hsync

theorem step_batteriesChanged (r : Request) (rs : List Reading)
    (hr : BenchEvent.disruption? m.watch.conditions.lastExternal m.readings (.request r) =
      Watch.replugged m.watch.conditions.lastExternal rs) :
    WindowStep m (.request r) (after (batteriesChanged rs) m).watch.window := by
  have hcases : (after (batteriesChanged rs) m).watch.window = m.watch.window ∨
      (Watch.replugged m.watch.conditions.lastExternal rs).isSome ∧
        ∃ delay, (after (batteriesChanged rs) m).watch.window = m.watch.window.opened delay := by
    rcases watch_after_batteriesChanged rs m with hwindow | hwindow
    · exact .inl (by rw [hwindow])
    · rw [hwindow]
      rcases Watch.after_batteriesChanged m.watch rs with hsame | hdisrupted
      · exact .inl hsame
      · exact hdisrupted.same_or_opened
  rcases hcases with hsame | ⟨hsome, delay, hopened⟩
  · rw [hsame]
    exact .rested r
  · rw [hopened]
    exact .disrupted r delay (by rw [Disrupts, hr]; exact hsome)

theorem step_request (r : Request) : WindowStep m (.request r) (after r.act m).watch.window := by
  cases r with
  | prime found =>
    rcases found with _ | ⟨_ | ⟨primary, rest⟩⟩
    · exact .rested _
    · exact .rested _
    · exact step_batteriesChanged _ (primary :: rest) rfl
  | batteriesChanged rs => exact step_batteriesChanged _ rs rfl
  | wake =>
    have hstart : after (Request.wake.act (τ := Bench)) m = after (
        if m.readings.isEmpty then pure ()
        else do
          onWatch Watch.suppress
          run) m := rfl
    rw [hstart]
    split
    · exact .rested _
    · rename_i hsome
      rw [watch_after_bind fun _ => leavesWatch_run, watch_after_onWatch]
      have hdisrupts : Disrupts m (.request .wake) := by
        cases hreadings : m.readings with
        | nil => rw [hreadings] at hsome; exact absurd rfl hsome
        | cons primary rest => simp [Disrupts, BenchEvent.disruption?, hreadings]
      have hcases := (Watch.after_suppress m.watch).elim .inl (·.same_or_opened)
      rcases hcases with hsame | ⟨-, delay, hopened⟩
      · rw [hsame]
        exact .rested _
      · rw [hopened]
        exact .disrupted _ delay hdisrupts
  | refresh =>
    rw [show (after Request.refresh.act m).watch = m.watch from leavesWatch_refresh.watch_after m]
    exact .rested _

theorem run_fire {σ : Type} [HasAgenda σ] (handleAlarm : Alarm → Effect σ Unit) (handle : Nat)
    (s : σ) : (discard (Agenda.fire handleAlarm handle)).run.run s =
      match (HasAgenda.agenda s).take? handle with
      | none => (.ok (), s)
      | some (alarm, agenda) => (handleAlarm alarm).run.run (HasAgenda.setAgenda agenda s) := by
  have hstart : (discard (Agenda.fire handleAlarm handle)).run.run s = (discard
      (match (HasAgenda.agenda s).take? handle with
      | none => return false
      | some (alarm, agenda) => do
        set (HasAgenda.setAgenda agenda s)
        handleAlarm alarm
        return true : Effect σ Bool)).run.run s := rfl
  rw [hstart]
  cases (HasAgenda.agenda s).take? handle with
  | none => rfl
  | some taken =>
    simp only [discard_eq, bind_assoc, pure_bind, bind_pure_unit]
    rfl

/-- The monitor without one of its timers. -/
def withoutTimer (m : Monitor Bench) (handle : Nat) : Monitor Bench :=
  { m with watch := { m.watch with timers := { m.watch.timers with
    agenda := m.watch.timers.agenda.remove handle } } }

/-- **A timer that is let run** is the timer of the window, or is gone and does nothing. -/
theorem run_act_fire_of_sole (hsole : m.watch.window.Sole) (handle : Nat) :
    (BenchEvent.fire handle).act.run.run m =
      if m.watch.window.pendingTimer = some handle then
        windowOver.run.run (m.withoutTimer handle)
      else (.ok (), m) := by
  rw [BenchEvent.act, run_fire,
    show (HasAgenda.agenda m).take? handle = _ from hsole.take? handle]
  by_cases h : m.watch.window.pendingTimer = some handle
  · rw [if_pos h, if_pos h]
    rfl
  · rw [if_neg h, if_neg h]

theorem run_act_fire (hsingle : m.watch.window.Single) (handle : Nat) :
    (BenchEvent.fire handle).act.run.run m =
      if m.watch.window.pendingTimer = some handle then
        windowOver.run.run (m.withoutTimer handle)
      else (.ok (), m) :=
  run_act_fire_of_sole hsingle.sole handle

/-- **An event does one step to the window**, whether it completes or stops with a fault. -/
theorem step_act (hsole : m.watch.window.Sole) (e : BenchEvent) :
    WindowStep m e (after e.act m).watch.window := by
  cases e with
  | request r => exact step_request r
  | fire handle =>
    have hfired : (after (BenchEvent.fire handle).act m).watch.window =
        m.watch.window.fired handle := by
      rw [after, run_act_fire_of_sole hsole, Window.fired]
      split
      · have hwatch := watch_after_bind (fun _ => leavesWatch_refresh)
          (x := onWatch Watch.windowOver) (m := m.withoutTimer handle)
        rw [watch_after_onWatch, Watch.after_windowOver] at hwatch
        exact congrArg Watch.window hwatch
      · rfl
    rw [hfired]
    exact .fired handle
  | tick now => exact .ticked now
  | support v => exact .supported v

/-! ### What steps keep -/

namespace WindowStep

variable {e : BenchEvent} {w : Window}

theorem single (h : WindowStep m e w) (hsingle : m.watch.window.Single)
    (hclock : ∀ now, e = .tick now → m.watch.window.clock.value.le now.value) : w.Single := by
  cases h with
  | rested _ | supported _ => exact hsingle
  | disrupted _ delay _ => exact hsingle.opened delay
  | fired handle => exact hsingle.fired handle
  | ticked now => exact hsingle.withClock (hclock now rfl)

theorem sole (h : WindowStep m e w) (hsole : m.watch.window.Sole) : w.Sole := by
  cases h with
  | rested _ | supported _ => exact hsole
  | disrupted _ delay _ => exact hsole.opened delay
  | fired handle => exact hsole.fired handle
  | ticked now => exact ⟨hsole.pending, hsole.issued⟩

theorem clock (h : WindowStep m e w) : w.clock = clockAfter m.watch.window.clock [e] := by
  cases h with
  | rested _ | supported _ | disrupted _ _ _ | ticked _ => rfl
  | fired handle =>
    unfold Window.fired
    split <;> rfl

theorem pendingTimer_none (h : WindowStep m e w) (hsteady : ¬ Disrupts m e)
    (hnone : m.watch.window.pendingTimer = none) : w.pendingTimer = none := by
  cases h with
  | rested _ | supported _ | ticked _ => exact hnone
  | disrupted _ _ hdisrupts => exact absurd hdisrupts hsteady
  | fired handle =>
    unfold Window.fired
    split
    · rfl
    · exact hnone

/-- A timer that is gone stays gone: a new one gets a new handle. -/
theorem gone (h : WindowStep m e w) {handle : Nat} (hgone : m.watch.window.Gone handle) :
    w.Gone handle := by
  cases h with
  | rested _ | supported _ | ticked _ => exact hgone
  | disrupted _ delay _ =>
    refine ⟨Nat.le_succ_of_le hgone.1, fun hsome => ?_⟩
    -- the new handle is above all that have been issued
    have heq : m.watch.window.agenda.issued + 1 = handle := Option.some.inj hsome
    have hle := hgone.1
    omega
  | fired _ =>
    unfold Window.fired
    split
    · exact ⟨hgone.1, (Option.some_ne_none _).symm⟩
    · exact hgone

end WindowStep

end Steps

/-! ### Histories on a bench -/

/-- No window has been opened yet. -/
structure Idle (m : Monitor Bench) : Prop where
  invalidUntil : m.watch.conditions.invalidUntil = 0
  pendingTimer : m.watch.conditions.pendingTimer = none
  pending : m.watch.timers.agenda.pending = []

theorem idle_onBench : onBench.Idle := ⟨rfl, rfl, rfl⟩

theorem forward_cons {start : Binary64} {e : BenchEvent} {past : List BenchEvent}
    (h : forward start (e :: past)) : forward start past ∧
      ∀ now, e = .tick now → (clockAfter start past).value.le now.value := by
  cases e with
  | tick now =>
    rw [forward, Bool.and_eq_true] at h
    refine ⟨h.1, ?_⟩
    rintro _ ⟨⟩
    exact h.2
  | request _ | fire _ | support _ =>
    rw [forward] at h
    exact ⟨h, fun now he => by cases he⟩

theorem clockAfter_cons (start : Binary64) (e : BenchEvent) (past : List BenchEvent) :
    clockAfter start (e :: past) = clockAfter (clockAfter start past) [e] := by
  cases e <;> rfl

section Histories

variable {start : Monitor Bench} {past later : List BenchEvent}

theorem Idle.single (h : start.Idle)
    (hstart : (0 : Binary64).value.le start.watch.timers.clock.value) :
    start.watch.window.Single where
  pending := by
    rw [show start.watch.window.pendingTimer = none from h.pendingTimer]
    exact h.pending
  issued handle hsome := by
    rw [show start.watch.window.pendingTimer = none from h.pendingTimer] at hsome
    cases hsome
  shut _ := by
    refine eq_false_of_ne_true fun hlt => ?_
    unfold Window.isIgnoring at hlt
    rw [show start.watch.window.invalidUntil = 0 from h.invalidUntil] at hlt
    have habsurd := Extended.lt_of_le_of_lt hstart hlt
    rw [Extended.lt_irrefl] at habsurd
    exact Bool.noConfusion habsurd

theorem sole_afterAll (hsole : start.watch.window.Sole) : ∀ past : List BenchEvent,
    (afterAll BenchEvent.act start past).watch.window.Sole
  | [] => hsole
  | e :: past => (step_act (sole_afterAll hsole past) e).sole (sole_afterAll hsole past)

theorem window_afterAll (hidle : start.Idle) (hforward : forward start.watch.timers.clock past) :
    (afterAll BenchEvent.act start past).watch.window.Single ∧
      (afterAll BenchEvent.act start past).watch.window.clock =
        clockAfter start.watch.timers.clock past := by
  induction past with
  | nil =>
    rw [forward] at hforward
    exact ⟨hidle.single hforward, rfl⟩
  | cons e past ih =>
    obtain ⟨hpast, hnow⟩ := forward_cons hforward
    obtain ⟨hsingle, hclock⟩ := ih hpast
    -- the step needs the invariant before it, to know which timer may run
    have hstep := step_act hsingle.sole e
    refine ⟨hstep.single hsingle fun now he => hclock ▸ hnow now he, ?_⟩
    rw [clockAfter_cons, ← hclock]
    exact hstep.clock

theorem pendingTimer_none_afterAll (hidle : start.Idle)
    (hnone : (afterAll BenchEvent.act start past).watch.window.pendingTimer = none)
    (hforward : forward start.watch.timers.clock (later ++ past))
    (hsteady : ∀ e between, e :: between <:+ later →
      ¬ Disrupts (afterAll BenchEvent.act start (between ++ past)) e) :
    (afterAll BenchEvent.act start (later ++ past)).watch.window.pendingTimer = none := by
  induction later with
  | nil => exact hnone
  | cons e later ih =>
    have hrest := (forward_cons hforward).1
    obtain ⟨hlast, hlater⟩ := forall_suffix_cons.1 hsteady
    have hstep := step_act (window_afterAll hidle hrest).1.sole e
    exact hstep.pendingTimer_none hlast (ih hrest hlater)

theorem gone_afterAll {handle : Nat} (hidle : start.Idle)
    (hgone : (afterAll BenchEvent.act start past).watch.window.Gone handle)
    (hforward : forward start.watch.timers.clock (later ++ past)) :
    (afterAll BenchEvent.act start (later ++ past)).watch.window.Gone handle := by
  induction later with
  | nil => exact hgone
  | cons e later ih =>
    have hrest := (forward_cons hforward).1
    exact (step_act (window_afterAll hidle hrest).1.sole e).gone (ih hrest)

/-- **One timer, never lost, never stale.**  In every state that is reached by requests that may
stop with faults, by timers that run at any time and by a clock that does not run back:

* at most one timer is pending, it is the one that is kept for the window, and it is due when the
  window ends;
* when none is pending the window is closed, and stays closed until the next discontinuity;
* a timer that was armed and is not pending any more does nothing when it is told to run, now or
  later. -/
theorem single_timer (hidle : start.Idle) (hforward : forward start.watch.timers.clock past) :
    let m := afterAll BenchEvent.act start past
    m.watch.timers.agenda.pending.length ≤ 1 ∧
    m.watch.conditions.pendingTimer = m.watch.timers.agenda.pending.head?.map (·.handle) ∧
    (∀ t ∈ m.watch.timers.agenda.pending, t.deadline = m.watch.conditions.invalidUntil) ∧
    (m.watch.timers.agenda.pending = [] → ∀ later,
      forward start.watch.timers.clock (later ++ past) →
      (∀ e between, e :: between <:+ later →
        ¬ Disrupts (afterAll BenchEvent.act start (between ++ past)) e) →
      (afterAll BenchEvent.act start (later ++ past)).watch.isIgnoring = false) ∧
    (∀ handle ≤ m.watch.timers.agenda.issued,
      (∀ t ∈ m.watch.timers.agenda.pending, t.handle ≠ handle) → ∀ later,
      forward start.watch.timers.clock (later ++ past) →
      (BenchEvent.fire handle).act.run.run (afterAll BenchEvent.act start (later ++ past)) =
        (.ok (), afterAll BenchEvent.act start (later ++ past))) := by
  intro m
  have hsingle : m.watch.window.Single := (window_afterAll hidle hforward).1
  have hpending : m.watch.timers.agenda.pending =
      (m.watch.conditions.pendingTimer.map fun handle =>
        ⟨handle, m.watch.conditions.invalidUntil, .windowOver⟩).toList := hsingle.pending
  have hnone (h : m.watch.timers.agenda.pending = []) :
      m.watch.conditions.pendingTimer = none := by
    rw [hpending] at h
    cases htimer : m.watch.conditions.pendingTimer with
    | none => rfl
    | some handle => rw [htimer] at h; cases h
  refine ⟨?_, ?_, ?_, fun hempty later hlater hsteady => ?_,
    fun handle hissued hother later hlater => ?_⟩
  · rw [hpending]
    cases m.watch.conditions.pendingTimer <;> simp
  · rw [hpending]
    cases m.watch.conditions.pendingTimer <;> rfl
  · rw [hpending]
    cases m.watch.conditions.pendingTimer <;> simp
  -- no timer comes back without a discontinuity, and without one the window is shut
  · exact (window_afterAll hidle hlater).1.shut
      (pendingTimer_none_afterAll hidle (hnone hempty) hlater hsteady)
  · have hgone : m.watch.window.Gone handle := by
      refine ⟨hissued, fun hsome => ?_⟩
      rw [hpending, show m.watch.conditions.pendingTimer = some handle from hsome] at hother
      exact hother _ List.mem_cons_self rfl
    rw [run_act_fire (window_afterAll hidle hlater).1,
      if_neg (gone_afterAll hidle hgone hlater).2]

end Histories

/-- A battery is plugged in, and the timer of its window runs. -/
def pluggedInAndOver : List BenchEvent :=
  [.fire 1, .request (.batteriesChanged
    [{ externalConnected := .bool true, invalidWakeSecs := .int 30 }])]

/-- Once the timer has run, the window stays closed when the clock goes on, and the timer does not
run again. -/
theorem single_timer_pluggedInAndOver :
    (afterAll BenchEvent.act onBench pluggedInAndOver).watch.timers.agenda.pending.length ≤ 1 ∧
    (afterAll BenchEvent.act onBench (.tick 1 :: pluggedInAndOver)).watch.isIgnoring = false ∧
    (BenchEvent.fire 1).act.run.run (afterAll BenchEvent.act onBench pluggedInAndOver) =
      (.ok (), afterAll BenchEvent.act onBench pluggedInAndOver) := by
  have hforward : forward onBench.watch.timers.clock pluggedInAndOver := by decide +kernel
  obtain ⟨hlength, -, -, hshut, hgone⟩ := single_timer idle_onBench hforward
  exact ⟨hlength, hshut (by decide +kernel) [.tick 1] (by decide +kernel)
    (forall_suffix_cons.2 ⟨Bool.false_ne_true, forall_suffix_nil⟩),
    hgone 1 (by decide +kernel) (by decide +kernel) [] (by decide +kernel)⟩

end Monitor

end BatteryMonitor
