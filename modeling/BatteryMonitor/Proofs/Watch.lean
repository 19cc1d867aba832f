import BatteryMonitor.Proofs.Effect
import BatteryMonitor.Watch

/-!
# The suppression window on a bench

Of a watch on a bench only four things have to do with the window: the clock, the agenda, the end
of the window and the timer that is kept for it (`Window`).  An operation on the watch does
one of three things to them, whether it completes or stops with a fault:

* nothing;
* a discontinuity opens the window anew, with a timer for its end in place of the one that was
  pending (`Window.opened`, `Watch.run_suppress`);
* the timer that has run closes it (`Window.closed`, `Watch.run_windowOver`).

A new list opens the window iff its primary battery is on another power source than the one that
was last seen (`Watch.run_batteriesChanged`).
-/

namespace BatteryMonitor

open Effect

theorem Extended.lt_irrefl (a : Extended) : a.lt a = false := by
  cases a <;> simp [Extended.lt]

theorem Extended.lt_of_le_of_lt {a b c : Extended} (hab : a.le b = true) (hbc : b.lt c = true) :
    a.lt c = true := by
  cases a <;> cases b <;> cases c <;> simp_all [Extended.le, Extended.lt, Extended.eq]
  rename_i p q r
  rcases hab with hab | rfl
  · exact Std.lt_trans hab hbc
  · exact hbc

/-- What of a watch has to do with the suppression window. -/
structure Window where
  clock : Binary64
  agenda : Agenda
  invalidUntil : Binary64
  pendingTimer : Option Nat

namespace Window

/-- Estimates are suppressed. -/
def isIgnoring (w : Window) : Bool :=
  w.clock.value.lt w.invalidUntil.value

/-- The agenda without the timer of the window. -/
def disarmed (w : Window) : Agenda :=
  match w.pendingTimer with
  | some handle => w.agenda.cancel handle
  | none => w.agenda

/-- The window opened anew for a delay from now, with a timer for its end. -/
def opened (w : Window) (delay : Binary64) : Window where
  clock := w.clock
  agenda := { w.disarmed with
    issued := w.agenda.issued + 1
    pending := w.disarmed.pending ++ [⟨w.agenda.issued + 1, w.clock.add delay, .windowOver⟩] }
  invalidUntil := w.clock.add delay
  pendingTimer := some (w.agenda.issued + 1)

/-- The window after its timer has run. -/
def closed (w : Window) : Window :=
  { w with
    invalidUntil := if w.isIgnoring then w.clock else w.invalidUntil
    pendingTimer := none }

theorem isIgnoring_closed (w : Window) : w.closed.isIgnoring = false := by
  unfold closed isIgnoring
  dsimp only
  split
  · exact Extended.lt_irrefl _
  · rename_i h
    exact eq_false_of_ne_true h

end Window

namespace Watch

/-- The window of a watch. -/
def window (w : Watch Bench) : Window :=
  ⟨w.timers.clock, w.timers.agenda, w.conditions.invalidUntil, w.conditions.pendingTimer⟩

/-- The watch with another window. -/
def withWindow (w : Watch Bench) (window : Window) : Watch Bench :=
  { w with
    timers := ⟨window.clock, window.agenda⟩
    conditions := { w.conditions with
      invalidUntil := window.invalidUntil
      pendingTimer := window.pendingTimer } }

theorem isIgnoring_eq (w : Watch Bench) : w.isIgnoring = w.window.isIgnoring := rfl

/-- **A discontinuity opens the window**, unless there is no battery or its delay is no number. -/
theorem run_suppress (w : Watch Bench) : suppress.run.run w =
    match w.primary with
    | none => (.ok (), w)
    | some primary =>
      match primary.invalidWakeSecs.toDouble with
      | .error fault => (.error fault, w)
      | .ok delay => (.ok (), w.withWindow (w.window.opened delay)) := by
  obtain ⟨conditions, primary, timers⟩ := w
  cases primary with
  | none => rfl
  | some primary =>
    have hstart : (suppress : Watch.M Bench Unit).run.run ⟨conditions, some primary, timers⟩ =
        (match primary.invalidWakeSecs.toDouble with
        | .error fault => throw fault
        | .ok delay => do
          adjust fun c => { c with invalidUntil := timers.clock.add delay }
          disarm
          let handle ← arm (.float delay) .windowOver
          adjust fun c => { c with pendingTimer := some handle } : Watch.M Bench Unit).run.run
            ⟨conditions, some primary, timers⟩ := rfl
    rw [hstart]
    dsimp only
    -- once the delay is there nothing can fail, whether or not a timer is pending
    cases primary.invalidWakeSecs.toDouble with
    | error fault => rfl
    | ok delay =>
      obtain ⟨_, _, _, _, _, pendingTimer⟩ := conditions
      cases pendingTimer <;> rfl

/-- **The timer closes the window.** -/
theorem run_windowOver (w : Watch Bench) :
    windowOver.run.run w = (.ok (), w.withWindow w.window.closed) := by
  have hstart : windowOver.run.run w = (Except.ok (), { w with
      conditions := { w.conditions with pendingTimer := none }.closeWindow w.now }) := rfl
  rw [hstart]
  unfold Conditions.closeWindow
  split
  · rename_i h
    have hignoring : w.window.isIgnoring = true := h
    simp only [withWindow, Window.closed, hignoring, if_true]
    rfl
  · rename_i h
    have hignoring : w.window.isIgnoring = false := eq_false_of_ne_true h
    simp only [withWindow, Window.closed, hignoring]
    rfl

theorem after_windowOver (w : Watch Bench) :
    after windowOver w = w.withWindow w.window.closed := by
  rw [after, run_windowOver]

/-- The watch that has seen the primary battery of a list. -/
def seen (w : Watch Bench) (primary : Reading) : Watch Bench :=
  { w with conditions := { w.conditions with
      lastExternal := primary.externalConnected.truth
      useFirmware :=
        if primary.isPresent.truth && !w.conditions.lastPresent then
          .bool (primary.isTrusted w.conditions.supported)
        else w.conditions.useFirmware
      lastPresent := primary.isPresent.truth } }

/-- Sees the primary battery of a list. -/
def see (primary : Reading) : Watch.M Bench Unit := do
  adjust fun c => { c with lastExternal := primary.externalConnected.truth }
  if primary.isPresent.truth && !(← get).conditions.lastPresent then
    adjust fun c => { c with useFirmware := .bool (primary.isTrusted c.supported) }
  adjust fun c => { c with lastPresent := primary.isPresent.truth }

theorem run_see (w : Watch Bench) (primary : Reading) :
    (see primary).run.run w = (.ok (), w.seen primary) := by
  have hstart : (see primary).run.run w =
      (if primary.isPresent.truth && !w.conditions.lastPresent then do
        adjust fun c => { c with useFirmware := .bool (primary.isTrusted c.supported) }
        adjust fun c => { c with lastPresent := primary.isPresent.truth }
      else adjust fun c => { c with lastPresent := primary.isPresent.truth } :
        Watch.M Bench Unit).run.run { w with conditions := { w.conditions with
          lastExternal := primary.externalConnected.truth } } := rfl
  rw [hstart]
  unfold seen
  split <;> rfl

/-- **A new list opens the window** iff its primary battery is on another power source than the
last one. -/
theorem run_batteriesChanged (w : Watch Bench) (primary : Reading) (rest : List Reading) :
    (batteriesChanged (primary :: rest)).run.run w =
      if primary.externalConnected.truth = w.conditions.lastExternal then
        (.ok (), ({ w with primary := some primary } : Watch Bench).seen primary)
      else
        match suppress.run.run { w with primary := some primary } with
        | (.ok _, t) => (.ok (), t.seen primary)
        | (.error fault, t) => (.error fault, t) := by
  have hstart : (batteriesChanged (primary :: rest)).run.run w =
      (if primary.externalConnected.truth != w.conditions.lastExternal then do
        suppress
        see primary
      else see primary).run.run { w with primary := some primary } := rfl
  rw [hstart]
  by_cases h : primary.externalConnected.truth = w.conditions.lastExternal
  · rw [if_pos h, if_neg (by simpa using h), run_see]
  · rw [if_neg h, if_pos (by simpa using h), run_bind]
    rcases suppress.run.run { w with primary := some primary } with ⟨_ | _, t⟩
    · rfl
    · exact run_see t primary

/-! ### What becomes of the window -/

/-- The primary battery of a new list, if it is on another power source than the last one. -/
def replugged (external : Bool) : List Reading → Option Reading
  | [] => none
  | primary :: _ => if primary.externalConnected.truth = external then none else some primary

/-- The window after a discontinuity at a battery, if there is one: opened for the delay of the
battery. -/
def Disrupted (window : Window) : Option Reading → Window → Prop
  | none, window' => window' = window
  | some primary, window' =>
    ∃ delay, primary.invalidWakeSecs.toDouble = .ok delay ∧ window' = window.opened delay

theorem Disrupted.same_or_opened {window window' : Window} {primary : Option Reading}
    (h : Disrupted window primary window') :
    window' = window ∨ primary.isSome ∧ ∃ delay, window' = window.opened delay := by
  cases primary with
  | none => exact .inl h
  | some primary =>
    obtain ⟨delay, -, hopened⟩ := h
    exact .inr ⟨rfl, delay, hopened⟩

theorem after_suppress (w : Watch Bench) :
    (after suppress w).window = w.window ∨
      Disrupted w.window w.primary (after suppress w).window := by
  unfold after
  rw [run_suppress]
  cases w.primary with
  | none => exact .inl rfl
  | some primary =>
    cases hdelay : primary.invalidWakeSecs.toDouble with
    | error fault => simp only [hdelay, true_or]
    | ok delay => simp only [hdelay]; exact .inr ⟨delay, hdelay, rfl⟩

theorem completes_suppress {w w' : Watch Bench} (h : Completes suppress w () w') :
    Disrupted w.window w.primary w'.window ∧ w'.primary = w.primary ∧
      w'.conditions.lastExternal = w.conditions.lastExternal := by
  unfold Completes at h
  rw [run_suppress] at h
  cases hprimary : w.primary with
  | none =>
    rw [hprimary] at h
    cases h
    exact ⟨rfl, hprimary, rfl⟩
  | some primary =>
    rw [hprimary] at h
    cases hdelay : primary.invalidWakeSecs.toDouble with
    | error fault => simp only [hdelay] at h; cases h
    | ok delay =>
      simp only [hdelay] at h
      cases h
      exact ⟨⟨delay, hdelay, rfl⟩, hprimary, rfl⟩

theorem after_batteriesChanged (w : Watch Bench) (rs : List Reading) :
    (after (batteriesChanged rs) w).window = w.window ∨
      Disrupted w.window (replugged w.conditions.lastExternal rs)
        (after (batteriesChanged rs) w).window := by
  cases rs with
  | nil => exact .inl rfl
  | cons primary rest =>
    unfold after
    rw [run_batteriesChanged, replugged]
    split
    · exact .inl rfl
    · have hsuppress := after_suppress { w with primary := some primary }
      unfold after at hsuppress
      rcases hrun : suppress.run.run { w with primary := some primary } with ⟨_ | _, t⟩
      · rw [hrun] at hsuppress; exact hsuppress
      · rw [hrun] at hsuppress; exact hsuppress

/-- **A new list that is taken without a fault** is a discontinuity iff its primary battery is on
another power source than the last one. -/
theorem completes_batteriesChanged {w w' : Watch Bench} {rs : List Reading}
    (h : Completes (batteriesChanged rs) w () w') :
    Disrupted w.window (replugged w.conditions.lastExternal rs) w'.window ∧
      w'.primary = rs.head? ∧ w'.conditions.lastExternal =
        (rs.head?.map (·.externalConnected.truth)).getD w.conditions.lastExternal := by
  cases rs with
  | nil => cases h; exact ⟨rfl, rfl, rfl⟩
  | cons primary rest =>
    unfold Completes at h
    rw [run_batteriesChanged] at h
    rw [replugged]
    split at h
    · rename_i hsame
      cases h
      rw [if_pos hsame]
      exact ⟨rfl, rfl, rfl⟩
    · rename_i hother
      rw [if_neg hother]
      cases hrun : suppress.run.run { w with primary := some primary } with
      | mk result t =>
        rw [hrun] at h
        cases result with
        | error fault => cases h
        | ok u =>
          cases h
          obtain ⟨hwindow, hprimary, -⟩ := completes_suppress hrun
          exact ⟨hwindow, hprimary, rfl⟩

end Watch

end BatteryMonitor
