import BatteryMonitor.Proofs.Monitor.Outcome
import BatteryMonitor.Proofs.Monitor.Suppression

/-!
# Expiry and poll in either order

When the suppression window is over, its timer and the next poll may be due at the same moment, and
either may come first.  If the timer comes first the pipeline runs on the old readings once more; if
the poll comes first it may be a discontinuity, and then the timer is taken back before it runs.
Still the two orders meet (`Monitor.expiry_commutes`):

* the window is the same in the end (`Window.meet`): without a discontinuity the timer only closes a
  window that is over, and with one the window that is opened does not depend on the one before;
* the run on the old readings leaves a monitor that is akin to the one before it, so that the new
  list makes the same of both (`Monitor.Akin.batteriesChanged_eq`);
* the timer that runs after the poll finds the monitor at rest (`Monitor.Fired.of_atRest`).
-/

namespace BatteryMonitor

open Effect

/-! ### The window -/

theorem Window.isIgnoring_of_reached {w : Window}
    (h : w.invalidUntil.value.le w.clock.value = true) : w.isIgnoring = false := by
  refine eq_false_of_ne_true fun hlt => ?_
  have habsurd := Extended.lt_of_le_of_lt h hlt
  rw [Extended.lt_irrefl] at habsurd
  exact Bool.noConfusion habsurd

theorem Window.fired_of_over {w : Window} {handle : Nat} (htimer : w.pendingTimer = some handle)
    (hover : w.isIgnoring = false) : w.fired handle =
      { w with agenda := w.agenda.remove handle, pendingTimer := none } := by
  have hover' : ({ w with agenda := w.agenda.remove handle } : Window).isIgnoring = false := hover
  rw [fired, if_pos htimer, closed, hover']
  rfl

/-- **The window is the same in either order**: where the poll left `a` before the timer was let
run, and `b` after it. -/
theorem Window.meet {w a b : Window} {handle : Nat} {primary : Option Reading} (hsole : w.Sole)
    (htimer : w.pendingTimer = some handle) (hover : w.isIgnoring = false)
    (ha : Watch.Disrupted w primary a) (hb : Watch.Disrupted (w.fired handle) primary b) :
    b.isIgnoring = a.isIgnoring ∧ (a.fired handle).isIgnoring = a.isIgnoring ∧
      (a.fired handle).invalidUntil = b.invalidUntil ∧
      (a.fired handle).pendingTimer = b.pendingTimer ∧
      (a.fired handle).agenda.pending = b.agenda.pending := by
  cases primary with
  | none =>
    obtain rfl : a = w := ha
    obtain rfl : b = a.fired handle := hb
    rw [fired_of_over htimer hover]
    exact ⟨rfl, rfl, rfl, rfl, rfl⟩
  | some primary =>
    obtain ⟨delay, hdelay, rfl⟩ := ha
    obtain ⟨delay', hdelay', rfl⟩ := hb
    cases hdelay.symm.trans hdelay'
    -- the timer was taken back, and the new one has another handle
    have hother : (w.opened delay).pendingTimer ≠ some handle := by
      intro hsame
      have hissued := hsole.issued handle htimer
      have heq : w.agenda.issued + 1 = handle := Option.some.inj hsame
      omega
    have hempty := (hsole.fired handle).disarmed_pending
    rw [fired_of_over htimer hover] at hempty ⊢
    rw [fired, if_neg hother]
    refine ⟨rfl, rfl, rfl, rfl, ?_⟩
    simp only [opened, hsole.disarmed_pending, hempty]
    rfl

theorem Watch.conditions_eq {w w' : Watch Bench} (houtlook : w.outlook = w'.outlook)
    (huntil : w.window.invalidUntil = w'.window.invalidUntil)
    (htimer : w.window.pendingTimer = w'.window.pendingTimer) : w.conditions = w'.conditions := by
  obtain ⟨⟨_, _, _, _, _, _⟩, _, _⟩ := w
  obtain ⟨⟨_, _, _, _, _, _⟩, _, _⟩ := w'
  cases houtlook
  cases huntil
  cases htimer
  rfl

namespace Monitor

variable {m m' n n' : Monitor Bench} {keyOf : Nat → Text} {handle : Nat} {rs : List Reading}

/-! ### A timer that is let run -/

/-- **What a timer that is let run does**: if it is the timer of the window, it closes the window
and runs the pipeline, and else nothing. -/
structure Fired (m : Monitor Bench) (handle : Nat) (m' : Monitor Bench) : Prop where
  window : m'.watch.window = m.watch.window.fired handle
  outlook : m'.watch.outlook = m.watch.outlook
  refreshed : Completes refresh { m with watch := m'.watch } () m' ∨ m' = m

theorem fired_act (hsole : m.watch.window.Sole)
    (h : Completes (BenchEvent.fire handle).act m () m') : Fired m handle m' := by
  unfold Completes at h
  rw [run_act_fire_of_sole hsole] at h
  split at h
  · rename_i htimer
    obtain ⟨u, t, hwatch, hrefresh⟩ := completes_bind.1 h
    obtain ⟨watch, hover, rfl⟩ := completes_onWatch.1 hwatch
    have houtlook : watch.outlook = m.watch.outlook :=
      hover.keeps (Watch.keeps_outlook_windowOver _) rfl
    have hclosed := hover.after_eq
    rw [Watch.after_windowOver] at hclosed
    have hwatch' : m'.watch = watch := watch_completes leavesWatch_refresh hrefresh
    refine ⟨?_, by rw [hwatch', houtlook], .inl (by rw [hwatch']; exact hrefresh)⟩
    rw [hwatch', ← hclosed, Window.fired, if_pos htimer]
    rfl
  · rename_i htimer
    cases h
    exact ⟨by rw [Window.fired, if_neg htimer], rfl, .inr rfl⟩

theorem Fired.lastExternal (h : Fired m handle m') :
    m'.watch.conditions.lastExternal = m.watch.conditions.lastExternal :=
  congrArg Outlook.lastExternal h.outlook

/-- At rest a timer changes the watch only, as long as estimates are suppressed or not as before. -/
theorem Fired.of_atRest (h : Fired m handle m') (hrest : m.AtRest)
    (hignoring : m'.watch.isIgnoring = m.watch.isIgnoring) : m' = { m with watch := m'.watch } := by
  rcases h.refreshed with hrefresh | heq
  · have hfirmware : m.watch.conditions.useFirmware = m'.watch.conditions.useFirmware :=
      congrArg Outlook.useFirmware h.outlook.symm
    have hrest' : ({ m with watch := m'.watch } : Monitor Bench).AtRest :=
      hrest.congr rfl rfl hfirmware hignoring.symm fun i r hr => ⟨r, hr, .refl r⟩
    exact hrefresh.unique (completes_refresh_self hrest')
  · rw [heq]

theorem Fired.akin (hinj : Function.Injective keyOf) (hm : m.Poised keyOf)
    (h : Fired m handle m') : m.Akin keyOf m' := by
  rcases h.refreshed with hrefresh | rfl
  · rcases completes_refresh.1 hrefresh with ⟨-, heq⟩ | ⟨-, snapshots, hrun⟩
    · rw [heq]
      exact akin_withWatch m _
    · have htrust := hm.following.trust
      rw [← h.outlook] at htrust
      exact akin_runBuilding hinj hm htrust hrun
  · exact akin_withWatch m' m'.watch

/-! ### What a list makes of two monitors that are akin -/

theorem synced_batteriesChanged (hd : m.store.values.Distinct)
    (h : Completes (batteriesChanged rs) m () m') : ∃ t : Monitor Bench,
      Synced { m with readings := rs } t ∧
        Completes refresh { t with watch := m'.watch } () m' := by
  obtain ⟨t, watch, hsync, -, hrefresh⟩ := completes_batteriesChanged.1 h
  have hwatch' : m'.watch = watch := watch_completes leavesWatch_refresh hrefresh
  exact ⟨t, synced_syncStates (m := { m with readings := rs }) hd hsync,
    by rw [hwatch']; exact hrefresh⟩

/-- **A list makes the same of monitors that are akin**, if the watches that have seen it say the
same of what an estimate looks at. -/
theorem Akin.batteriesChanged_eq (hinj : Function.Injective keyOf) (h : m.Akin keyOf n)
    (hm : m.Poised keyOf) (hn : n.Stationed keyOf) (hkeyed : Reading.Keyed keyOf rs)
    (htyped : ∀ r ∈ rs, r.isWellTyped = true)
    (htrust : m'.watch.conditions.useFirmware.isKind .bool = true)
    (hfirmware : n'.watch.conditions.useFirmware = m'.watch.conditions.useFirmware)
    (hignoring : n'.watch.isIgnoring = m'.watch.isIgnoring)
    (hchange : Completes (batteriesChanged rs) m () m')
    (hchange' : Completes (batteriesChanged rs) n () n') :
    (∀ i, n'.state? i = m'.state? i) ∧ ∀ v, n'.store.record? v = m'.store.record? v := by
  obtain ⟨t, hsynced, hrefresh⟩ := synced_batteriesChanged hm.distinct hchange
  obtain ⟨t', hsynced', hrefresh'⟩ := synced_batteriesChanged hn.distinct hchange'
  have hakin := h.synced hm.fitted hn.fitted hm.known hsynced hsynced'
  have hreadings : t.readings = rs := hsynced.readings
  have hreadings' : t'.readings = rs := hsynced'.readings
  rcases completes_refresh.1 hrefresh with ⟨hempty, heq⟩ | ⟨hnonempty, snapshots, hrun⟩
  -- where there are no batteries every key is none of the list's
  · rcases completes_refresh.1 hrefresh' with ⟨-, heq'⟩ | ⟨hnonempty', -⟩
    · have hrs : rs = [] := hreadings.symm.trans hempty
      have hnone (i : Nat) (w : Monitor Bench) (hw : w.Fitted) (hlen : w.readings = rs) :
          w.state? i = none := by
        refine Option.not_isSome_iff_eq_none.1 fun hsome => ?_
        have hlt := (hw i).1 hsome
        rw [hlen, hrs] at hlt
        exact Nat.not_lt_zero i hlt
      rw [heq, heq']
      refine ⟨fun i => (hnone i t' hsynced'.fitted hreadings').trans
        (hnone i t hsynced.fitted hreadings).symm, fun v => hakin.foreign v fun i hi => ?_⟩
      rw [hreadings, hrs] at hi
      exact absurd hi (Nat.not_lt_zero i)
    · exact absurd (hreadings'.trans (hreadings.symm.trans hempty)) hnonempty'
  · rcases completes_refresh.1 hrefresh' with ⟨hempty', -⟩ | ⟨-, snapshots', hrun'⟩
    · exact absurd (hreadings.trans (hreadings'.symm.trans hempty')) hnonempty
    · have ht := hm.toStationed.synced hinj (hreadings ▸ hkeyed) (hreadings ▸ htyped)
        (hreadings ▸ hsynced)
      have ht' := hn.synced hinj (hreadings' ▸ hkeyed) (hreadings' ▸ htyped)
        (hreadings' ▸ hsynced')
      exact (hakin.withWatch m'.watch n'.watch).runBuilding_eq hinj (ht.withWatch _)
        (ht'.withWatch _) htrust hfirmware hignoring hrun hrun'

theorem atRest_batteriesChanged (hm : m.Following) (htyped : ∀ r ∈ rs, r.isWellTyped = true)
    (h : Completes (batteriesChanged rs) m () m') : m'.AtRest := by
  obtain ⟨o, hchange⟩ := (Event.completes_act (e := .request (.batteriesChanged rs))).1 h
  cases o with
  | some snapshots =>
    refine (following_observe (e := .request (.batteriesChanged rs)) hm ?_ hchange).2 rfl
    rintro rs' ⟨⟩
    exact htyped
  | none =>
    -- nothing has run, but there is no battery either
    obtain rfl := eq_nil_of_changeBuilding hm.distinct hchange
    obtain ⟨-, hreadings⟩ := turned_observe (e := .request (.batteriesChanged [])) hm.fitted
      hm.distinct hchange
    intro i r hr
    rw [hreadings] at hr
    cases hr

/-! ### Histories on a bench -/

theorem Poised.bench {e : BenchEvent} (hinj : Function.Injective keyOf)
    (hsole : m.watch.window.Sole) (hm : m.Poised keyOf)
    (hlist : ∀ rs ∈ e.brought, Reading.Keyed keyOf rs ∧ ∀ r ∈ rs, r.isWellTyped = true)
    (h : Completes e.act m () m') : m'.Poised keyOf := by
  have hevent {m m' : Monitor Bench} {e : Event Bench} (hm : m.Poised keyOf)
      (hlist : ∀ rs ∈ e.brought, Reading.Keyed keyOf rs ∧ ∀ r ∈ rs, r.isWellTyped = true)
      (h : Completes e.act m () m') : m'.Poised keyOf := by
    obtain ⟨o, h⟩ := Event.completes_act.1 h
    exact hm.observe hinj hlist h
  cases e with
  | request q => exact hevent (e := .request q) hm hlist h
  | fire handle =>
    unfold Completes at h
    rw [run_act_fire_of_sole hsole] at h
    split at h
    -- time goes on, and then the window is over
    · have helapsed : (m.withoutTimer handle).Poised keyOf :=
        hevent (e := .elapse (m.withoutTimer handle).watch.timers) hm nofun rfl
      exact hevent (e := .windowOver) helapsed nofun h
    · cases h
      exact hm
  | tick now => exact hevent (e := .elapse { m.watch.timers with clock := now }) hm nofun h
  | support supported => exact hevent (e := .support supported) hm nofun h

section Histories

variable {start : Monitor Bench} {past : List BenchEvent}

/-- No window is open at the start, so that without timers there is none to be left over. -/
theorem Initial.sole (h : start.Initial) (hpending : start.watch.timers.agenda.pending = []) :
    start.watch.window.Sole := by
  have htimer : start.watch.window.pendingTimer = none :=
    congrArg Conditions.pendingTimer h.conditions
  refine ⟨?_, fun handle hsome => ?_⟩
  · rw [htimer]
    exact hpending
  · rw [htimer] at hsome
    cases hsome

theorem poised_afterAll (hinj : Function.Injective keyOf) (hinitial : start.Initial)
    (hpending : start.watch.timers.agenda.pending = [])
    (hlists : ∀ e ∈ past, ∀ rs ∈ e.brought,
      Reading.Keyed keyOf rs ∧ ∀ r ∈ rs, r.isWellTyped = true)
    (hfaultless : faultless BenchEvent.act start past) :
    (afterAll BenchEvent.act start past).Poised keyOf :=
  (faultless_induction (I := fun m => m.Poised keyOf ∧ m.watch.window.Sole)
    ⟨hinitial.poised, hinitial.sole hpending⟩
    (fun e _ _ _ hlist hm h => ⟨hm.1.bench hinj hm.2 hlist h,
      h.after_eq ▸ (step_act hm.2 e).sole hm.2⟩) hfaultless hlists).1

/-- **Expiry and poll meet in either order.**  Let every index have a key of its own in all lists
of a history, and let the timer of the window be pending when the window is over.  Then a poll that
comes before the timer and one that comes after it, at the same moment, leave the same records, the
same states, the same conditions and the same timers, whatever list it brings.  A timer that the
poll has taken back does nothing when it is let run. -/
theorem expiry_commutes {rs : List Reading} (hinj : Function.Injective keyOf)
    (hinitial : start.Initial) (hpending : start.watch.timers.agenda.pending = [])
    (hlists : ∀ e ∈ .request (.batteriesChanged rs) :: past, ∀ rs ∈ e.brought,
      Reading.Keyed keyOf rs ∧ ∀ r ∈ rs, r.isWellTyped = true)
    (htimer : (afterAll BenchEvent.act start past).watch.conditions.pendingTimer = some handle)
    (hdue : (afterAll BenchEvent.act start past).watch.conditions.invalidUntil.value.le
      (afterAll BenchEvent.act start past).watch.timers.clock.value = true)
    (hpoll : faultless BenchEvent.act start
      (.fire handle :: .request (.batteriesChanged rs) :: past))
    (hfire : faultless BenchEvent.act start
      (.request (.batteriesChanged rs) :: .fire handle :: past)) :
    let a := afterAll BenchEvent.act start
      (.fire handle :: .request (.batteriesChanged rs) :: past)
    let b := afterAll BenchEvent.act start
      (.request (.batteriesChanged rs) :: .fire handle :: past)
    (∀ key, a.store.record? key = b.store.record? key) ∧ (∀ i, a.state? i = b.state? i) ∧
      a.watch.conditions = b.watch.conditions ∧
      a.watch.timers.agenda.pending = b.watch.timers.agenda.pending := by
  intro a b
  obtain ⟨hpolled, _, hfired⟩ := faultless_cons.1 hpoll
  obtain ⟨hpast, _, hchange⟩ := faultless_cons.1 hpolled
  obtain ⟨hexpired, _, hchange'⟩ := faultless_cons.1 hfire
  obtain ⟨-, _, hfired'⟩ := faultless_cons.1 hexpired
  obtain ⟨hlist, hlists⟩ := List.forall_mem_cons.1 hlists
  obtain ⟨hkeyed, htyped⟩ := hlist rs rfl
  have hsole (past : List BenchEvent) := sole_afterAll (hinitial.sole hpending) past
  have hm := poised_afterAll hinj hinitial hpending hlists hpast
  have hpoised := hm.bench (e := .request (.batteriesChanged rs)) hinj (hsole past) hlist hchange
  have hpoised' := hm.bench (e := .fire handle) hinj (hsole past) nofun hfired'
  -- the timer on its own, after the poll and before it
  have hafter := fired_act (hsole _) hfired
  have hbefore := fired_act (hsole _) hfired'
  -- the watches
  have hwindow := (watch_batteriesChanged hchange).1
  have hwindow' := (watch_batteriesChanged hchange').1
  rw [hbefore.window, hbefore.lastExternal] at hwindow'
  obtain ⟨hignoring, hignoring', huntil, htimer', hpending'⟩ :=
    Window.meet (hsole past) htimer (Window.isIgnoring_of_reached hdue) hwindow hwindow'
  have houtlook := outlook_act (e := .request (.batteriesChanged rs)) hchange
  have houtlook' := outlook_act (e := .request (.batteriesChanged rs)) hchange'
  rw [hbefore.outlook, ← houtlook] at houtlook'
  rw [← hafter.window] at hignoring' huntil htimer' hpending'
  -- the poll makes the same of the monitor before the timer and after it
  obtain ⟨hstates, hrecords⟩ := (hbefore.akin hinj hm).batteriesChanged_eq hinj hm
    hpoised'.toStationed hkeyed htyped hpoised.following.trust
    (congrArg Outlook.useFirmware houtlook') hignoring hchange hchange'
  -- and the timer after the poll does nothing but to the watch
  have hsame := hafter.of_atRest (atRest_batteriesChanged hm.following htyped hchange) hignoring'
  refine ⟨fun key => ?_, fun i => ?_,
    Watch.conditions_eq (hafter.outlook.trans houtlook'.symm) huntil htimer', hpending'⟩
  · rw [hrecords key]
    exact congrArg (·.store.record? key) hsame
  · rw [hstates i]
    exact congrArg (·.state? i) hsame

end Histories

/-- A battery on external power, or on its own, with half a minute in which its estimates are not
to be used. -/
def powered (external : Bool) : Reading :=
  { currentCapacity := .int 4000, avgAmperage := .int (-500), firmwareTimeRemaining := .int 90,
    externalConnected := .bool external, invalidWakeSecs := .int 30 }

/-- The battery was plugged in, and half a minute has passed. -/
def windowPassed : List BenchEvent := [.tick 30, .request (.batteriesChanged [powered true])]

/-- The battery is unplugged when the window is over.  The first timer has run before the poll, or
was taken back by it: the second one is pending either way, and one record stands. -/
theorem expiry_commutes_windowPassed :
    let a := afterAll BenchEvent.act onBench
      (.fire 1 :: .request (.batteriesChanged [powered false]) :: windowPassed)
    let b := afterAll BenchEvent.act onBench
      (.request (.batteriesChanged [powered false]) :: .fire 1 :: windowPassed)
    (∀ key, a.store.record? key = b.store.record? key) ∧ (∀ i, a.state? i = b.state? i) ∧
      a.watch.conditions.pendingTimer = some 2 ∧
      a.watch.timers.agenda.pending = b.watch.timers.agenda.pending ∧
      (b.store.record? (.text (Reading.defaultName 0))).isSome := by
  intro a b
  have hlists : ∀ e ∈ .request (.batteriesChanged [powered false]) :: windowPassed,
      ∀ rs ∈ e.brought, Reading.Keyed Reading.defaultName rs ∧ ∀ r ∈ rs, r.isWellTyped = true := by
    have hkeyless : ∀ e ∈ .request (.batteriesChanged [powered false]) :: windowPassed,
        ∀ rs ∈ e.brought, (∀ r ∈ rs, r.storeKey.truth = false) ∧
          ∀ r ∈ rs, r.isWellTyped = true := by
      decide +kernel
    exact fun e he rs hrs =>
      (hkeyless e he rs hrs).imp_left fun hkey => Reading.keyed_defaultName hkey
  have htimer : (afterAll BenchEvent.act onBench windowPassed).watch.conditions.pendingTimer =
      some 1 := by decide +kernel
  obtain ⟨hrecords, hstates, hconditions, hpending⟩ :=
    expiry_commutes Reading.defaultName_injective initial_onBench rfl hlists htimer
      (by decide +kernel) (by decide +kernel) (by decide +kernel)
  refine ⟨hrecords, hstates, ?_, hpending, by decide +kernel⟩
  rw [hconditions]
  decide +kernel

end Monitor

end BatteryMonitor
