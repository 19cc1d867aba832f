import BatteryMonitor.Daemon
import BatteryMonitor.Proofs.Monitor.Window
import Mathlib.Data.List.Nodup

/-!
# Timers of a monitor among other sources

The sources of a loop have ids that are all different and were all issued before (`Loop.Tidy`), and some of
them poll (`Loop.polls`).  The timer of the suppression window is another source than the poll, so taking it
back never takes the poll.  That is an invariant of everything that a watch does (`Watch.Beside`), and with
it of all operations of a monitor (`Monitor.keeps_beside_batteriesChanged`, `Monitor.keeps_beside_handle`).
-/

namespace BatteryMonitor

open Effect

/-! ### Sources of a loop -/

namespace Loop

section Sources

variable {α : Type} {l : Loop α}

/-- Each source has an id of its own, which has been given out. -/
structure Tidy (l : Loop α) : Prop where
  nodup : (l.sources.map (·.id)).Nodup
  issued : ∀ s ∈ l.sources, s.id ≤ l.issued

theorem Tidy.attach (h : l.Tidy) (interval : Nat) (action : α) :
    (l.attach interval action).2.Tidy where
  nodup := by
    simp only [Loop.attach, List.map_append, List.map_cons, List.map_nil]
    refine List.nodup_append.2 ⟨h.nodup, List.nodup_singleton _, ?_⟩
    intro id hid id' hid'
    obtain ⟨s, hs, rfl⟩ := List.mem_map.1 hid
    rw [List.mem_singleton] at hid'
    have := h.issued s hs
    omega
  issued s hs := by
    simp only [Loop.attach, List.mem_append, List.mem_singleton] at hs ⊢
    rcases hs with hs | rfl
    · exact Nat.le_succ_of_le (h.issued s hs)
    · exact Nat.le_refl _

theorem Tidy.detach (h : l.Tidy) (id : Nat) : (l.detach id).Tidy where
  nodup := h.nodup.sublist (List.filter_sublist.map _)
  issued s hs := h.issued s (List.mem_filter.1 hs).1

theorem map_id_putOff (id : Nat) (l : Loop α) :
    (l.putOff id).sources.map (·.id) = l.sources.map (·.id) := by
  simp only [putOff, List.map_map]
  refine List.map_congr_left fun s _ => ?_
  dsimp only [Function.comp]
  split <;> rfl

theorem Tidy.putOff (h : l.Tidy) (id : Nat) : (l.putOff id).Tidy where
  nodup := by
    rw [map_id_putOff]
    exact h.nodup
  issued s hs := by
    obtain ⟨t, ht, rfl⟩ := List.mem_map.1 hs
    split
    · exact h.issued t ht
    · exact h.issued t ht

theorem Tidy.eq_of_id_eq (h : l.Tidy) {s t : LoopSource α} (hs : s ∈ l.sources)
    (ht : t ∈ l.sources) (hid : s.id = t.id) : s = t :=
  List.inj_on_of_nodup_map h.nodup hs ht hid

theorem add_of_ok {unit : Nat} {interval : Value} {ms : Nat} (h : intervalOf unit interval = .ok ms)
    (action : α) : l.add unit interval action = (.ok (l.issued + 1), (l.attach ms action).2) := by
  rw [add, h]
  rfl

theorem add_of_error {unit : Nat} {interval : Value} {fault : Fault}
    (h : intervalOf unit interval = .error fault) (action : α) :
    l.add unit interval action = (.error fault, l) := by
  rw [add, h]

theorem schedule_cases (delay : Value) (action : α) (l : Loop α) :
    (∃ fault, l.schedule delay action = (.error fault, l)) ∨
      ∃ ms, l.schedule delay action = (.ok (l.issued + 1), (l.attach ms action).2) := by
  unfold schedule
  cases milliseconds delay with
  | error fault => exact .inl ⟨fault, rfl⟩
  | ok n =>
    dsimp only [add]
    cases intervalOf 1 (.int n) with
    | error fault => exact .inl ⟨fault, rfl⟩
    | ok ms => exact .inr ⟨ms, rfl⟩

end Sources

/-! ### Polls -/

/-- The polls in a loop, each with its id and its interval in milliseconds. -/
def polls (l : Loop Task) : List (Nat × Nat) :=
  (l.sources.filter (·.action = .poll)).map fun s => (s.id, s.interval)

variable {l : Loop Task}

theorem mem_polls {p : Nat × Nat} : p ∈ l.polls ↔
    ∃ s ∈ l.sources, s.action = .poll ∧ (s.id, s.interval) = p := by
  simp [polls, and_assoc]

theorem polls_attach_alarm (ms : Nat) (alarm : Alarm) :
    (l.attach ms (.alarm alarm)).2.polls = l.polls := by
  simp [polls, attach]

theorem polls_attach_poll (ms : Nat) :
    (l.attach ms .poll).2.polls = l.polls ++ [(l.issued + 1, ms)] := by
  simp [polls, attach]

theorem polls_detach (id : Nat) : (l.detach id).polls = l.polls.filter (·.1 != id) := by
  simp only [polls, detach, List.filter_map, List.filter_filter, Function.comp_def, Bool.and_comm]

theorem polls_putOff (id : Nat) : (l.putOff id).polls = l.polls := by
  simp only [polls, putOff, List.filter_map, List.map_map, Function.comp_def]
  have haction (s : LoopSource Task) :
      (if s.id = id then { s with deadline := l.now + s.interval } else s).action = s.action := by
    split <;> rfl
  simp only [haction]
  refine List.map_congr_left fun s _ => ?_
  split <;> rfl

theorem polls_detach_of_ne {id : Nat} (h : ∀ p ∈ l.polls, p.1 ≠ id) :
    (l.detach id).polls = l.polls := by
  rw [polls_detach]
  exact List.filter_eq_self.2 fun p hp => bne_iff_ne.2 (h p hp)

end Loop

/-! ### Timers -/

namespace Clockwork

variable {c : Clockwork} {agenda : Agenda}

theorem schedule_of_some (h : c.agenda = some agenda) (delay : Value) (alarm : Alarm) :
    Scheduler.schedule delay alarm c = ((agenda.schedule c.loop.seconds delay alarm).1,
      { c with agenda := some (agenda.schedule c.loop.seconds delay alarm).2 }) := by
  obtain ⟨loop, _⟩ := c
  obtain rfl := h
  rfl

theorem schedule_of_none (h : c.agenda = none) (delay : Value) (alarm : Alarm) :
    Scheduler.schedule delay alarm c = ((c.loop.schedule delay (.alarm alarm)).1,
      { c with loop := (c.loop.schedule delay (.alarm alarm)).2 }) := by
  obtain ⟨loop, _⟩ := c
  obtain rfl := h
  rfl

theorem cancel_of_some (h : c.agenda = some agenda) (handle : Nat) :
    Scheduler.cancel handle c = { c with agenda := some (agenda.cancel handle) } := by
  obtain ⟨loop, _⟩ := c
  obtain rfl := h
  rfl

theorem cancel_of_none (h : c.agenda = none) (handle : Nat) :
    Scheduler.cancel handle c = { c with loop := c.loop.detach handle } := by
  obtain ⟨loop, _⟩ := c
  obtain rfl := h
  rfl

end Clockwork

/-! ### Beside the poll -/

namespace Watch

/-- The timers hold the given polls, which the poll's id names, and the timer of the window is another
source.  On an agenda the timer is no source at all. -/
structure Beside (poll : Option Nat) (polls : List (Nat × Nat)) (w : Watch Clockwork) : Prop where
  tidy : w.timers.loop.Tidy
  named : ∀ p ∈ polls, poll = some p.1
  holds : w.timers.loop.polls = polls
  issued : ∀ id, poll = some id → id ≤ w.timers.loop.issued
  timer : w.timers.agenda = none → ∀ handle, w.conditions.pendingTimer = some handle →
    handle ≤ w.timers.loop.issued ∧ poll ≠ some handle

variable {poll : Option Nat} {polls : List (Nat × Nat)} {w : Watch Clockwork}

theorem Beside.adjusted (h : Beside poll polls w) {c : Conditions} {primary : Option Reading}
    (hc : ∀ handle, c.pendingTimer = some handle → w.conditions.pendingTimer = some handle) :
    Beside poll polls { w with conditions := c, primary } where
  tidy := h.tidy
  named := h.named
  holds := h.holds
  issued := h.issued
  timer hnone handle htimer := h.timer hnone handle (hc handle htimer)

theorem keeps_adjust {f : Conditions → Conditions}
    (hf : ∀ c handle, (f c).pendingTimer = some handle → c.pendingTimer = some handle) :
    Keeps (Beside poll polls) (adjust f) :=
  keeps_modify fun w h => h.adjusted (hf w.conditions)

theorem Beside.scheduled (h : Beside poll polls w) (delay : Value) (alarm : Alarm) :
    let outcome := Scheduler.schedule delay alarm w.timers
    Beside poll polls { w with timers := outcome.2 } ∧ ∀ handle, outcome.1 = .ok handle →
      outcome.2.agenda = none → handle ≤ outcome.2.loop.issued ∧ poll ≠ some handle := by
  intro outcome
  cases hagenda : w.timers.agenda with
  | some agenda =>
    rw [show outcome = _ from Clockwork.schedule_of_some hagenda delay alarm]
    exact ⟨⟨h.tidy, h.named, h.holds, h.issued, nofun⟩, nofun⟩
  | none =>
    have houtcome : outcome = _ := Clockwork.schedule_of_none hagenda delay alarm
    rcases w.timers.loop.schedule_cases delay (.alarm alarm) with ⟨fault, hrefused⟩ | ⟨ms, harmed⟩
    · rw [hrefused] at houtcome
      rw [houtcome]
      exact ⟨⟨h.tidy, h.named, h.holds, h.issued, fun _ => h.timer hagenda⟩, nofun⟩
    · rw [harmed] at houtcome
      rw [houtcome]
      refine ⟨⟨h.tidy.attach ms _, h.named, (Loop.polls_attach_alarm ms alarm).trans h.holds,
        fun id hid => Nat.le_succ_of_le (h.issued id hid), fun _ handle htimer => ?_⟩, ?_⟩
      · obtain ⟨hle, hne⟩ := h.timer hagenda handle htimer
        exact ⟨Nat.le_succ_of_le hle, hne⟩
      · rintro handle hhandle -
        obtain rfl := Except.ok.inj hhandle
        refine ⟨Nat.le_refl _, fun hpoll => ?_⟩
        exact Nat.not_succ_le_self _ (h.issued _ hpoll)

theorem keeps_disarm : Keeps (Beside poll polls) disarm := by
  refine keeps_modify fun w h => ?_
  split
  · rename_i handle htimer
    cases hagenda : w.timers.agenda with
    | some agenda =>
      rw [Clockwork.cancel_of_some hagenda]
      exact ⟨h.tidy, h.named, h.holds, h.issued, fun _ => nofun⟩
    | none =>
      rw [Clockwork.cancel_of_none hagenda]
      -- what is taken out of the loop is not the poll
      have hother : ∀ p ∈ w.timers.loop.polls, p.1 ≠ handle := by
        rintro p hp rfl
        exact (h.timer hagenda _ htimer).2 (h.named p (h.holds ▸ hp))
      exact ⟨h.tidy.detach handle, h.named, (Loop.polls_detach_of_ne hother).trans h.holds, h.issued,
        fun _ => nofun⟩
  · exact h

theorem run_arm (delay : Value) (alarm : Alarm) (w : Watch Clockwork) :
    (arm delay alarm).run.run w =
      ((Scheduler.schedule delay alarm w.timers).1,
        { w with timers := (Scheduler.schedule delay alarm w.timers).2 }) := by
  unfold arm
  rw [run_get_bind]
  generalize Scheduler.schedule delay alarm w.timers = outcome
  rcases outcome with ⟨fault | handle, timers⟩ <;> rfl

theorem keeps_suppress : Keeps (Beside poll polls) suppress := by
  refine keeps_get_bind fun w h => ?_
  cases w.primary with
  | none => exact h
  | some primary =>
    dsimp only
    split
    · exact h
    · rename_i delay _
      refine keeps_bind (keeps_adjust (f := fun c => { c with invalidUntil := w.now.add delay })
        fun _ _ => id) (fun _ => ?_) w h
      refine keeps_bind keeps_disarm fun _ => keeps_bind_completes ?_ ?_
      · intro w h
        unfold after
        rw [run_arm]
        exact (h.scheduled _ _).1
      · -- the timer that is kept now has just been armed
        intro w handle w' h harm hw'
        have hrun := run_arm (.float delay) .windowOver w
        rw [show (arm (.float delay) .windowOver).run.run w = (.ok handle, w') from harm] at hrun
        obtain ⟨hhandle, rfl⟩ := Prod.mk.inj hrun
        refine ⟨hw'.tidy, hw'.named, hw'.holds, hw'.issued, fun hnone handle' hhandle' => ?_⟩
        obtain rfl := Option.some.inj hhandle'
        exact (h.scheduled _ _).2 _ hhandle.symm hnone

theorem keeps_windowOver : Keeps (Beside poll polls) windowOver := by
  refine keeps_get_bind fun w h => keeps_adjust (fun c handle htimer => ?_) w h
  unfold Conditions.closeWindow at htimer
  split at htimer <;> cases htimer

theorem keeps_batteriesChanged (readings : List Reading) :
    Keeps (Beside poll polls) (Watch.batteriesChanged readings) := by
  cases readings with
  | nil => exact keeps_modify fun w h => h.adjusted fun _ => id
  | cons primary rest =>
    refine keeps_bind (keeps_modify fun w h => h.adjusted fun _ => id) fun _ => ?_
    refine keeps_bind keeps_get fun w => ?_
    -- whether the power source has changed or not, the same follows
    refine keeps_ite (keeps_bind keeps_suppress fun _ => ?_) ?_
    all_goals
      refine keeps_bind (keeps_adjust fun _ _ h => h) fun _ => keeps_bind keeps_get fun w => ?_
      exact keeps_ite (keeps_bind (keeps_adjust fun _ _ h => h) fun _ => keeps_adjust fun _ _ h => h)
        (keeps_adjust fun _ _ h => h)

end Watch

namespace Monitor

variable {poll : Option Nat} {polls : List (Nat × Nat)} {α : Type}

theorem LeavesWatch.keeps {act : M Clockwork α} (h : LeavesWatch act) {P : Watch Clockwork → Prop} :
    Keeps (fun m => P m.watch) act := by
  intro m hm
  rw [h.watch_after m]
  exact hm

theorem keeps_onWatch {P : Watch Clockwork → Prop} {act : Watch.M Clockwork α} (h : Keeps P act) :
    Keeps (fun m : Monitor Clockwork => P m.watch) (onWatch act) := by
  intro m hm
  rw [watch_after_onWatch]
  exact h m.watch hm

theorem keeps_beside_batteriesChanged (readings : List Reading) :
    Keeps (fun m => Watch.Beside poll polls m.watch) (batteriesChanged readings) :=
  keeps_bind (keeps_modify fun _ => id) fun _ => keeps_bind leavesWatch_syncStates.keeps fun _ =>
    keeps_bind (keeps_onWatch (Watch.keeps_batteriesChanged readings)) fun _ =>
      leavesWatch_refresh.keeps

theorem keeps_beside_handle (alarm : Alarm) :
    Keeps (fun m => Watch.Beside poll polls m.watch) (handle alarm) := by
  cases alarm with
  | windowOver =>
    exact keeps_bind (keeps_onWatch Watch.keeps_windowOver) fun _ => leavesWatch_refresh.keeps
  | wakeSettled =>
    refine keeps_bind keeps_get fun m => keeps_ite (keeps_pure _) ?_
    exact keeps_bind (keeps_onWatch Watch.keeps_suppress) fun _ => leavesWatch_run.keeps

theorem keeps_beside_prime (readings : Option (List Reading)) :
    Keeps (fun m => Watch.Beside poll polls m.watch) (prime readings) := by
  rcases readings with _ | _ | ⟨r, rs⟩
  · exact keeps_pure _
  · exact keeps_pure _
  · exact keeps_beside_batteriesChanged (r :: rs)

end Monitor

end BatteryMonitor
