import BatteryMonitor.CommandLine.Service
import BatteryMonitor.Proofs.Daemon.Polling
import BatteryMonitor.Proofs.Daemon.Sources

/-!
# The poll in the loop

Setting the interval takes the poll out of the loop and puts another one in.  The second part may be
refused, since an interval comes from a settings file and can be anything, and then nothing is put back.

* `Daemon.Tuned` : what the loop holds of polls.  With an interval it is one poll, which the daemon
  knows by its id; without one it is none.
* `Daemon.Polls` : the invariant of everything else that goes on, since no other source is the poll
  (`Watch.Beside`).
* `Daemon.tuned_act` : one turn of the loop, or of those who set the interval.
* `Daemon.one_poll_iff` : so there is exactly one poll, at the last interval that was accepted, iff the last
  interval that was asked for is that one.  From a refused interval on there is no poll at all, until
  another interval is accepted.
* `Daemon.exists_turns_advance` : letting time pass is such turns and no others.
-/

namespace BatteryMonitor

open Effect

namespace Daemon

/-! ### The daemon's own poll -/

/-- The daemon knows its poll by an id, and the loop holds the given polls. -/
def Polls (poll : Option Nat) (polls : List (Nat × Nat)) (d : Daemon) : Prop :=
  d.pollSource = poll ∧ Watch.Beside poll polls d.monitor.watch

section Polls

variable {poll : Option Nat} {polls : List (Nat × Nat)} {α : Type} {d : Daemon}

theorem keeps_onMonitor {act : Monitor.M Clockwork α}
    (h : Keeps (fun m => Watch.Beside poll polls m.watch) act) :
    Keeps (Polls poll polls) (onMonitor act) := by
  rintro d ⟨hpoll, hbeside⟩
  unfold after
  rw [run_onMonitor]
  exact ⟨hpoll, h d.monitor hbeside⟩

theorem keeps_readSource : Keeps (Polls poll polls) readSource := by
  rintro d ⟨hpoll, hbeside⟩
  unfold after
  rw [run_readSource]
  split
  · exact ⟨hpoll, hbeside.adjusted fun _ => id⟩
  · exact ⟨hpoll, hbeside⟩
  · exact ⟨hpoll, hbeside⟩

theorem keeps_update : Keeps (Polls poll polls) update := by
  refine keeps_bind keeps_readSource fun readings => ?_
  cases readings with
  | none => exact keeps_pure _
  | some readings =>
    exact keeps_bind (keeps_onMonitor (Monitor.keeps_beside_batteriesChanged readings))
      fun _ => keeps_pure _

theorem keeps_perform (task : Task) : Keeps (Polls poll polls) (perform task) := by
  cases task with
  | poll => exact keeps_update
  | alarm alarm =>
    exact keeps_bind (keeps_onMonitor (Monitor.keeps_beside_handle alarm)) fun _ => keeps_pure _

theorem keeps_prepareForSleep (going : Value) :
    Keeps (Polls poll polls) (prepareForSleep [going]) := by
  refine keeps_ite (keeps_pure _) (keeps_get_bind fun d hd => ?_)
  have hscheduled := (hd.2.scheduled d.wakeDelay .wakeSettled).1
  dsimp only
  generalize Scheduler.schedule d.wakeDelay Alarm.wakeSettled d.monitor.watch.timers = outcome
    at hscheduled ⊢
  rcases outcome with ⟨fault | handle, timers⟩ <;> exact ⟨hd.1, hscheduled⟩

theorem Polls.setLoop (h : d.Polls poll polls) {loop : Loop Task} (htidy : loop.Tidy)
    (hpolls : loop.polls = d.loop.polls) (hissued : loop.issued = d.loop.issued) :
    (d.setLoop loop).Polls poll polls where
  left := h.1
  right := {
    tidy := htidy
    named := h.2.named
    holds := hpolls.trans h.2.holds
    issued := fun id hid => by
      change id ≤ loop.issued
      rw [hissued]
      exact h.2.issued id hid
    timer := fun hnone handle htimer => by
      change handle ≤ loop.issued ∧ _
      rw [hissued]
      exact h.2.timer hnone handle htimer }

end Polls

/-- What the loop holds of polls: one at the interval that the daemon knows, or none. -/
def Tuned (interval : Option Nat) (d : Daemon) : Prop :=
  match interval with
  | some ms => ∃ id, d.Polls (some id) [(id, ms)]
  | none => ∃ poll, d.Polls poll []

/-- An interval in milliseconds, if the loop accepts it. -/
def interval? (seconds : Value) : Option Nat :=
  (Loop.intervalOf 1000 seconds).toOption

theorem Tuned.polls {interval : Option Nat} {d : Daemon} (h : d.Tuned interval) :
    ∃ poll polls, d.Polls poll polls := by
  unfold Tuned at h
  split at h
  · obtain ⟨id, hid⟩ := h
    exact ⟨_, _, hid⟩
  · obtain ⟨poll, hpoll⟩ := h
    exact ⟨_, _, hpoll⟩

theorem keeps_tuned {interval : Option Nat} (act : M Unit)
    (h : ∀ poll polls, Keeps (Polls poll polls) act) : Keeps (Tuned interval) act := by
  intro d hd
  unfold Tuned at hd ⊢
  split at hd
  · obtain ⟨id, hid⟩ := hd
    exact ⟨id, h _ _ d hid⟩
  · obtain ⟨poll, hpoll⟩ := hd
    exact ⟨poll, h _ _ d hpoll⟩

/-- The daemon with its poll taken out of the loop. -/
def withoutPoll (d : Daemon) : Daemon :=
  match d.pollSource with
  | some id => d.setLoop (d.loop.detach id)
  | none => d

theorem Polls.withoutPoll {poll : Option Nat} {polls : List (Nat × Nat)} {d : Daemon}
    (h : d.Polls poll polls) : d.withoutPoll.Polls poll [] := by
  obtain ⟨hpoll, hbeside⟩ := h
  -- all polls have the id that the daemon knows
  have hnamed : ∀ p ∈ d.loop.polls, poll = some p.1 := fun p hp =>
    hbeside.named p (hbeside.holds ▸ hp)
  unfold Daemon.withoutPoll
  rw [hpoll]
  cases poll with
  | none =>
    have hnone : d.loop.polls = [] :=
      List.eq_nil_iff_forall_not_mem.2 fun p hp => nomatch hnamed p hp
    exact ⟨hpoll, hbeside.tidy, nofun, hnone, nofun, hbeside.timer⟩
  | some id =>
    have hnone : (d.loop.detach id).polls = [] := by
      rw [Loop.polls_detach, List.filter_eq_nil_iff]
      intro p hp
      rw [Option.some.inj (hnamed p hp)]
      simp
    exact ⟨hpoll, hbeside.tidy.detach id, nofun, hnone, hbeside.issued, hbeside.timer⟩

/-- **The poll is taken out first**, and then the other one is put in. -/
theorem run_schedulePoll_of_ok {d : Daemon} {ms : Nat}
    (h : Loop.intervalOf 1000 d.pollInterval = .ok ms) : schedulePoll.run.run d =
      (.ok (), { d.withoutPoll.setLoop (d.withoutPoll.loop.attach ms .poll).2 with
        pollSource := some (d.withoutPoll.loop.issued + 1) }) := by
  unfold schedulePoll withoutPoll
  rw [run_get_bind]
  cases d.pollSource with
  | none =>
    simp only [run_get_bind, Loop.add_of_ok h]
    rfl
  | some id =>
    have h' : Loop.intervalOf 1000 (d.setLoop (d.loop.detach id)).pollInterval = .ok ms := h
    simp only [run_modify_bind, run_get_bind, Loop.add_of_ok h']
    rfl

theorem run_schedulePoll_of_error {d : Daemon} {fault : Fault}
    (h : Loop.intervalOf 1000 d.pollInterval = .error fault) :
    schedulePoll.run.run d = (.error fault, d.withoutPoll) := by
  unfold schedulePoll withoutPoll
  rw [run_get_bind]
  cases d.pollSource with
  | none =>
    simp only [run_get_bind, Loop.add_of_error h]
    rfl
  | some id =>
    have h' : Loop.intervalOf 1000 (d.setLoop (d.loop.detach id)).pollInterval = .error fault := h
    simp only [run_modify_bind, run_get_bind, Loop.add_of_error h']
    rfl

theorem tuned_schedulePoll {poll : Option Nat} {polls : List (Nat × Nat)} {d : Daemon}
    (h : d.Polls poll polls) : (after schedulePoll d).Tuned (interval? d.pollInterval) := by
  have hcleared := h.withoutPoll
  unfold after interval? Tuned
  cases hms : Loop.intervalOf 1000 d.pollInterval with
  | error fault =>
    rw [run_schedulePoll_of_error hms]
    exact ⟨poll, hcleared⟩
  | ok ms =>
    rw [run_schedulePoll_of_ok hms]
    refine ⟨d.withoutPoll.loop.issued + 1, rfl, hcleared.2.tidy.attach ms _, ?_, ?_, ?_, ?_⟩
    · intro p hp
      rw [List.mem_singleton.1 hp]
    · refine (Loop.polls_attach_poll ms).trans ?_
      rw [show d.withoutPoll.loop.polls = [] from hcleared.2.holds]
      rfl
    · intro id hid
      rw [← Option.some.inj hid]
      exact Nat.le_refl _
    · -- the timer of the window was there before, so its handle is older
      intro hnone handle htimer
      have hle := (hcleared.2.timer hnone handle htimer).1
      refine ⟨Nat.le_succ_of_le hle, fun hid => ?_⟩
      rw [← Option.some.inj hid] at hle
      exact Nat.not_succ_le_self _ hle

theorem tuned_setPollInterval {poll : Option Nat} {polls : List (Nat × Nat)} {d : Daemon}
    (h : d.Polls poll polls) (seconds : Value) :
    (after (setPollInterval seconds) d).Tuned (interval? seconds) :=
  tuned_schedulePoll (d := { d with pollInterval := seconds }) h

/-! ### Turns -/

/-- What happens to the loop, or beside it. -/
inductive Turn where
  /-- an interval is asked for -/
  | setInterval (seconds : Value)
  /-- the settings are read again, from the site's file or the one that was named -/
  | reload (site : Site) (named : Option Value)
  /-- the loop calls a source -/
  | call (id : Nat)
  /-- time passes -/
  | clock (now : Nat)
  /-- others change the files -/
  | files (change : Disk → Disk)
  /-- the sensor answers otherwise from now on -/
  | sensor (other : Sensor)
  /-- the bus tells that the system goes to sleep, or that it woke -/
  | sleep (going : Value)

namespace Turn

/-- The daemon after the loop has called a source. -/
def called (id : Nat) (d : Daemon) : Daemon :=
  ((Loop.callSource perform id).run d).2

/-- The daemon at another time. -/
def atTime (now : Nat) (d : Daemon) : Daemon :=
  d.setLoop { d.loop with now }

/-- What a daemon does in a turn. -/
def act : Turn → M Unit
  | setInterval seconds => setPollInterval seconds
  | reload site named => discard (CommandLine.Service.reload site named)
  | call id => modify (called id)
  | clock now => modify (atTime now)
  | files change => modify (withFiles change)
  | sensor other => modify (replaceSensor other)
  | sleep going => prepareForSleep [going]

/-- The interval that is asked for in a turn, if one is. -/
def asks (d : Daemon) : Turn → Option Value
  | setInterval seconds => some seconds
  | reload site named =>
    (CommandLine.Service.loadSettings site d.disk named).toOption.map (·.pollInterval)
  | call _ | clock _ | files _ | sensor _ | sleep _ => none

/-- If the loop calls the poll, the poll runs to its end and asks for the next one. -/
def PollsOn (d : Daemon) : Turn → Prop
  | call id => ∀ source ∈ d.loop.sources, source.id = id → source.action = .poll →
    isClean update d = true
  | setInterval _ | reload .. | clock _ | files _ | sensor _ | sleep _ => True

end Turn

theorem keeps_atTime (now : Nat) (poll : Option Nat) (polls : List (Nat × Nat)) :
    Keeps (Polls poll polls) (modify (Turn.atTime now) : M Unit) :=
  keeps_modify fun _ hd => hd.setLoop ⟨hd.2.tidy.nodup, hd.2.tidy.issued⟩ rfl rfl

theorem run_state_bind {σ α β : Type} (x : StateM σ α) (f : α → StateM σ β) (s : σ) :
    (x >>= f).run s = (f (x.run s).1).run (x.run s).2 := rfl

theorem run_guarded (act : M Bool) (d : Daemon) : (Loop.guarded act).run d =
    match act.run.run d with
    | (.ok again, d') => (again, d')
    | (.error fault, d') =>
      (false, d'.setLoop { d'.loop with faults := d'.loop.faults ++ [fault] }) := by
  unfold Loop.guarded
  rw [run_state_bind]
  rcases act.run.run d with ⟨fault | again, d'⟩ <;> rfl

theorem Polls.guarded {poll : Option Nat} {polls : List (Nat × Nat)} {d : Daemon} {act : M Bool}
    (h : d.Polls poll polls) (hact : Keeps (Polls poll polls) act) :
    ((Loop.guarded act).run d).2.Polls poll polls := by
  have hafter : (act.run.run d).2.Polls poll polls := hact d h
  rw [run_guarded]
  generalize act.run.run d = outcome at hafter ⊢
  rcases outcome with ⟨fault | again, d'⟩
  · exact hafter.setLoop ⟨hafter.2.tidy.nodup, hafter.2.tidy.issued⟩ rfl rfl
  · exact hafter

theorem called_of_none {id : Nat} {d : Daemon} (h : d.loop.find? id = none) :
    Turn.called id d = d := by
  unfold Turn.called Loop.callSource
  rw [run_state_bind]
  split
  · rfl
  · rename_i hfind
    cases h.symm.trans hfind

/-- A source that is called is put off or taken out, as its action asks for. -/
theorem called_of_some {id : Nat} {d d' : Daemon} {source : LoopSource Task} {again : Bool}
    (h : d.loop.find? id = some source)
    (hrun : (Loop.guarded (perform source.action)).run d = (again, d')) :
    Turn.called id d = d'.setLoop (if again then d'.loop.putOff id else d'.loop.detach id) := by
  unfold Turn.called Loop.callSource
  rw [run_state_bind]
  split
  · rename_i hfind
    cases h.symm.trans hfind
  · rename_i hfind
    obtain rfl := Option.some.inj (hfind.symm.trans h)
    have hget : ((get : StateM Daemon Daemon).run d).2 = d := rfl
    rw [hget, run_state_bind, hrun]
    cases again <;> rfl

theorem Polls.called {poll : Option Nat} {polls : List (Nat × Nat)} {d : Daemon}
    (h : d.Polls poll polls) {id : Nat} (hon : (Turn.call id).PollsOn d) :
    (Turn.called id d).Polls poll polls := by
  cases hfind : d.loop.find? id with
  | none =>
    rw [called_of_none hfind]
    exact h
  | some source =>
    have hmem : source ∈ d.loop.sources := List.mem_of_find?_eq_some hfind
    have hid : source.id = id := by simpa using List.find?_some hfind
    have hkept := h.guarded (keeps_perform source.action)
    obtain ⟨again, d', hrun⟩ : ∃ again d',
        (Loop.guarded (perform source.action)).run d = (again, d') := ⟨_, _, rfl⟩
    rw [hrun] at hkept
    rw [called_of_some hfind hrun]
    cases again with
    | true => exact hkept.setLoop (hkept.2.tidy.putOff id) (Loop.polls_putOff id) rfl
    | false =>
      -- only an alarm is taken out, and it has another id than the poll
      refine hkept.setLoop (hkept.2.tidy.detach id) (Loop.polls_detach_of_ne fun p hp hp' => ?_) rfl
      have hpoll : p ∈ d.loop.polls := by
        rw [show d.loop.polls = polls from h.2.holds, ← hkept.2.holds]
        exact hp
      obtain ⟨s, hs, haction, rfl⟩ := Loop.mem_polls.1 hpoll
      obtain rfl := h.2.tidy.eq_of_id_eq hs hmem (hp'.trans hid.symm)
      obtain ⟨again, hupdate⟩ := completes_of_isClean (hon s hmem hid haction)
      obtain rfl := eq_true_of_completes_update hupdate
      rw [haction, run_guarded, show (perform .poll).run.run d = (.ok true, after update d) from
        hupdate] at hrun
      cases congrArg Prod.fst hrun

/-- **One turn.**  The interval that was asked for last decides what the loop holds of polls. -/
theorem tuned_act {d : Daemon} {interval : Option Nat} (h : d.Tuned interval) {e : Turn}
    (hon : e.PollsOn d) : (after e.act d).Tuned (((e.asks d).map interval?).getD interval) := by
  cases e with
  | setInterval seconds =>
    obtain ⟨poll, polls, hpolls⟩ := h.polls
    exact tuned_setPollInterval hpolls seconds
  | reload site named =>
    obtain ⟨poll, polls, hpolls⟩ := h.polls
    have hact : after (Turn.reload site named).act d =
        after (CommandLine.Service.reload site named) d := by
      rw [Turn.act, discard_eq, after_bind]
      split <;> rfl
    rw [hact, Turn.asks]
    cases hload : CommandLine.Service.loadSettings site d.disk named with
    | error fault =>
      have hreload : after (CommandLine.Service.reload site named) d = d := by
        unfold CommandLine.Service.reload
        rw [after_get_bind, hload]
        rfl
      rw [hreload]
      exact h
    | ok settings =>
      have hreload : after (CommandLine.Service.reload site named) d =
          after (setPollInterval settings.pollInterval) d := by
        unfold CommandLine.Service.reload
        rw [after_get_bind, hload]
        dsimp only
        rw [after_bind]
        split <;> rfl
      rw [hreload]
      exact tuned_setPollInterval hpolls settings.pollInterval
  | call id =>
    unfold Tuned at h ⊢
    dsimp only [Turn.asks, Option.map_none, Option.getD_none]
    cases interval with
    | some ms => exact h.imp fun _ hpolls => hpolls.called hon
    | none => exact h.imp fun _ hpolls => hpolls.called hon
  | clock now => exact keeps_tuned _ (keeps_atTime now) d h
  | files change => exact keeps_tuned (modify (withFiles change)) (fun _ _ _ hd => hd) d h
  | sensor other => exact keeps_tuned (modify (replaceSensor other)) (fun _ _ _ hd => hd) d h
  | sleep going => exact keeps_tuned _ (fun _ _ => keeps_prepareForSleep going) d h

/-! ### Any number of turns -/

theorem completes_onMonitor_pollInterval {α : Type} {act : Monitor.M Clockwork α} {d d' : Daemon}
    {a : α} (h : Completes (onMonitor act) d a d') : d'.pollInterval = d.pollInterval := by
  rw [← h.after_eq]
  unfold after
  rw [run_onMonitor]

theorem completes_readSource_pollInterval {d d' : Daemon} {readings : Option (List Reading)}
    (h : Completes readSource d readings d') : d'.pollInterval = d.pollInterval := by
  rw [← h.after_eq]
  unfold after
  rw [run_readSource]
  split <;> rfl

theorem tuned_start {d₀ d : Daemon} (h : d₀.Polls none []) (hstart : Completes start d₀ () d) :
    (interval? d₀.pollInterval).isSome ∧ d.Tuned (interval? d₀.pollInterval) := by
  obtain ⟨readings, d₁, hread, hstart⟩ := completes_bind.1 hstart
  obtain ⟨u, d₂, hprime, hstart⟩ := completes_bind.1 hstart
  obtain ⟨u', d₃, hschedule, hsleep⟩ := completes_bind.1 hstart
  have h₂ : d₂.Polls none [] := hprime.keeps (keeps_onMonitor (Monitor.keeps_beside_prime readings))
    (hread.keeps keeps_readSource h)
  have hinterval : d₂.pollInterval = d₀.pollInterval :=
    (completes_onMonitor_pollInterval hprime).trans (completes_readSource_pollInterval hread)
  have h₃ : d₃.Tuned (interval? d₀.pollInterval) := by
    have htuned := tuned_schedulePoll h₂
    rwa [hschedule.after_eq, hinterval] at htuned
  refine ⟨?_, ?_⟩
  · -- a refused interval would have stopped the start
    rw [← hinterval, interval?]
    cases hms : Loop.intervalOf 1000 d₂.pollInterval with
    | ok ms => rfl
    | error fault => cases hschedule.symm.trans (run_schedulePoll_of_error hms)
  · obtain rfl := completes_modify.1 hsleep
    refine keeps_tuned watchSleep (fun poll polls => keeps_modify fun d hd => ?_) d₃ h₃
    split <;> exact hd

/-- The interval that was asked for last, the first one at the start. -/
def lastAsked (first : Value) (d : Daemon) : List Turn → Value
  | [] => first
  | e :: past => (e.asks (afterAll Turn.act d past)).getD (lastAsked first d past)

/-- The last interval that was accepted, in milliseconds. -/
def lastAccepted (first : Value) (d : Daemon) : List Turn → Option Nat
  | [] => interval? first
  | e :: past => ((e.asks (afterAll Turn.act d past)).bind interval?).or (lastAccepted first d past)

theorem lastAccepted_of_lastAsked {first : Value} {d : Daemon} {ms : Nat} : ∀ {past : List Turn},
    interval? (lastAsked first d past) = some ms → lastAccepted first d past = some ms
  | [], h => h
  | e :: past, h => by
    unfold lastAsked at h
    unfold lastAccepted
    cases hasks : e.asks (afterAll Turn.act d past) with
    | none =>
      rw [hasks] at h
      exact lastAccepted_of_lastAsked h
    | some seconds =>
      rw [hasks, Option.getD_some] at h
      rw [Option.bind_some, h]
      rfl

theorem tuned_afterAll {first : Value} {d : Daemon} (h : d.Tuned (interval? first)) :
    ∀ {past : List Turn},
      (∀ e earlier, e :: earlier <:+ past → e.PollsOn (afterAll Turn.act d earlier)) →
      (afterAll Turn.act d past).Tuned (interval? (lastAsked first d past))
  | [], _ => h
  | e :: past, hon => by
    obtain ⟨he, hpast⟩ := forall_suffix_cons.1 hon
    have hturn := tuned_act (tuned_afterAll h hpast) he
    unfold lastAsked
    cases hasks : e.asks (afterAll Turn.act d past) with
    | none => rwa [hasks] at hturn
    | some seconds => rwa [hasks] at hturn

theorem polls_create (source : Source) (store : Store) (interval delay : Value) (bus : Bus)
    (now : Nat) (agenda : Option Agenda) :
    (create source store interval delay bus { loop := { now }, agenda }).Polls none [] :=
  ⟨rfl, ⟨List.nodup_nil, nofun⟩, nofun, rfl, nofun, fun _ => nofun⟩

/-- **Exactly one poll is in the loop iff the last interval that was asked for was accepted.**  Let the
daemon have been started, and let intervals be set and settings be read again, whatever they hold, between
polls that ask for the next one and whatever else goes on.  The poll is then the one that the daemon
knows, and its interval is the last one that was accepted.  After a refused interval the loop holds no
poll. -/
theorem one_poll_iff {source : Source} {store : Store} {first delay : Value} {bus : Bus} {now : Nat}
    {agenda : Option Agenda} {d : Daemon} {past : List Turn}
    (hstart : Completes start
      (create source store first delay bus { loop := { now }, agenda }) () d)
    (hon : ∀ e earlier, e :: earlier <:+ past → e.PollsOn (afterAll Turn.act d earlier)) :
    let s := afterAll Turn.act d past
    ((∃ id ms, s.pollSource = some id ∧ s.loop.polls = [(id, ms)] ∧
        lastAccepted first d past = some ms) ↔
      (interval? (lastAsked first d past)).isSome) ∧
    (interval? (lastAsked first d past) = none → s.loop.polls = []) := by
  intro s
  have htuned : s.Tuned (interval? (lastAsked first d past)) :=
    tuned_afterAll (tuned_start (polls_create ..) hstart).2 hon
  cases hlast : interval? (lastAsked first d past) with
  | some ms =>
    rw [hlast] at htuned
    obtain ⟨id, hid, hbeside⟩ := htuned
    refine ⟨⟨fun _ => rfl, fun _ => ?_⟩, nofun⟩
    exact ⟨id, ms, hid, hbeside.holds, lastAccepted_of_lastAsked hlast⟩
  | none =>
    rw [hlast] at htuned
    obtain ⟨poll, -, hbeside⟩ := htuned
    refine ⟨⟨?_, nofun⟩, fun _ => hbeside.holds⟩
    rintro ⟨id, ms, -, hpolls, -⟩
    cases (show s.loop.polls = [] from hbeside.holds).symm.trans hpolls

/-- A daemon that reads no batteries, and polls for them every five seconds. -/
def polling : Daemon :=
  after start (create (.listing {}) .inMemory (.int 5) (.int 1) {} {})

/-- The poll is called once, a text is refused as an interval, and then seven seconds are asked for. -/
def retuned : List Turn :=
  [.setInterval (.int 7), .setInterval (.text "7"), .call 1, .clock 1005000]

theorem one_poll_iff_retuned :
    Completes start (create (.listing {}) .inMemory (.int 5) (.int 1) {} {}) () polling ∧
    let s := afterAll Turn.act polling retuned
    ∃ id, s.pollSource = some id ∧ s.loop.polls = [(id, 7000)] := by
  have hstart : Completes start (create (.listing {}) .inMemory (.int 5) (.int 1) {} {}) () polling :=
    completes_of_outcome (by decide +kernel)
  have hon : ∀ e earlier, e :: earlier <:+ retuned → e.PollsOn (afterAll Turn.act polling earlier) := by
    simp only [retuned, forall_suffix_cons]
    refine ⟨trivial, trivial, fun _ _ _ _ => by decide +kernel, trivial, forall_suffix_nil⟩
  obtain ⟨id, ms, hid, hpolls, hms⟩ := (one_poll_iff hstart hon).1.2 (by decide +kernel)
  have h7000 : lastAccepted (.int 5) polling retuned = some 7000 := by decide +kernel
  obtain rfl := Option.some.inj (hms.symm.trans h7000)
  exact ⟨hstart, id, hid, hpolls⟩

/-- A negative interval is refused, and the poll that was there is gone. -/
theorem no_poll_after_refusal :
    polling.loop.polls = [(1, 5000)] ∧
      (after (setPollInterval (.int (-1))) polling).pollSource = some 1 ∧
      (after (setPollInterval (.int (-1))) polling).loop.polls = [] := by
  decide +kernel

/-! ### Letting time pass -/

/-- The turn is one of the loop itself. -/
def Turn.isOfLoop : Turn → Bool
  | call _ | clock _ => true
  | setInterval _ | reload .. | files _ | sensor _ | sleep _ => false

/-- The loop gets there by itself. -/
def RunsTo (d d' : Daemon) : Prop :=
  ∃ turns : List Turn, turns.all (·.isOfLoop) ∧ d' = afterAll Turn.act d turns

theorem RunsTo.refl (d : Daemon) : d.RunsTo d := ⟨[], rfl, rfl⟩

theorem RunsTo.turn {d d' : Daemon} (h : d.RunsTo d') {e : Turn} (he : e.isOfLoop = true) :
    d.RunsTo (after e.act d') := by
  obtain ⟨turns, hturns, rfl⟩ := h
  exact ⟨e :: turns, by rw [List.all_cons, he, hturns]; rfl, rfl⟩

theorem runsTo_callAll (ids : List Nat) {d d' : Daemon} (h : d.RunsTo d') :
    d.RunsTo ((Loop.callAll perform ids).run d').2 := by
  induction ids generalizing d' with
  | nil => exact h
  | cons id ids ih => exact ih (h.turn (e := .call id) rfl)

theorem runsTo_runUntil (limit rounds : Nat) {d d' : Daemon} (h : d.RunsTo d') :
    d.RunsTo ((Loop.runUntil perform limit rounds).run d').2 := by
  induction rounds generalizing d' with
  | zero => exact h
  | succ rounds ih =>
    unfold Loop.runUntil
    rw [run_state_bind]
    split
    · exact h
    · rename_i deadline _
      exact ih (runsTo_callAll _ (h.turn (e := .clock (max d'.loop.now deadline)) rfl))

/-- **Letting time pass** is to set the clock and to call sources, one after the other. -/
theorem exists_turns_advance (ms : Nat) (d : Daemon) :
    d.RunsTo ((Loop.advance perform ms).run d).2 :=
  (runsTo_runUntil (d.loop.now + ms) (4 * (ms + 2)) (.refl d)).turn (e := .clock (d.loop.now + ms)) rfl

end Daemon

end BatteryMonitor
