import BatteryMonitor.Proofs.Monitor.Ownership
import BatteryMonitor.Proofs.Monitor.Suppression

/-!
# A bench is one way in which time goes on

An event on a bench says which timer is let run and what the clock is set to, where an event of a
monitor only says that its timer has run, or that time has passed in any way at all.  What holds
of all events of a monitor holds of those on a bench, since each of them is one that starts when
some timer may have been taken off (`Monitor.BenchEvent.run_observe`).
-/

namespace BatteryMonitor

namespace Monitor

open Effect

variable {m m' : Monitor Bench} {o : Option (List Snapshot)} {before : Table Value}

/-- The monitor with other timers pending. -/
def withAgenda (m : Monitor Bench) (agenda : Agenda) : Monitor Bench :=
  HasAgenda.setAgenda agenda m

/-- The event of a monitor that an event on a bench is, and the timers that are pending when it
starts. -/
def BenchEvent.plain (timers : Bench) : BenchEvent → Event Bench × Agenda
  | request r => (.request r, timers.agenda)
  | fire handle =>
    match timers.agenda.take? handle with
    | none => (.elapse timers, timers.agenda)
    | some (.windowOver, agenda) => (.windowOver, agenda)
    | some (.wakeSettled, agenda) => (.request .wake, agenda)
  | tick now => (.elapse { timers with clock := now }, timers.agenda)
  | support supported => (.support supported, timers.agenda)

theorem BenchEvent.brought_plain (e : BenchEvent) (timers : Bench) :
    (e.plain timers).1.brought = e.brought := by
  cases e with
  | fire handle =>
    simp only [plain]
    split <;> rfl
  | request r => rfl
  | tick now => rfl
  | support supported => rfl

/-- **An event on a bench is an event of the monitor.** -/
theorem BenchEvent.run_observe (e : BenchEvent) (m : Monitor Bench) :
    e.observe.run.run m = (e.plain m.watch.timers).1.observe.run.run
      (m.withAgenda (e.plain m.watch.timers).2) := by
  cases e with
  | fire handle =>
    rw [observe, plain, run_get_bind]
    rcases m.watch.timers.agenda.take? handle with _ | ⟨_ | _, agenda⟩ <;> rfl
  | request r => rfl
  | tick now => rfl
  | support supported => rfl

theorem BenchEvent.completes_observe {e : BenchEvent} : Completes e.observe m o m' ↔ Completes
    (e.plain m.watch.timers).1.observe (m.withAgenda (e.plain m.watch.timers).2) o m' := by
  rw [Completes, run_observe, Completes]

/-- What all events of a monitor keep is kept on a bench, if timers may be taken off. -/
theorem BenchEvent.keeps_observe {P : Monitor Bench → Prop} {e : BenchEvent}
    (hagenda : ∀ m agenda, P m → P (m.withAgenda agenda))
    (h : ∀ e' : Event Bench, e'.brought = e.brought → Keeps P e'.observe) : Keeps P e.observe := by
  intro m hm
  rw [after, run_observe]
  exact h _ (e.brought_plain _) _ (hagenda m _ hm)

/-! ### With a listener -/

theorem coupled_bench (e : BenchEvent) : Coupled Overhears e.observe e.observe := by
  intro m n hmn
  have hwatch : n.watch = m.watch := by rw [hmn.eq]
  unfold after
  rw [e.run_observe m, e.run_observe n, hwatch]
  refine coupled_observe (e.plain m.watch.timers).1 _ _ ⟨?_, hmn.store⟩
  rw [hmn.eq]
  rfl

theorem coupled_act (e : BenchEvent) : Coupled Overhears e.act e.act := by
  rw [e.act_eq]
  exact coupled_discard (coupled_bench e)

theorem Kept.withAgenda (h : m.Kept before) (agenda : Agenda) : (m.withAgenda agenda).Kept before :=
  h.congr rfl rfl rfl fun _ => rfl

/-! ### Histories -/

/-- **What endures holds after every history**, whatever stopped on the way. -/
theorem Enduring.afterAll_bench {good : Nat → Reading → Prop} {P : Monitor Bench → Prop}
    {past : List BenchEvent} (hP : Enduring before good P) (hstart : P m)
    (hlists : ∀ e ∈ past, ∀ rs ∈ e.brought, ∀ (i : Nat) (r : Reading), rs[i]? = some r → good i r) :
    P (afterAll BenchEvent.act m past) := by
  refine afterAll_induction hstart (fun e hbrought => ?_) hlists
  rw [e.act_eq]
  exact keeps_discard (BenchEvent.keeps_observe (fun _ _ hm => hP.watched _ hm) fun e' he' =>
    hP.keeps_observe (he' ▸ hbrought))

end Monitor

end BatteryMonitor
