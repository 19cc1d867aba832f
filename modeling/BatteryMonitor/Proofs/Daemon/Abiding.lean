import BatteryMonitor.Proofs.Daemon.Interval
import BatteryMonitor.Proofs.Monitor.Frame

/-!
# What a daemon cannot take from its store

All that a daemon does to its store is done by the operations of the store.  So a property that they keep,
whatever the records and the subscribers are (`Store.Abiding`), is kept by everything that a daemon does: by
polls and alarms (`Store.Abiding.perform`), by what the bus tells and the settings ask for, and by its loop
while time passes (`Store.Abiding.advance`); also where one of these stops with a fault.
-/

namespace BatteryMonitor

open Effect

theorem Daemon.state_forIn {σ ι : Type} {I : σ → Prop} {f : StateM σ PUnit}
    (h : ∀ s, I s → I (f.run s).2) (xs : List ι) {s : σ} (hs : I s) :
    I ((forIn xs PUnit.unit fun _ _ => do
      f
      pure (ForInStep.yield PUnit.unit) : StateM σ PUnit).run s).2 := by
  induction xs generalizing s with
  | nil => exact hs
  | cons x xs ih =>
    rw [List.forIn_cons]
    exact ih (h s hs)

namespace Store

/-- A property of a store that is kept when its file is written, whatever records and subscribers come and
go, and whatever is heard. -/
structure Abiding (P : Store → Prop) : Prop extends Lasting P where
  told : ∀ s n, P s → P (s.told n)
  insert : ∀ s k v, P s → P { s with values := s.values.insert k v }

namespace Abiding

variable {P : Store → Prop} {d : Daemon} {α : Type}

theorem removeValue (hP : Abiding P) (key : Value) : Keeps P (removeValue key) :=
  keeps_removeValue hP.toLasting fun s _ _ _ => hP.told s _

theorem setValue (hP : Abiding P) (key record : Value) : Keeps P (setValue key record) :=
  keeps_setValue hP.toLasting (fun s _ _ _ _ _ => hP.told s _) fun s k _ _ _ => hP.insert s k _

theorem publish (hP : Abiding P) (key : Value) (state : BatteryState) (snapshot : Snapshot) :
    Keeps P (publish key state snapshot) := by
  unfold Store.publish
  split
  · exact keeps_ite (keeps_pure _) (keeps_bind (hP.setValue _ _) fun _ => keeps_pure _)
  · exact keeps_bind (hP.setValue _ _) fun _ => keeps_pure _

/-! ### Monitors -/

section Monitor

variable {τ : Type}

theorem framed (hP : Abiding P) : Monitor.Framed fun m : Monitor τ => P m.store where
  congr _ _ _ hstore hm := hstore ▸ hm
  removes key := Monitor.keeps_onStore_of (fun _ => id) (fun _ _ _ => id) (hP.removeValue key)
  publishes key state snapshot :=
    Monitor.keeps_onStore_of (fun _ => id) (fun _ _ _ => id) (hP.publish key state snapshot)

variable [Scheduler τ]

theorem batteriesChanged (hP : Abiding P) (readings : List Reading) :
    Keeps (fun m => P m.store) (Monitor.batteriesChanged readings : Monitor.M τ Unit) :=
  keeps_bind (keeps_modify fun _ hm => hm) fun _ => keeps_bind hP.framed.syncStates fun _ =>
    keeps_bind (Monitor.keeps_store_onWatch _) fun _ => hP.framed.refresh

theorem prime (hP : Abiding P) (readings : Option (List Reading)) :
    Keeps (fun m => P m.store) (Monitor.prime readings : Monitor.M τ Unit) := by
  rcases readings with _ | _ | ⟨r, rs⟩
  · exact keeps_pure _
  · exact keeps_pure _
  · exact hP.batteriesChanged (r :: rs)

theorem handle (hP : Abiding P) (alarm : Alarm) :
    Keeps (fun m => P m.store) (Monitor.handle alarm : Monitor.M τ Unit) := by
  cases alarm with
  | windowOver => exact keeps_bind (Monitor.keeps_store_onWatch _) fun _ => hP.framed.refresh
  | wakeSettled =>
    exact keeps_bind keeps_get fun m => keeps_ite (keeps_pure _)
      (keeps_bind (Monitor.keeps_store_onWatch _) fun _ => hP.framed.run)

end Monitor

/-! ### Daemons -/

theorem onMonitor {act : Monitor.M Clockwork α} (h : Keeps (fun m => P m.store) act) :
    Keeps (fun d => P d.monitor.store) (Daemon.onMonitor act) := by
  intro d hd
  unfold after
  rw [Daemon.run_onMonitor]
  exact h d.monitor hd

theorem readSource : Keeps (fun d => P d.monitor.store) Daemon.readSource := by
  intro d hd
  unfold after
  rw [Daemon.run_readSource]
  split <;> exact hd

theorem update (hP : Abiding P) : Keeps (fun d => P d.monitor.store) Daemon.update := by
  refine keeps_bind readSource fun readings => ?_
  cases readings with
  | none => exact keeps_pure _
  | some readings => exact keeps_bind (onMonitor (hP.batteriesChanged readings)) fun _ => keeps_pure _

theorem perform (hP : Abiding P) (task : Task) :
    Keeps (fun d => P d.monitor.store) (Daemon.perform task) := by
  cases task with
  | poll => exact hP.update
  | alarm alarm => exact keeps_bind (onMonitor (hP.handle alarm)) fun _ => keeps_pure _

theorem schedulePoll : Keeps (fun d => P d.monitor.store) Daemon.schedulePoll := by
  have hcleared (d : Daemon) (hd : P d.monitor.store) : P d.withoutPoll.monitor.store := by
    unfold Daemon.withoutPoll
    split <;> exact hd
  intro d hd
  unfold after
  cases hms : Loop.intervalOf 1000 d.pollInterval with
  | ok ms =>
    rw [Daemon.run_schedulePoll_of_ok hms]
    exact hcleared d hd
  | error fault =>
    rw [Daemon.run_schedulePoll_of_error hms]
    exact hcleared d hd

theorem watchSleep : Keeps (fun d => P d.monitor.store) Daemon.watchSleep := by
  refine keeps_modify fun d hd => ?_
  split <;> exact hd

theorem start (hP : Abiding P) : Keeps (fun d => P d.monitor.store) Daemon.start :=
  keeps_bind readSource fun readings => keeps_bind (onMonitor (hP.prime readings)) fun _ =>
    keeps_bind schedulePoll fun _ => watchSleep

theorem quit : Keeps (fun d => P d.monitor.store) Daemon.quit :=
  keeps_modify fun _ hd => hd

theorem reload (site : Site) (named : Option Value) :
    Keeps (fun d => P d.monitor.store) (CommandLine.Service.reload site named) := by
  refine keeps_bind keeps_get fun d => ?_
  split
  · exact keeps_throw _
  · exact keeps_bind (keeps_bind (keeps_modify fun _ hd => hd) fun _ => schedulePoll)
      fun _ => keeps_pure _

theorem prepareForSleep (going : Value) :
    Keeps (fun d => P d.monitor.store) (Daemon.prepareForSleep [going]) := by
  refine keeps_ite (keeps_pure _) (keeps_get_bind fun d hd => ?_)
  dsimp only
  generalize Scheduler.schedule d.wakeDelay Alarm.wakeSettled d.monitor.watch.timers = outcome
  rcases outcome with ⟨fault | handle, timers⟩ <;> exact hd

/-! ### The loop -/

theorem guarded {act : Daemon.M Bool} (h : Keeps (fun d => P d.monitor.store) act)
    (hd : P d.monitor.store) : P ((Loop.guarded act).run d).2.monitor.store := by
  have hafter : P (act.run.run d).2.monitor.store := h d hd
  rw [Daemon.run_guarded]
  generalize act.run.run d = outcome at hafter ⊢
  rcases outcome with ⟨fault | again, d'⟩ <;> exact hafter

theorem called (hP : Abiding P) (id : Nat) (hd : P d.monitor.store) :
    P (Daemon.Turn.called id d).monitor.store := by
  cases hfind : d.loop.find? id with
  | none =>
    rw [Daemon.called_of_none hfind]
    exact hd
  | some source =>
    rw [Daemon.called_of_some hfind rfl]
    exact guarded (hP.perform source.action) hd

/-- **Nothing in the loop takes it away**, however much time passes. -/
theorem advance (hP : Abiding P) (ms : Nat) (hd : P d.monitor.store) :
    P ((Loop.advance Daemon.perform ms).run d).2.monitor.store := by
  obtain ⟨turns, hturns, heq⟩ := Daemon.exists_turns_advance ms d
  rw [heq]
  refine afterAll_induction (I := fun d : Daemon => P d.monitor.store)
    (Q := fun e : Daemon.Turn => e.isOfLoop = true) hd (fun e he => ?_) (List.all_eq_true.1 hturns)
  cases e with
  | call id => exact keeps_modify fun d hd => hP.called id hd
  | clock now => exact keeps_modify fun d hd => hd
  | setInterval | reload | files | sensor | sleep => cases he

theorem tellListeners (going : Value) (hd : P d.monitor.store) :
    P ((Daemon.tellListeners going).run d).2.monitor.store := by
  have htell : Keeps (fun d => P d.monitor.store)
      (do Daemon.prepareForSleep [going]; return true : Daemon.M Bool) :=
    keeps_bind (prepareForSleep going) fun _ => keeps_pure _
  have hpass (d : Daemon) (hd : P d.monitor.store) :
      P ((Loop.guarded (do Daemon.prepareForSleep [going]; return true)).run d).2.monitor.store :=
    guarded htell hd
  exact Daemon.state_forIn (I := fun d : Daemon => P d.monitor.store)
    (f := discard <| Loop.guarded (do Daemon.prepareForSleep [going]; return true))
    hpass d.bus.listeners hd

end Abiding

end Store

end BatteryMonitor
