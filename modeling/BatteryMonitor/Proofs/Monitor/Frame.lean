import BatteryMonitor.Proofs.Monitor.States

/-!
# What the pipeline leaves alone

A run of the pipeline changes what a monitor keeps for its batteries, and touches the store only to remove a
record or to publish one; it does not touch the watch.  So a property of the watch and the store that
these two operations keep (`Monitor.Framed`) is kept by the whole pipeline, also when it stops halfway.
-/

namespace BatteryMonitor

namespace Monitor

open Effect

variable {τ : Type} {P : Monitor τ → Prop}

/-- A property of the watch and the store that is kept when records are removed and published. -/
structure Framed (P : Monitor τ → Prop) : Prop where
  congr : ∀ m m', m'.watch = m.watch → m'.store = m.store → P m → P m'
  removes : ∀ key, Keeps P (onStore (Store.removeValue key))
  publishes : ∀ key state snapshot, Keeps P (onStore (Store.publish key state snapshot))

namespace Framed

-- these lemmas follow their operations step by step

theorem withBatteries (hP : Framed P) {f : Monitor τ → Monitor τ} (hwatch : ∀ m, (f m).watch = m.watch)
    (hstore : ∀ m, (f m).store = m.store) : Keeps P (modify f : M τ PUnit) :=
  keeps_modify fun m hm => hP.congr m _ (hwatch m) (hstore m) hm

theorem setState (hP : Framed P) (i : Nat) (s : BatteryState) :
    Keeps P (setState i s : M τ Unit) :=
  hP.withBatteries (fun _ => rfl) fun _ => rfl

theorem dropBattery (hP : Framed P) (i : Nat) : Keeps P (dropBattery i : M τ Unit) := by
  refine keeps_bind keeps_get fun m =>
    keeps_bind (hP.withBatteries (fun _ => rfl) fun _ => rfl) fun _ => ?_
  split
  · exact keeps_ite (keeps_pure _) (hP.removes _)
  · exact keeps_pure _

theorem syncStates (hP : Framed P) : Keeps P (syncStates : M τ Unit) := by
  refine keeps_bind keeps_get fun m => keeps_bind keeps_get fun m' => ?_
  refine keeps_bind (keeps_forIn (fun entry _ _ => ?_) _) fun _ =>
    keeps_bind (keeps_forIn (fun index _ _ => ?_) _) fun _ => keeps_pure _
  · exact keeps_ite (keeps_bind (hP.dropBattery _) fun _ => keeps_pure _) (keeps_pure _)
  · refine keeps_bind keeps_get fun m => keeps_ite ?_ (keeps_pure _)
    exact keeps_bind (hP.setState _ _) fun _ => keeps_pure _

theorem moveKey (hP : Framed P) (i : Nat) (key : Value) : Keeps P (moveKey i key : M τ Unit) := by
  refine keeps_bind keeps_get fun m => ?_
  split
  · refine keeps_ite (keeps_bind (hP.removes _) fun _ => ?_) (keeps_pure _)
    refine keeps_bind keeps_get fun m => ?_
    split
    · exact hP.setState _ _
    · exact keeps_pure _
  · exact keeps_pure _

variable [Scheduler τ]

theorem estimateAll (hP : Framed P) : Keeps P (estimateAll : M τ Unit) := by
  refine keeps_bind keeps_get fun m => ?_
  split
  · exact keeps_throw _
  · split
    refine keeps_bind (hP.withBatteries (fun _ => rfl) fun _ => rfl) fun _ => ?_
    split
    · exact keeps_throw _
    · exact keeps_pure _

theorem publishOne (hP : Framed P) (i : Nat) (r : Reading) :
    Keeps P (publishOne i r : M τ Unit) := by
  refine keeps_bind keeps_get fun m => ?_
  split
  · exact keeps_throw _
  · split
    · exact keeps_throw _
    · refine keeps_bind (hP.setState _ _) fun _ => keeps_bind (hP.moveKey _ _) fun _ => ?_
      refine keeps_bind (hP.withBatteries (fun _ => rfl) fun _ => rfl) fun _ =>
        keeps_bind keeps_get fun m => ?_
      split
      · exact keeps_throw _
      · refine keeps_bind (hP.publishes _ _ _) fun _ => keeps_ite ?_ (keeps_pure _)
        exact hP.setState _ _

theorem run (hP : Framed P) : Keeps P (run : M τ Unit) := by
  refine keeps_bind hP.estimateAll fun _ => keeps_bind keeps_get fun m => ?_
  refine keeps_bind (keeps_forIn (fun entry _ _ => ?_) _) fun _ => keeps_pure _
  exact keeps_bind (hP.publishOne _ _) fun _ => keeps_pure _

/-- **The pipeline keeps such a property.** -/
theorem refresh (hP : Framed P) : Keeps P (refresh : M τ Unit) :=
  keeps_bind keeps_get fun _ => keeps_ite (keeps_pure _) hP.run

end Framed

theorem framed_watch (w : Watch τ) : Framed fun m => m.watch = w where
  congr _ _ hwatch _ hm := hwatch.trans hm
  removes _ := keeps_onStore (P := (· = w)) _
  publishes _ _ _ := keeps_onStore (P := (· = w)) _

end Monitor

end BatteryMonitor
