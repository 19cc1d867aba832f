import BatteryMonitor.Proofs.Monitor.Events

/-!
# Listening in

What a monitor writes is told to the subscribers of its store, but there may be none, and one that
fails keeps the news from those after it.  To speak of all that is written along a history, a
listener is put in front of all subscribers (`Monitor.overheard`): it is the first to hear of
everything.

The listener changes nothing else.  Every operation has the same outcome with it and without it,
and leaves the same monitor but for what was heard (`Monitor.coupled_observe`), so that a history
without the listener is what it hears when it is there (`Monitor.overhears_afterAll`).
-/

namespace BatteryMonitor

open Effect

/-- A listener. -/
def ear : Subscriber := { name := "ear" }

namespace Store

/-- The store with a listener in front of all subscribers, who has not heard anything yet. -/
def overheard (s : Store) : Store := { s with subscribers := ear :: s.subscribers, heard := [] }

/-- The second store has the listener, and is otherwise like the first one, whatever was heard. -/
def Overhears (s t : Store) : Prop :=
  t = { s with subscribers := ear :: s.subscribers, heard := t.heard }

variable {s t : Store}

theorem overhears_overheard (s : Store) : s.Overhears s.overheard := rfl

namespace Overhears

theorem values (h : s.Overhears t) : t.values = s.values := by rw [h]

theorem subscribers (h : s.Overhears t) : t.subscribers = ear :: s.subscribers := by rw [h]

theorem told (h : s.Overhears t) (n : Notification) : (s.told n).Overhears (t.told n) := by
  rw [h]
  rfl

theorem withDisk (h : s.Overhears t) (disk : Disk) :
    Overhears { s with disk } { t with disk } := by
  rw [h]
  rfl

theorem withValues (h : s.Overhears t) (values : Table Value) :
    Overhears { s with values } { t with values } := by
  rw [h]
  rfl

theorem subscribe (h : s.Overhears t) (subscriber : Subscriber) :
    (s.subscribe subscriber).Overhears (t.subscribe subscriber) := by
  rw [h]
  rfl

end Overhears

/-! ### Operations on a store -/

theorem coupled_save : Coupled Overhears save save := by
  have hpersist (change : Disk → Except Fault Disk) :
      Coupled Overhears (persist change) (persist change) := by
    refine coupled_get_bind fun s t h => ?_
    rw [show t.disk = s.disk by rw [h]]
    split
    · exact coupled_bind (coupled_set (h.withDisk _)) fun _ => coupled_pure _
    · exact coupled_pure _
    · exact coupled_throw _
  refine coupled_get_bind fun s t h => ?_
  rw [show t.backing = s.backing by rw [h]]
  split
  · exact coupled_pure _
  · refine coupled_bind (hpersist _) fun made => coupled_ite ?_ (coupled_pure _)
    refine coupled_bind (hpersist _) fun cleared => coupled_ite ?_ (coupled_pure _)
    refine coupled_get_bind fun s t h => coupled_bind ?_ fun text => ?_
    · rw [h.values]
      cases Json.print (.object s.values) with
      | ok text => exact coupled_pure _
      | error fault => exact coupled_throw _
    · refine coupled_bind (hpersist _) fun written => coupled_ite ?_ (coupled_pure _)
      exact coupled_discard (hpersist _)

theorem coupled_hear (subscriber : Subscriber) (key : Key) (record : Option Value) :
    Coupled Overhears (hear subscriber key record) (hear subscriber key record) :=
  coupled_modify fun _ _ h => h.told _

theorem coupled_react (subscriber : Subscriber) :
    Coupled Overhears (react subscriber) (react subscriber) := by
  unfold react
  split
  · exact coupled_modify fun _ _ h => h.subscribe _
  · exact coupled_throw _
  · exact coupled_pure _
  · exact coupled_pure _

theorem overhears_ear (h : s.Overhears t) (n : Notification) : s.Overhears (t.told n) := by
  rw [h]
  rfl

theorem coupled_announceRemoval (key : Key) :
    Coupled Overhears (announceRemoval key) (announceRemoval key) := by
  refine coupled_get_bind fun s t h => coupled_bind ?_ fun _ => coupled_pure _
  rw [h.subscribers, List.forIn_cons]
  refine coupled_bind_right (b := .yield ⟨⟩) (fun s t h => ⟨_, rfl, overhears_ear h _⟩) ?_
  refine coupled_forIn (fun subscriber _ => ?_) _ _
  exact coupled_bind (coupled_hear _ _ _) fun _ => coupled_bind (coupled_react _)
    fun _ => coupled_pure _

theorem coupled_removeValue (key : Value) :
    Coupled Overhears (removeValue key) (removeValue key) := by
  refine coupled_get_bind fun s t h => ?_
  rw [h.values]
  dsimp only
  split
  · exact coupled_save
  · split
    · exact coupled_bind (coupled_throw _) fun _ => coupled_save
    · refine coupled_bind (coupled_set (h.withValues _)) fun _ => ?_
      split
      · exact coupled_save
      · exact coupled_save
      · exact coupled_bind (coupled_announceRemoval _) fun _ => coupled_save

theorem coupled_announce (key : Key) (record : Value) :
    Coupled Overhears (announce key record) (announce key record) := by
  refine coupled_get_bind fun s t h => coupled_bind ?_ fun _ => coupled_pure _
  rw [h.subscribers, List.forIn_cons]
  refine coupled_bind_right (b := .yield ⟨⟩) (fun s t h => ⟨_, rfl, overhears_ear h _⟩) ?_
  refine coupled_forIn (fun subscriber _ => ?_) _ _
  refine coupled_bind (coupled_hear _ _ _) fun _ => coupled_bind (coupled_react _) fun _ => ?_
  exact coupled_ite (coupled_bind (coupled_removeValue _) fun _ => coupled_pure _)
    (coupled_pure _)

theorem coupled_setValue (key record : Value) :
    Coupled Overhears (setValue key record) (setValue key record) := by
  unfold setValue
  split
  · exact coupled_throw _
  · exact coupled_throw _
  · refine coupled_bind (coupled_modify fun s t h => ?_) fun _ =>
      coupled_bind (coupled_announce _ _) fun _ => coupled_save
    rw [h.values]
    exact h.withValues _

theorem coupled_publish (key : Value) (state : BatteryState) (snapshot : Snapshot) :
    Coupled Overhears (publish key state snapshot) (publish key state snapshot) := by
  unfold publish
  have hwrite := coupled_bind (coupled_setValue key (.object snapshot.toRecord))
    fun _ => coupled_pure true
  split
  · exact coupled_ite (coupled_pure _) hwrite
  · exact hwrite

end Store

namespace Monitor

variable {τ : Type} {m n : Monitor τ} {α : Type}

/-- The monitor with a listener in front of all subscribers of its store. -/
def overheard (m : Monitor τ) : Monitor τ := { m with store := m.store.overheard }

/-- The second monitor has the listener, and is otherwise like the first one, whatever was
heard. -/
structure Overhears (m n : Monitor τ) : Prop where
  eq : n = { m with store := n.store }
  store : m.store.Overhears n.store

theorem overhears_overheard (m : Monitor τ) : m.Overhears m.overheard :=
  ⟨rfl, Store.overhears_overheard m.store⟩

/-! ### Operations on a monitor -/

theorem coupled_onStore {act : Store.M α} (h : Coupled Store.Overhears act act) :
    Coupled Overhears (onStore act : M τ α) (onStore act) := by
  intro m n hmn
  unfold after
  rw [run_onStore, run_onStore]
  obtain ⟨hout, hafter⟩ := h _ _ hmn.store
  refine ⟨hout, ?_, hafter⟩
  rw [hmn.eq]

theorem coupled_onWatch (act : Watch.M τ α) :
    Coupled Overhears (onWatch act : M τ α) (onWatch act) := by
  intro m n hmn
  unfold after
  rw [run_onWatch, run_onWatch, show n.watch = m.watch by rw [hmn.eq]]
  refine ⟨rfl, ?_, hmn.store⟩
  rw [hmn.eq]

theorem coupled_setState (i : Nat) (s : BatteryState) :
    Coupled Overhears (setState i s : M τ Unit) (setState i s) :=
  coupled_modify fun m n h => ⟨by rw [h.eq], h.store⟩

theorem coupled_dropBattery (i : Nat) :
    Coupled Overhears (dropBattery i : M τ Unit) (dropBattery i) := by
  refine coupled_get_bind fun m n h => ?_
  rw [show n.keys = m.keys by rw [h.eq]]
  refine coupled_bind (coupled_modify fun m n h => ⟨by rw [h.eq], h.store⟩) fun _ => ?_
  split
  · exact coupled_ite (coupled_pure _) (coupled_onStore (Store.coupled_removeValue _))
  · exact coupled_pure _

theorem coupled_syncStates : Coupled Overhears (syncStates : M τ Unit) syncStates := by
  refine coupled_get_bind fun m n h => ?_
  rw [show n.readings = m.readings by rw [h.eq]]
  refine coupled_get_bind fun m n h => ?_
  rw [show n.states = m.states by rw [h.eq]]
  refine coupled_bind (coupled_forIn (fun entry _ => ?_) _ _) fun _ =>
    coupled_bind (coupled_forIn (fun index _ => ?_) _ _) fun _ => coupled_pure _
  · exact coupled_ite (coupled_bind (coupled_dropBattery _) fun _ => coupled_pure _)
      (coupled_pure _)
  · refine coupled_get_bind fun m n h => ?_
    rw [show n.state? index = m.state? index by rw [h.eq]; rfl]
    exact coupled_ite (coupled_bind (coupled_setState _ _) fun _ => coupled_pure _)
      (coupled_pure _)

theorem coupled_moveKey (i : Nat) (key : Value) :
    Coupled Overhears (moveKey i key : M τ Unit) (moveKey i key) := by
  refine coupled_get_bind fun m n h => ?_
  rw [show n.keys = m.keys by rw [h.eq]]
  split
  · refine coupled_ite (coupled_bind (coupled_onStore (Store.coupled_removeValue _)) fun _ => ?_)
      (coupled_pure _)
    refine coupled_get_bind fun m n h => ?_
    rw [show n.state? i = m.state? i by rw [h.eq]; rfl]
    split
    · exact coupled_setState _ _
    · exact coupled_pure _
  · exact coupled_pure _

theorem coupled_place (i : Nat) (key : Value) (snapshot : Snapshot) :
    Coupled Overhears (place i key snapshot : M τ Unit) (place i key snapshot) := by
  refine coupled_bind (coupled_moveKey _ _) fun _ =>
    coupled_bind (coupled_modify fun m n h => ⟨by rw [h.eq], h.store⟩) fun _ =>
      coupled_get_bind fun m n h => ?_
  rw [show n.state? i = m.state? i by rw [h.eq]; rfl]
  split
  · exact coupled_throw _
  · exact coupled_bind (coupled_onStore (Store.coupled_publish _ _ _)) fun _ =>
      coupled_ite (coupled_setState _ _) (coupled_pure _)

variable [Scheduler τ]

theorem coupled_build (i : Nat) (r : Reading) :
    Coupled Overhears (build i r : M τ Snapshot) (build i r) := by
  refine coupled_get_bind fun m n h => ?_
  rw [show n.state? i = m.state? i by rw [h.eq]; rfl, show n.watch = m.watch by rw [h.eq]]
  split
  · exact coupled_throw _
  · split
    · exact coupled_throw _
    · exact coupled_bind (coupled_setState _ _) fun _ => coupled_pure _

theorem coupled_pass : ∀ (rs : List Reading) (p : Nat),
    Coupled Overhears (pass p rs : M τ (List Snapshot)) (pass p rs) := by
  intro rs
  induction rs with
  | nil => exact fun _ => coupled_pure _
  | cons r rs ih =>
    exact fun p => coupled_bind (coupled_build _ _) fun _ => coupled_bind (coupled_place _ _ _)
      fun _ => coupled_bind (ih _) fun _ => coupled_pure _

theorem coupled_runBuilding :
    Coupled Overhears (runBuilding : M τ (List Snapshot)) runBuilding := by
  refine coupled_bind (coupled_get_bind fun m n h => ?_) fun _ => coupled_get_bind fun m n h => ?_
  · rw [show n.readings = m.readings by rw [h.eq], show n.watch = m.watch by rw [h.eq],
      currentStates_congr (show n.states = m.states by rw [h.eq])]
    split
    · exact coupled_throw _
    · refine coupled_bind (coupled_modify fun m n h => ⟨by rw [h.eq], h.store⟩) fun _ => ?_
      split
      · exact coupled_throw _
      · exact coupled_pure _
  · rw [show n.readings = m.readings by rw [h.eq]]
    exact coupled_pass _ _

theorem coupled_refreshBuilding :
    Coupled Overhears (refreshBuilding : M τ (Option (List Snapshot))) refreshBuilding := by
  refine coupled_get_bind fun m n h => ?_
  rw [show n.readings = m.readings by rw [h.eq]]
  exact coupled_ite (coupled_pure _) (coupled_bind coupled_runBuilding fun _ => coupled_pure _)

theorem coupled_changeBuilding (rs : List Reading) :
    Coupled Overhears (changeBuilding rs : M τ (Option (List Snapshot))) (changeBuilding rs) :=
  coupled_bind (coupled_modify fun m n h => ⟨by rw [h.eq], h.store⟩) fun _ =>
    coupled_bind coupled_syncStates fun _ => coupled_bind (coupled_onWatch _) fun _ =>
      coupled_refreshBuilding

/-! ### Events and histories -/

theorem coupled_request (r : Request) :
    Coupled Overhears (r.observe : M τ (Option (List Snapshot))) r.observe := by
  cases r with
  | prime found =>
    rcases found with _ | ⟨_ | ⟨r, rs⟩⟩
    · exact coupled_pure _
    · exact coupled_pure _
    · exact coupled_changeBuilding _
  | batteriesChanged readings => exact coupled_changeBuilding _
  | wake =>
    refine coupled_get_bind fun m n h => ?_
    rw [show n.readings = m.readings by rw [h.eq]]
    exact coupled_ite (coupled_pure _) (coupled_bind (coupled_onWatch _) fun _ =>
      coupled_bind coupled_runBuilding fun _ => coupled_pure _)
  | refresh => exact coupled_refreshBuilding

/-- **The listener changes nothing**: an event has the same outcome with it and without it, and
leaves the same monitor but for what was heard. -/
theorem coupled_observe (e : Event τ) : Coupled Overhears e.observe e.observe := by
  cases e with
  | request r => exact coupled_request r
  | windowOver => exact coupled_bind (coupled_onWatch _) fun _ => coupled_refreshBuilding
  | elapse timers =>
    exact coupled_bind (coupled_modify fun m n h => ⟨by rw [h.eq], h.store⟩)
      fun _ => coupled_pure _
  | support supported => exact coupled_bind (coupled_onWatch _) fun _ => coupled_pure _

/-- **A history is what the listener hears of it**: with the listener it goes as it goes without
it. -/
theorem overhears_afterAll (start : Monitor τ) (past : List (Event τ)) :
    (afterAll Event.act start past).Overhears (afterAll Event.act start.overheard past) := by
  refine coupled_afterAll (overhears_overheard start) (fun e => ?_) past
  rw [Event.act_eq]
  exact coupled_discard (coupled_observe e)

end Monitor

end BatteryMonitor
