import BatteryMonitor.Proofs.Monitor.Ear
import BatteryMonitor.Proofs.Vitals

/-!
# Every record that is published agrees with itself

Readings may hold any values, and operations may stop with a fault anywhere, even in the middle of
a run; but no record that is ever handed to the store contradicts itself
(`Monitor.isConsistent_of_heard`).

A record is made of a snapshot, and a snapshot of the time remaining that is kept for its battery.
That time is an old one until the estimates have been made for the whole list; nothing is
published before (`Monitor.keeps_speaks_runBuilding`), and from then on it is the estimate of the
very reading that the snapshot is made of, under the same conditions (`Monitor.Ready`).
-/

namespace BatteryMonitor

open Effect

/-! ### What is told of records -/

namespace Store

variable {s : Store}

/-- Every record that was heard of agrees with itself. -/
def TellsConsistently (s : Store) : Prop :=
  ∀ n ∈ s.heard, ∀ record, n.record = some record → record.IsConsistent

theorem TellsConsistently.told (h : s.TellsConsistently) {n : Notification}
    (hn : ∀ record, n.record = some record → record.IsConsistent) :
    (s.told n).TellsConsistently := by
  intro n' hn'
  rcases List.mem_append.1 hn' with hold | hnew
  · exact h n' hold
  · rw [List.mem_singleton.1 hnew]
    exact hn

theorem lasting_tells : Lasting TellsConsistently :=
  ⟨keeps_save fun _ _ hs => hs, fun _ _ _ _ _ _ hs => hs, fun _ _ hs => hs⟩

theorem keeps_tells_removeValue (key : Value) : Keeps TellsConsistently (removeValue key) :=
  keeps_removeValue lasting_tells fun _ _ _ _ hs => hs.told nofun

theorem keeps_tells_setValue {key record : Value} (hrecord : record.IsConsistent) :
    Keeps TellsConsistently (setValue key record) := by
  refine keeps_setValue lasting_tells ?_ fun _ _ _ _ _ hs => hs
  intro s name k o _ ho hs
  refine hs.told fun record' hrecord' => ?_
  have ho' : o = some record ∨ o = none := by simpa using ho
  rcases ho' with rfl | rfl
  · cases hrecord'
    exact hrecord
  · cases hrecord'

theorem keeps_tells_publish {key : Value} {state : BatteryState} {snapshot : Snapshot}
    (hsnapshot : (Value.object snapshot.toRecord).IsConsistent) :
    Keeps TellsConsistently (publish key state snapshot) := by
  have hwrite : Keeps TellsConsistently (do
      setValue key (.object snapshot.toRecord)
      return true) := keeps_bind (keeps_tells_setValue hsnapshot) fun _ => keeps_pure _
  unfold publish
  split
  · exact keeps_ite (keeps_pure _) hwrite
  · exact hwrite

end Store

namespace Monitor

variable {τ : Type} {m m' : Monitor τ} {w : Watch τ} {rs : List Reading} {i : Nat} {r : Reading}
  {α : Type}

/-! ### A run -/

variable [Scheduler τ]

/-- What is kept for the battery is the estimate of the reading. -/
def TimedBy (w : Watch τ) (r : Reading) (s : BatteryState) : Prop :=
  ∃ minutes, r.estimate w.conditions w.now = .ok minutes ∧ s.timeRemaining = .int minutes

/-- **Ready to publish the list**: all times remaining are the estimates of its readings. -/
structure Ready (w : Watch τ) (rs : List Reading) (m : Monitor τ) : Prop where
  watch : m.watch = w
  timed : ∀ (i : Nat) (r : Reading) (s : BatteryState), rs[i]? = some r → m.state? i = some s →
    TimedBy w r s
  tells : m.store.TellsConsistently

theorem Ready.withStore (h : Ready w rs m) {store : Store} (hstore : store.TellsConsistently) :
    Ready w rs { m with store } :=
  ⟨h.watch, h.timed, hstore⟩

theorem Ready.setState (h : Ready w rs m) {s : BatteryState}
    (hs : ∀ r, rs[i]? = some r → TimedBy w r s) :
    Ready w rs { m with states := setAt i s m.states } := by
  refine ⟨h.watch, fun j r s' hr hs' => ?_, h.tells⟩
  simp only [state?, lookup_setAt] at hs'
  split at hs'
  · rename_i hj
    cases hs'
    exact hs r (hj ▸ hr)
  · exact h.timed j r s' hr hs'

theorem keeps_ready_onStore {act : Store.M α} (h : Keeps Store.TellsConsistently act) :
    Keeps (Ready w rs) (onStore act) :=
  keeps_onStore_of (fun _ hm => hm.tells) (fun _ _ hm hstore => hm.withStore hstore) h

theorem keeps_ready_moveKey (i : Nat) (key : Value) : Keeps (Ready w rs) (moveKey i key) := by
  refine keeps_bind keeps_get fun m => ?_
  split
  · refine keeps_ite ?_ (keeps_pure _)
    refine keeps_bind (keeps_ready_onStore (Store.keeps_tells_removeValue _)) fun _ =>
      keeps_get_bind fun m hm => ?_
    split
    · rename_i s hs
      exact hm.setState fun r hr => hm.timed i r s hr hs
    · exact hm
  · exact keeps_pure _

theorem keeps_ready_place {key : Value} {snapshot : Snapshot}
    (hsnapshot : (Value.object snapshot.toRecord).IsConsistent) :
    Keeps (Ready w rs) (place i key snapshot) := by
  refine keeps_bind (keeps_ready_moveKey i key) fun _ =>
    keeps_bind (keeps_modify fun m hm => ⟨hm.watch, hm.timed, hm.tells⟩) fun _ =>
      keeps_get_bind fun m hm => ?_
  split
  · exact hm
  · rename_i s hs
    have htimed (r : Reading) (hr : rs[i]? = some r) : TimedBy w r s := hm.timed i r s hr hs
    refine keeps_bind (keeps_ready_onStore (Store.keeps_tells_publish hsnapshot)) (fun _ => ?_) m hm
    exact keeps_ite (keeps_modify fun m hm => hm.setState htimed) (keeps_pure _)

theorem keeps_ready_build (i : Nat) (r : Reading) : Keeps (Ready w rs) (build i r) := by
  refine keeps_get_bind fun m hm => ?_
  split
  · exact hm
  · rename_i s hs
    split
    · exact hm
    · refine hm.setState fun r' hr' => ?_
      exact hm.timed i r' s hr' hs

theorem Ready.consistent (h : Ready w rs m) {snapshot : Snapshot} (hr : rs[i]? = some r)
    (hbuild : Completes (build i r) m snapshot m') :
    (Value.object snapshot.toRecord).IsConsistent := by
  obtain ⟨s, latched, hs, hreport, -⟩ := completes_build hbuild
  obtain ⟨minutes, hminutes, htime⟩ := h.timed i r s hr hs
  rw [h.watch] at hreport
  exact Reading.consistent_report hminutes htime hreport

theorem keeps_ready_pass : ∀ {rest : List Reading} {p : Nat},
    (∀ (k : Nat) (r : Reading), rest[k]? = some r → rs[p + k]? = some r) →
      Keeps (Ready w rs) (pass p rest) := by
  intro rest
  induction rest with
  | nil => exact fun _ => keeps_pure _
  | cons r rest ih =>
    intro p h
    have hr : rs[p]? = some r := h 0 r rfl
    refine keeps_bind_completes (keeps_ready_build p r) fun m snapshot t hm hbuild ht => ?_
    refine keeps_bind (keeps_ready_place (hm.consistent hr hbuild)) (fun _ => ?_) t ht
    refine keeps_bind (ih fun k r' hr' => ?_) fun _ => keeps_pure _
    rw [show p + 1 + k = p + (k + 1) by omega]
    exact h (k + 1) r' hr'

/-- The store of the monitor tells consistently. -/
def Speaks (m : Monitor τ) : Prop := m.store.TellsConsistently

/-- **A run publishes only records that agree with themselves**, even if it stops with a fault. -/
theorem keeps_speaks_runBuilding : Keeps Speaks (runBuilding : M τ (List Snapshot)) := by
  have hestimate : Keeps Speaks (estimateAll : M τ Unit) := by
    refine keeps_bind keeps_get fun m => ?_
    split
    · exact keeps_throw _
    · dsimp only
      refine keeps_bind (keeps_modify fun m hm => hm) fun _ => ?_
      split
      · exact keeps_throw _
      · exact keeps_pure _
  -- only estimates that were all made come to the pass
  refine keeps_bind_completes hestimate fun m _ e hm hrun he => ?_
  have hestimated := estimated_estimateAll hrun
  have hready : Ready e.watch e.readings e := by
    refine ⟨rfl, fun i r s hr hs => ?_, he⟩
    rw [hestimated.eq] at hr
    obtain ⟨s', minutes, -, hminutes, hs'⟩ := hestimated.within i r hr
    obtain rfl := Option.some.inj (hs'.symm.trans hs)
    refine ⟨minutes, ?_, rfl⟩
    rw [hestimated.eq]
    exact hminutes
  exact (keeps_ready_pass (fun k r hr => by rwa [Nat.zero_add]) e hready).tells

/-! ### Events and histories -/

omit [Scheduler τ] in
theorem keeps_speaks_syncStates : Keeps Speaks (syncStates : M τ Unit) := by
  have hdrop (i : Nat) : Keeps Speaks (dropBattery i : M τ Unit) := by
    refine keeps_bind keeps_get fun m => keeps_bind (keeps_modify fun m hm => hm) fun _ => ?_
    split
    · refine keeps_ite (keeps_pure _) (keeps_onStore_of (fun _ hm => hm) (fun _ _ _ hs => hs) ?_)
      exact Store.keeps_tells_removeValue _
    · exact keeps_pure _
  refine keeps_bind keeps_get fun m => keeps_bind keeps_get fun m' => ?_
  refine keeps_bind (keeps_forIn (fun entry _ _ => ?_) _) fun _ =>
    keeps_bind (keeps_forIn (fun index _ _ => ?_) _) fun _ => keeps_pure _
  · exact keeps_ite (keeps_bind (hdrop _) fun _ => keeps_pure _) (keeps_pure _)
  · refine keeps_bind keeps_get fun m => keeps_ite ?_ (keeps_pure _)
    exact keeps_bind (keeps_modify fun m hm => hm) fun _ => keeps_pure _

theorem keeps_speaks_refreshBuilding :
    Keeps Speaks (refreshBuilding : M τ (Option (List Snapshot))) :=
  keeps_bind keeps_get fun _ => keeps_ite (keeps_pure _)
    (keeps_bind keeps_speaks_runBuilding fun _ => keeps_pure _)

theorem keeps_speaks_changeBuilding (rs : List Reading) :
    Keeps Speaks (changeBuilding rs : M τ (Option (List Snapshot))) :=
  keeps_bind (keeps_modify fun _ hm => hm) fun _ => keeps_bind keeps_speaks_syncStates fun _ =>
    keeps_bind (keeps_store_onWatch _) fun _ => keeps_speaks_refreshBuilding

theorem keeps_speaks_act (e : Event τ) : Keeps Speaks e.act := by
  rw [Event.act_eq]
  refine keeps_discard ?_
  cases e with
  | request r =>
    cases r with
    | prime found =>
      rcases found with _ | ⟨_ | ⟨r, rs⟩⟩
      · exact keeps_pure _
      · exact keeps_pure _
      · exact keeps_speaks_changeBuilding _
    | batteriesChanged readings => exact keeps_speaks_changeBuilding _
    | wake =>
      exact keeps_bind keeps_get fun _ => keeps_ite (keeps_pure _)
        (keeps_bind (keeps_store_onWatch _) fun _ =>
          keeps_bind keeps_speaks_runBuilding fun _ => keeps_pure _)
    | refresh => exact keeps_speaks_refreshBuilding
  | windowOver =>
    exact keeps_bind (keeps_store_onWatch _) fun _ => keeps_speaks_refreshBuilding
  | elapse timers => exact keeps_bind (keeps_modify fun _ hm => hm) fun _ => keeps_pure _
  | support supported => exact keeps_bind (keeps_store_onWatch _) fun _ => keeps_pure _

/-- **Every record that is published agrees with itself.**  Whatever the readings hold, and
wherever operations stop with faults, all records that a listener in front of all subscribers
hears of along any history agree with themselves. -/
theorem isConsistent_of_heard (start : Monitor τ) (past : List (Event τ)) :
    ∀ n ∈ (afterAll Event.act start.overheard past).store.heard,
      ∀ record, n.record = some record → record.IsConsistent := by
  change Speaks (afterAll Event.act start.overheard past)
  induction past with
  | nil => exact fun n hn => absurd hn List.not_mem_nil
  | cons e past ih => exact keeps_speaks_act e _ ih

/-- A run that stops at its second battery, whose cycles are not a number, has published a record
for the first one, and that agrees with itself. -/
theorem isConsistent_of_heard_stopped :
    let e : Event Bench := .request (.batteriesChanged
      [{ currentCapacity := .int 50, maxCapacity := .int 100, avgAmperage := .int (-10) },
        { maxCapacity := .int 100, designCapacity := .int 100, cycleCount := .text "many" }])
    isClean e.act onBench.overheard = false ∧
    ∃ n ∈ (afterAll Event.act onBench.overheard [e]).store.heard, ∃ record,
      n.record = some record ∧ record.IsConsistent := by
  intro e
  have hheard : ((afterAll Event.act onBench.overheard [e]).store.heard.head?.bind
      fun n => n.record).isSome := by decide +kernel
  obtain ⟨record, hrecord⟩ := Option.isSome_iff_exists.1 hheard
  obtain ⟨n, hn, hrecord⟩ := Option.bind_eq_some_iff.1 hrecord
  have hmem := List.mem_of_mem_head? hn
  exact ⟨by decide +kernel, n, hmem, record, hrecord,
    isConsistent_of_heard onBench [e] n hmem record hrecord⟩

end Monitor

end BatteryMonitor
