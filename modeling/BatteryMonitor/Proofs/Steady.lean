import BatteryMonitor.Proofs.Store

/-!
# Stores that do not stop

A store whose subscribers do not fail stops with a fault only if it cannot write its file.  If that
is no trouble (`Store.Tireless`), a record can always be removed, under a key that can be one
(`Store.Tireless.exists_removeValue`), and set (`Store.Tireless.exists_setValue`), and the store
stays as it is in that respect.  So it is for a store in memory (`Store.tireless_steady`).

If somebody listens, what was set is known from what was heard (`Store.Wrote`): removing adds
nothing to it (`Store.wrote_removeValue`), and setting adds just its key (`Store.wrote_setValue`),
even if a subscriber takes the record away again at once.
-/

namespace BatteryMonitor

namespace Store

open Effect

variable {s s' : Store} {key : Value} {k l : Key}

/-- A store in memory that somebody listens to and nobody fails at. -/
structure Steady (s : Store) : Prop where
  backing : s.backing = none
  calm : ∀ subscriber ∈ s.subscribers, subscriber.reaction ≠ .fail
  attended : s.subscribers ≠ []
  distinct : s.values.Distinct

/-- A record was set under the key. -/
def Wrote (s : Store) (k : Key) : Prop :=
  ∃ n ∈ s.heard, n.record.isSome = true ∧ n.key.entry = k.entry

instance (s : Store) (k : Key) : Decidable (s.Wrote k) :=
  inferInstanceAs (Decidable (∃ n ∈ s.heard, _))

theorem Wrote.congr (h : s.Wrote k) (hkl : k.entry = l.entry) : s.Wrote l := by
  obtain ⟨n, hn, hsome, hkey⟩ := h
  exact ⟨n, hn, hsome, hkey.trans hkl⟩

/-! ### Operations that complete -/

/-- **What nothing stops**: a property of stores whose subscribers do not fail, under which the file
is written without a fault, and which is kept by all that the operations do, as long as the records
that are set are good. -/
structure Tireless (good : Table Value → Prop) (P : Store → Prop) : Prop where
  distinct : ∀ {s}, P s → s.values.Distinct
  calm : ∀ {s}, P s → ∀ subscriber ∈ s.subscribers, subscriber.reaction ≠ .fail
  save : ∀ {s}, P s → ∃ s', Completes save s () s' ∧ P s'
  told : ∀ {s} (n : Notification), P s → P (s.told n)
  join : ∀ {s} (name : String), P s → P (s.subscribe { name })
  erase : ∀ {s} (k : Key), P s → P { s with values := s.values.erase k }
  insert : ∀ {s} (name : Text) {members : Table Value}, good members → P s →
    P { s with values := s.values.insert (.text name) (.object members) }

namespace Tireless

variable {good : Table Value → Prop} {P : Store → Prop}

theorem exists_hear_react (hP : Tireless good P) (h : P s) {subscriber : Subscriber}
    (hcalm : subscriber.reaction ≠ .fail) (k : Key) (record : Option Value) :
    ∃ s', Completes (do hear subscriber k record; react subscriber) s () s' ∧ P s' := by
  rw [show (∃ s', Completes (do hear subscriber k record; react subscriber) s () s' ∧ P s') =
    ∃ s', Completes (react subscriber) (s.told ⟨subscriber.name, k, record⟩) () s' ∧ P s'
    from rfl]
  unfold react
  split
  · exact ⟨_, completes_modify.2 rfl, hP.join _ (hP.told _ h)⟩
  · rename_i hfail
    exact absurd hfail hcalm
  · exact ⟨_, completes_pure.2 ⟨rfl, rfl⟩, hP.told _ h⟩
  · exact ⟨_, completes_pure.2 ⟨rfl, rfl⟩, hP.told _ h⟩

theorem exists_announceRemoval (hP : Tireless good P) (h : P s) (k : Key) :
    ∃ s', Completes (announceRemoval k) s () s' ∧ P s' := by
  simp only [announceRemoval, completes_get_bind]
  refine exists_bind (exists_forIn (Q := P) (fun subscriber hm t ht => ?_) h)
    fun t ht => exists_pure ht
  rw [← bind_assoc]
  exact exists_bind (hP.exists_hear_react ht (hP.calm h subscriber hm) k none)
    fun t' => exists_pure

/-- **A record can be removed.** -/
theorem exists_removeValue (hP : Tireless good P) (h : P s) (hk : key.key? = some k) :
    ∃ s', Completes (removeValue key) s () s' ∧ P s' := by
  simp only [removeValue, completes_get_bind, Value.key, hk]
  split
  · exact hP.save h
  · have hs := hP.erase k h
    simp only [completes_set_bind]
    split
    · exact hP.save hs
    · exact hP.save hs
    · exact exists_bind (hP.exists_announceRemoval hs k) fun t => hP.save

theorem exists_announce_step (hP : Tireless good P) (h : P s) {subscriber : Subscriber}
    (hcalm : subscriber.reaction ≠ .fail) (k : Key) (record : Value) :
    ∃ s', Completes (do
      hear subscriber k (some record)
      react subscriber
      if subscriber.reaction = .remove then do
        removeValue k.toValue
        pure (ForInStep.yield PUnit.unit)
      else pure (ForInStep.yield PUnit.unit) : Store.M (ForInStep PUnit)) s (.yield ⟨⟩) s' ∧
        P s' := by
  rw [← bind_assoc]
  refine exists_bind (hP.exists_hear_react h hcalm k (some record)) fun t ht => ?_
  split
  · exact exists_bind (hP.exists_removeValue ht (key?_toValue k)) fun t' => exists_pure
  · exact exists_pure ht

theorem exists_announce (hP : Tireless good P) (h : P s) (k : Key) (record : Value) :
    ∃ s', Completes (announce k record) s () s' ∧ P s' := by
  simp only [announce, completes_get_bind]
  exact exists_bind (exists_forIn (Q := P)
    (fun subscriber hm t ht => hP.exists_announce_step ht (hP.calm h subscriber hm) k record) h)
    fun t => exists_pure

/-- **A good record can be set.** -/
theorem exists_setValue (hP : Tireless good P) (h : P s) (name : Text) {members : Table Value}
    (hgood : good members) :
    ∃ s', Completes (setValue (.text name) (.object members)) s () s' ∧ P s' := by
  have hk : (Value.text name).key? = some (.text name) := rfl
  simp only [setValue, Value.toTable, Value.key, hk, completes_modify_bind]
  exact exists_bind (hP.exists_announce (hP.insert name hgood h) _ _) fun t => hP.save

end Tireless

theorem calm_subscribe (h : ∀ subscriber ∈ s.subscribers, subscriber.reaction ≠ .fail)
    (name : String) :
    ∀ subscriber ∈ (s.subscribe { name }).subscribers, subscriber.reaction ≠ .fail := by
  intro subscriber hm
  rcases List.mem_append.1 hm with hm | hm
  · exact h subscriber hm
  · rw [List.mem_singleton.1 hm]
    exact fun hfail => by cases hfail

/-- **A steady store does not stop.** -/
theorem tireless_steady (good : Table Value → Prop) : Tireless good Steady where
  distinct h := h.distinct
  calm h := h.calm
  save {s} h := by
    refine ⟨s, ?_, h⟩
    simp only [save, completes_get_bind, h.backing]
    exact completes_pure.2 ⟨rfl, rfl⟩
  told _ h := ⟨h.backing, h.calm, h.attended, h.distinct⟩
  join name h := ⟨h.backing, calm_subscribe h.calm name,
    List.append_ne_nil_of_left_ne_nil h.attended _, h.distinct⟩
  erase k h := ⟨h.backing, h.calm, h.attended, h.distinct.erase k⟩
  insert _ _ _ h := ⟨h.backing, h.calm, h.attended, h.distinct.insert _ _⟩

/-! ### What was written -/

theorem wrote_told (n : Notification) : (s.told n).Wrote l ↔
    s.Wrote l ∨ n.record.isSome = true ∧ n.key.entry = l.entry := by
  simp [Wrote, told, or_and_right, exists_or]

theorem keeps_attended_removeValue (key : Value) :
    Keeps (fun t => t.subscribers ≠ []) (removeValue key) :=
  keeps_removeValue ⟨keeps_save fun _ _ ht => ht,
    fun _ _ _ _ _ _ ht => List.append_ne_nil_of_left_ne_nil ht _, fun _ _ ht => ht⟩
    fun _ _ _ _ ht => ht

theorem lasting_wrote (l : Key) : Lasting fun t => t.Wrote l :=
  ⟨keeps_save fun _ _ ht => ht, fun _ _ _ _ _ _ ht => ht, fun _ _ ht => ht⟩

theorem keeps_wrote_removeValue (key : Value) (l : Key) :
    Keeps (fun t => t.Wrote l) (removeValue key) :=
  keeps_removeValue (lasting_wrote l) fun _ _ _ _ ht => (wrote_told _).2 (.inl ht)

theorem wrote_removeValue (h : Completes (removeValue key) s () s') :
    s'.Wrote l ↔ s.Wrote l := by
  refine ⟨?_, h.keeps (keeps_wrote_removeValue key l)⟩
  refine h.keeps (keeps_removeValue (P := fun t => t.Wrote l → s.Wrote l)
    ⟨keeps_save fun _ _ ht => ht, fun _ _ _ _ _ _ ht => ht, fun _ _ ht => ht⟩
    fun t name k _ ht hwrote => ?_) id
  -- what is heard of a removal has no record
  exact ht (((wrote_told _).1 hwrote).resolve_right fun hnew => by cases hnew.1)

/-- Whoever is told first hears of the record, whatever the others do with it. -/
theorem wrote_announce {record : Value} (hattended : s.subscribers ≠ [])
    (h : Completes (announce k record) s () s') : s'.Wrote k := by
  obtain ⟨first, rest, hsubscribers⟩ := List.exists_cons_of_ne_nil hattended
  simp only [announce, completes_get_bind, hsubscribers] at h
  obtain ⟨u, t, hloop, h⟩ := completes_bind.1 h
  obtain ⟨-, rfl⟩ := completes_pure.1 h
  rw [List.forIn_cons, completes_bind] at hloop
  obtain ⟨r, t, hfirst, hrest⟩ := hloop
  have hreact (subscriber : Subscriber) : Keeps (fun t => t.Wrote k) (do
      react subscriber
      if subscriber.reaction = .remove then do
        removeValue k.toValue
        pure (ForInStep.yield PUnit.unit)
      else pure (ForInStep.yield PUnit.unit)) :=
    keeps_bind (keeps_react fun _ _ ht => ht) fun _ => keeps_ite
      (keeps_bind (keeps_wrote_removeValue _ _) fun _ => keeps_pure _) (keeps_pure _)
  have ht : t.Wrote k := by
    rw [hear, completes_modify_bind] at hfirst
    exact hfirst.keeps (hreact first)
      ((wrote_told ⟨first.name, k, some record⟩).2 (.inr ⟨rfl, rfl⟩))
  cases r with
  | done c =>
    obtain ⟨-, rfl⟩ := completes_pure.1 hrest
    exact ht
  | yield c =>
    refine hrest.keeps (P := fun t => t.Wrote k) (keeps_forIn (fun subscriber _ _ => ?_) c) ht
    exact keeps_bind (keeps_modify fun t ht => (wrote_told _).2 (.inl ht))
      fun _ => hreact subscriber

/-- **Setting writes its key** and nothing else. -/
theorem wrote_setValue {members : Table Value} (hattended : s.subscribers ≠ [])
    (hk : key.key? = some k) (h : Completes (setValue key (.object members)) s () s') :
    s'.Wrote l ↔ s.Wrote l ∨ k.entry = l.entry := by
  constructor
  · refine h.keeps (keeps_setValue (P := fun t => t.Wrote l → s.Wrote l ∨ k.entry = l.entry)
      ⟨keeps_save fun _ _ ht => ht, fun _ _ _ _ _ _ ht => ht, fun _ _ ht => ht⟩
      (fun t name k' o hk' _ ht hwrote => ?_) fun _ _ _ _ _ ht => ht) .inl
    rcases (wrote_told _).1 hwrote with hold | ⟨-, hnew⟩
    · exact ht hold
    · cases hk.symm.trans hk'
      exact .inr hnew
  · simp only [setValue, Value.toTable, Value.key, hk, completes_modify_bind] at h
    obtain ⟨u, t, hannounce, hsave⟩ := completes_bind.1 h
    have hkeep (l : Key) : Keeps (fun t => t.Wrote l) save := keeps_save fun _ _ ht => ht
    rintro (hold | hnew)
    · exact hsave.keeps (hkeep l) (hannounce.keeps (keeps_announce (lasting_wrote l)
        fun _ _ _ _ ht => (wrote_told _).2 (.inl ht)) hold)
    · have htold : t.Wrote k := wrote_announce hattended (s := { s with
        values := s.values.insert k (.object members) }) hannounce
      exact (hsave.keeps (hkeep k) htold).congr hnew

end Store

end BatteryMonitor
