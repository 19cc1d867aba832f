import BatteryMonitor.Store
import BatteryMonitor.Proofs.Effect
import BatteryMonitor.Proofs.Table

/-!
# What writing to a store does

A store is read through its records (`Store.record?`).  An operation that completes changes them
at one key: `Store.removeValue` takes the record away (`Store.record?_removeValue`) and
`Store.setValue` puts one there (`Store.record?_setValue`), whatever the subscribers and the file
do meanwhile.  Only a subscriber that itself removes what it hears of may take the new record away
again; in a `Store.Quiet` store there is none.

What a row of such operations does is said by the keys that they leave and the keys that they take
(`Store.Rekeyed`), which add up along the row (`Store.Rekeyed.trans`).
-/

namespace BatteryMonitor

namespace Store

open Effect

variable {s s' : Store} {key : Value}

/-- The record under a key. -/
def record? (s : Store) (key : Value) : Option Value := key.key?.bind s.values.find?

/-- No subscriber removes records. -/
def Quiet (s : Store) : Prop := ∀ subscriber ∈ s.subscribers, subscriber.reaction ≠ .remove

theorem record?_congr {v w : Value} (h : v.entryOf? = w.entryOf?) (s : Store) :
    s.record? v = s.record? w := by
  unfold Value.entryOf? at h
  unfold record?
  cases hv : v.key? with
  | none => cases hw : w.key? <;> simp_all
  | some k =>
    cases hw : w.key? with
    | none => simp_all
    | some l => exact Table.find?_congr (by simpa [hv, hw] using h) _

theorem record?_eq_none (s : Store) {v : Value} (h : v.entryOf? = none) : s.record? v = none := by
  have hv : v.key? = none := by simpa [Value.entryOf?] using h
  rw [record?, hv]
  rfl

/-! ### The file and the subscribers -/

theorem after_persist {P : Store → Prop} {change : Disk → Except Fault Disk} (hs : P s)
    (h : ∀ disk, change s.disk = .ok disk → P { s with disk }) : P (after (persist change) s) := by
  unfold persist
  rw [after_get_bind]
  split
  · rename_i disk hdisk
    exact h disk hdisk
  · exact hs
  · exact hs

theorem keeps_save {P : Store → Prop} (h : ∀ s disk, P s → P { s with disk }) : Keeps P save := by
  have hp (change : Disk → Except Fault Disk) : Keeps P (persist change) :=
    fun s hs => after_persist hs fun disk _ => h s disk hs
  refine keeps_bind keeps_get fun s => ?_
  split
  · exact keeps_pure _
  · refine keeps_bind (hp _) fun made => keeps_ite ?_ (keeps_pure _)
    refine keeps_bind (hp _) fun cleared => keeps_ite ?_ (keeps_pure _)
    refine keeps_bind keeps_get fun t => keeps_bind ?_ fun text => ?_
    · cases Json.print (.object t.values) with
      | ok text => exact keeps_pure _
      | error fault => exact keeps_throw _
    · refine keeps_bind (hp _) fun written => keeps_ite ?_ (keeps_pure _)
      exact keeps_discard (hp _)

/-- A property that lasts when the file is written, and whatever subscribers do with what they
hear: they may recruit listeners and take records away. -/
structure Lasting (P : Store → Prop) : Prop where
  save : Keeps P save
  join : ∀ s₀ s subscriber, P s₀ → subscriber ∈ s₀.subscribers →
    subscriber.reaction = .recruit → P s → P (s.subscribe { name := subscriber.name ++ "+" })
  erase : ∀ s k, P s → P { s with values := s.values.erase k }

theorem keeps_react {P : Store → Prop} {subscriber : Subscriber}
    (join : subscriber.reaction = .recruit → ∀ s, P s →
      P (s.subscribe { name := subscriber.name ++ "+" })) : Keeps P (react subscriber) := by
  unfold react
  split
  · rename_i hrecruit
    exact keeps_modify (join hrecruit)
  · exact keeps_throw _
  · exact keeps_pure _
  · exact keeps_pure _

/-- The store after something was heard. -/
def told (s : Store) (n : Notification) : Store := { s with heard := s.heard ++ [n] }

/-- A property that the news and recruits may change without losing is kept when a subscriber
hears of them. -/
theorem keeps_hear_react {P : Store → Prop} {key : Key} {record : Option Value}
    {subscriber : Subscriber} (hear : ∀ s name, P s → P (s.told ⟨name, key, record⟩))
    (join : subscriber.reaction = .recruit → ∀ s, P s →
      P (s.subscribe { name := subscriber.name ++ "+" })) :
    Keeps P (do Store.hear subscriber key record; react subscriber) :=
  keeps_bind (keeps_modify fun s hs => hear s _ hs) fun _ => keeps_react join

theorem keeps_announceRemoval {P : Store → Prop} {key : Key}
    (hear : ∀ s name, P s → P (s.told ⟨name, key, none⟩))
    (join : ∀ s₀ s subscriber, P s₀ → subscriber ∈ s₀.subscribers →
      subscriber.reaction = .recruit → P s → P (s.subscribe { name := subscriber.name ++ "+" })) :
    Keeps P (announceRemoval key) := by
  refine keeps_get_bind fun s₀ hs₀ =>
    keeps_bind (keeps_forIn (fun subscriber hm b => ?_) _) (fun _ => keeps_pure _) s₀ hs₀
  -- the body of the loop is `hear` and `react` in one, and then a `yield`
  have h := keeps_bind (keeps_hear_react hear fun hrecruit s hs =>
    join s₀ s subscriber hs₀ hm hrecruit hs)
    (fun _ => keeps_pure (α := ForInStep PUnit) (.yield ⟨⟩))
  rwa [bind_assoc] at h

theorem quiet_subscribe {s : Store} (h : s.Quiet) (name : String) :
    (s.subscribe { name }).Quiet := by
  intro subscriber hm
  rcases List.mem_append.1 hm with hm | hm
  · exact h _ hm
  · rw [List.mem_singleton.1 hm]
    intro hremove
    cases hremove

/-! ### Removing -/

theorem removeValue_values (h : Completes (removeValue key) s () s') :
    s'.values = (key.key?.elim s.values s.values.erase) := by
  have hsave {t : Store} (hs : Completes save t () s') : s'.values = t.values :=
    hs.keeps (keeps_save (P := fun u => u.values = t.values) fun _ _ hu => hu) rfl
  simp only [removeValue, completes_get_bind, Value.key] at h
  split at h
  · rename_i hempty
    rw [hsave h, List.isEmpty_iff.1 hempty]
    cases key.key? <;> rfl
  · cases hk : key.key? with
    | none =>
      simp only [hk, completes_bind] at h
      obtain ⟨u, t, ht, -⟩ := h
      exact absurd ht completes_throw
    | some k =>
      simp only [hk, completes_set_bind] at h
      split at h
      · exact hsave h
      · exact hsave h
      · rw [completes_bind] at h
        obtain ⟨u, t, ht, h⟩ := h
        rw [hsave h]
        exact ht.keeps (keeps_announceRemoval (P := fun t => t.values = s.values.erase k)
          (fun _ _ hu => hu) fun _ _ _ _ _ _ hu => hu) rfl

theorem keeps_removeValue {P : Store → Prop} {key : Value} (hP : Lasting P)
    (hear : ∀ s name k, key.key? = some k → P s → P (s.told ⟨name, k, none⟩)) :
    Keeps P (removeValue key) := by
  refine keeps_get_bind fun s hs => ?_
  simp only [Value.key]
  split
  · exact hP.save s hs
  · cases hk : key.key? with
    | none => exact keeps_bind (keeps_throw _) (fun _ => hP.save) s hs
    | some k =>
      refine keeps_bind (keeps_set (hP.erase s k hs)) (fun _ => ?_) s hs
      split
      · exact hP.save
      · exact hP.save
      · exact keeps_bind (keeps_announceRemoval (fun s name => hear s name k hk) hP.join)
          fun _ => hP.save

theorem key?_toValue (k : Key) : k.toValue.key? = some k := by cases k <;> rfl

theorem keeps_announce {P : Store → Prop} {key : Key} {record : Value} (hP : Lasting P)
    (hear : ∀ s name o, o ∈ [some record, none] → P s → P (s.told ⟨name, key, o⟩)) :
    Keeps P (announce key record) := by
  have hremove : Keeps P (removeValue key.toValue) := by
    refine keeps_removeValue hP fun s name k hk hs => ?_
    cases (key?_toValue key).symm.trans hk
    exact hear s name none (by simp) hs
  refine keeps_get_bind fun s₀ hs₀ =>
    keeps_bind (keeps_forIn (fun subscriber hm b => ?_) _) (fun _ => keeps_pure _) s₀ hs₀
  have htold := keeps_hear_react (fun s name => hear s name (some record) (by simp))
    fun hrecruit s hs => hP.join s₀ s subscriber hs₀ hm hrecruit hs
  have h := keeps_bind htold fun _ => keeps_ite (c := subscriber.reaction = .remove)
    (keeps_bind hremove fun _ => keeps_pure (α := ForInStep PUnit) (.yield ⟨⟩))
    (keeps_pure (.yield ⟨⟩))
  rwa [bind_assoc] at h

theorem keeps_setValue {P : Store → Prop} {key record : Value} (hP : Lasting P)
    (hear : ∀ s name k o, key.key? = some k → o ∈ [some record, none] → P s →
      P (s.told ⟨name, k, o⟩))
    (insert : ∀ s k members, key.key? = some k → record.toTable = .ok members → P s →
      P { s with values := s.values.insert k (.object members) }) :
    Keeps P (setValue key record) := by
  unfold setValue
  simp only [Value.key]
  split
  · exact keeps_throw _
  · exact keeps_throw _
  · rename_i members k htable hkey
    have hk : key.key? = some k := by
      cases hkey' : key.key? with
      | none => rw [hkey'] at hkey; cases hkey
      | some k' => rw [hkey'] at hkey; cases hkey; rfl
    refine keeps_bind (keeps_modify fun s hs => insert s _ _ hk htable hs) fun _ => ?_
    exact keeps_bind (keeps_announce hP fun s name o => hear s name k o hk) fun _ => hP.save

/-- **Removing takes the record of a key away** and leaves all others. -/
theorem record?_removeValue (hd : s.values.Distinct) (h : Completes (removeValue key) s () s')
    (v : Value) : s'.record? v = if key.entryOf? = v.entryOf? then none else s.record? v := by
  cases hv : v.key? with
  | none => simp [record?, hv]
  | some l =>
    simp only [record?, hv, Option.bind_some, removeValue_values h, Value.entryOf?, Option.map_some]
    cases key.key? with
    | none => simp
    | some k => simp [Table.find?_erase hd]

/-! ### Setting -/

theorem lasting_distinct : Lasting fun s => s.values.Distinct :=
  ⟨keeps_save fun _ _ hs => hs, fun _ _ _ _ _ _ hs => hs, fun _ k hs => hs.erase k⟩

theorem keeps_distinct_removeValue (key : Value) :
    Keeps (fun s : Store => s.values.Distinct) (removeValue key) :=
  keeps_removeValue lasting_distinct fun _ _ _ _ hs => hs

theorem keeps_distinct_setValue (key record : Value) :
    Keeps (fun s : Store => s.values.Distinct) (setValue key record) :=
  keeps_setValue lasting_distinct (fun _ _ _ _ _ _ hs => hs)
    fun _ k members _ _ hs => hs.insert k (.object members)

theorem lasting_quiet : Lasting Quiet :=
  ⟨keeps_save fun _ _ hs => hs, fun _ _ _ _ _ _ hs => quiet_subscribe hs _, fun _ _ hs => hs⟩

theorem keeps_quiet_removeValue (key : Value) : Keeps Quiet (removeValue key) :=
  keeps_removeValue lasting_quiet fun _ _ _ _ hs => hs

theorem keeps_quiet_setValue (key record : Value) : Keeps Quiet (setValue key record) :=
  keeps_setValue lasting_quiet (fun _ _ _ _ _ _ hs => hs) fun _ _ _ _ _ hs => hs

/-- Nobody leaves, so that a subscriber who removes records goes on doing so. -/
theorem lasting_loud : Lasting fun s => ¬ s.Quiet :=
  ⟨keeps_save fun _ _ hs => hs, fun _ _ _ _ _ _ hs hquiet => hs fun subscriber hm =>
    hquiet subscriber (List.mem_append_left _ hm), fun _ _ hs => hs⟩

theorem keeps_loud_removeValue (key : Value) : Keeps (fun s => ¬ s.Quiet) (removeValue key) :=
  keeps_removeValue lasting_loud fun _ _ _ _ hs => hs

theorem keeps_loud_setValue (key record : Value) :
    Keeps (fun s => ¬ s.Quiet) (setValue key record) :=
  keeps_setValue lasting_loud (fun _ _ _ _ _ _ hs => hs) fun _ _ _ _ _ hs => hs

theorem announce_values {k : Key} {record : Value} (hd : s.values.Distinct)
    (h : Completes (announce k record) s () s') :
    (s.Quiet → s'.values = s.values) ∧ ∀ l, s'.values.find? l = s.values.find? l ∨
      l.entry = k.entry ∧ s'.values.find? l = none := by
  let Q (t : Store) : Prop := t.values.Distinct ∧ (s.Quiet → t.values = s.values) ∧
    ∀ l, t.values.find? l = s.values.find? l ∨ l.entry = k.entry ∧ t.values.find? l = none
  -- `Q` is followed through the subscribers, any of which may remove the record
  have hQ : Q s := ⟨hd, fun _ => rfl, fun _ => .inl rfl⟩
  simp only [announce, completes_get_bind] at h
  rw [completes_bind] at h
  obtain ⟨b, t, hloop, h⟩ := h
  obtain ⟨-, rfl⟩ := completes_pure.1 h
  refine (completes_forIn (Q := Q) (fun subscriber hm b r u v hb hu => ?_) hloop hQ).2
  rw [← bind_assoc, completes_bind] at hb
  obtain ⟨a, w, hhear, hb⟩ := hb
  have hw : Q w := hhear.keeps (keeps_hear_react (fun _ _ hs => hs) fun _ _ hs => hs) hu
  split at hb
  · rename_i hremove
    obtain ⟨a, x, hx, hb⟩ := completes_bind.1 hb
    obtain ⟨-, rfl⟩ := completes_pure.1 hb
    have hvalues : v.values = w.values.erase k := by
      rw [removeValue_values hx]
      cases k <;> rfl
    refine ⟨hx.keeps (keeps_distinct_removeValue _) hw.1,
      fun hquiet => absurd hremove (hquiet _ hm), fun l => ?_⟩
    rw [hvalues, Table.find?_erase hw.1]
    split
    · rename_i hkl
      exact .inr ⟨hkl.symm, rfl⟩
    · exact hw.2.2 l
  · obtain ⟨-, rfl⟩ := completes_pure.1 hb
    exact hw

/-- A subscriber that removes what it hears of leaves no record of it. -/
theorem find?_forIn_loud {k : Key} {record : Value} : ∀ {subscribers : List Subscriber}
    {s s' : Store} {u : PUnit}, s.values.Distinct →
      (s.values.find? k = none ∨ ∃ subscriber ∈ subscribers, subscriber.reaction = .remove) →
      Completes (forIn subscribers PUnit.unit fun subscriber _ => do
        hear subscriber k (some record)
        react subscriber
        if subscriber.reaction = .remove then do
          removeValue k.toValue
          pure (ForInStep.yield PUnit.unit)
        else pure (ForInStep.yield PUnit.unit)) s u s' → s'.values.find? k = none := by
  intro subscribers
  induction subscribers with
  | nil =>
    intro s s' u _ hnone h
    rw [List.forIn_nil, completes_pure] at h
    rw [h.2]
    simpa using hnone
  | cons subscriber subscribers ih =>
    intro s s' u hd hnone h
    rw [List.forIn_cons, completes_bind] at h
    obtain ⟨r, t, hone, hrest⟩ := h
    rw [← bind_assoc, completes_bind] at hone
    obtain ⟨a, w, hhear, hone⟩ := hone
    have hw : w.values = s.values := hhear.keeps (keeps_hear_react
      (P := fun w => w.values = s.values) (fun _ _ hs => hs) fun _ _ hs => hs) rfl
    split at hone
    · obtain ⟨a, x, hx, hone⟩ := completes_bind.1 hone
      obtain ⟨rfl, rfl⟩ := completes_pure.1 hone
      have hvalues : t.values = s.values.erase k := by
        rw [removeValue_values hx, hw]
        cases k <;> rfl
      -- from now on there is no record, whoever comes after this subscriber
      refine ih (hvalues ▸ hd.erase k) (.inl ?_) hrest
      rw [hvalues, Table.find?_erase hd, if_pos rfl]
    · rename_i hstays
      obtain ⟨rfl, rfl⟩ := completes_pure.1 hone
      refine ih (hw ▸ hd) ?_ hrest
      rw [hw]
      refine hnone.imp_right fun ⟨x, hx, hremove⟩ => ⟨x, ?_, hremove⟩
      exact (List.mem_cons.1 hx).resolve_left fun heq => hstays (heq ▸ hremove)

theorem setValue_values {members : Table Value} (hd : s.values.Distinct)
    (h : Completes (setValue key (.object members)) s () s') : ∃ k, key.key? = some k ∧
      (s.Quiet → s'.values = s.values.insert k (.object members)) ∧
      ∀ l, s'.values.find? l = (s.values.insert k (.object members)).find? l ∨
        l.entry = k.entry ∧ s'.values.find? l = none := by
  simp only [setValue, Value.toTable, Value.key] at h
  cases hk : key.key? with
  | none => simp [hk] at h
  | some k =>
    simp only [hk, completes_modify_bind] at h
    obtain ⟨a, t, ht, hsave⟩ := completes_bind.1 h
    have hvalues : s'.values = t.values :=
      hsave.keeps (keeps_save (P := fun u => u.values = t.values) fun _ _ hu => hu) rfl
    rw [hvalues]
    exact ⟨k, rfl, announce_values (hd.insert k _) ht⟩

/-- **Setting changes the record of one key**: afterwards the key has the new record, unless a
subscriber removed it, and all other keys have the records that they had. -/
theorem record?_setValue {members : Table Value} (hd : s.values.Distinct)
    (h : Completes (setValue key (.object members)) s () s') : key.entryOf?.isSome ∧
      (∀ v, key.entryOf? ≠ v.entryOf? → s'.record? v = s.record? v) ∧
      (∀ v, key.entryOf? = v.entryOf? →
        s'.record? v = some (.object members) ∨ ¬ s.Quiet ∧ s'.record? v = none) := by
  obtain ⟨k, hk, hquiet, hfind⟩ := setValue_values hd h
  have hentry : key.entryOf? = some k.entry := by rw [Value.entryOf?, hk]; rfl
  -- first the keys of other entries, then those of the same one
  refine ⟨by rw [hentry]; rfl, fun v hv => ?_, fun v hv => ?_⟩
  · cases hl : v.key? with
    | none => simp [record?, hl]
    | some l =>
      have hne : k.entry ≠ l.entry := by
        rintro heq
        exact hv (by rw [hentry, Value.entryOf?, hl, heq]; rfl)
      simp only [record?, hl, Option.bind_some]
      rcases hfind l with hf | ⟨heq, -⟩
      · rw [hf, Table.find?_insert, if_neg hne]
      · exact absurd heq.symm hne
  · rw [← record?_congr hv, record?, hk, Option.bind_some]
    by_cases hq : s.Quiet
    · rw [hquiet hq, Table.find?_insert, if_pos rfl]
      exact .inl rfl
    · rcases hfind k with hf | ⟨-, hf⟩
      · rw [hf, Table.find?_insert, if_pos rfl]
        exact .inl rfl
      · exact .inr ⟨hq, hf⟩

/-- The record that was written under a key is there, unless a subscriber removes what it hears of:
then there is none. -/
structure Shelves (s : Store) (key : Value) (members : Table Value) : Prop where
  quiet : s.Quiet → s.record? key = some (.object members)
  loud : ¬ s.Quiet → s.record? key = none

theorem Shelves.congr {members : Table Value} (h : s.Shelves key members)
    (hrecord : s'.record? key = s.record? key) (hquiet : s'.Quiet ↔ s.Quiet) :
    s'.Shelves key members :=
  ⟨fun hq => hrecord.trans (h.quiet (hquiet.1 hq)),
    fun hq => hrecord.trans (h.loud (mt hquiet.2 hq))⟩

theorem Shelves.record?_eq {members : Table Value} (h : s.Shelves key members)
    (h' : s'.Shelves key members) (hquiet : s'.Quiet ↔ s.Quiet) :
    s'.record? key = s.record? key := by
  by_cases hq : s.Quiet
  · rw [h.quiet hq, h'.quiet (hquiet.2 hq)]
  · rw [h.loud hq, h'.loud (mt hquiet.1 hq)]

theorem shelves_setValue {members : Table Value} (hd : s.values.Distinct)
    (h : Completes (setValue key (.object members)) s () s') : s'.Shelves key members := by
  refine ⟨fun hq => ?_, fun hq => ?_⟩
  · rcases (record?_setValue hd h).2.2 key rfl with hnew | ⟨hloud, -⟩
    · exact hnew
    · exact absurd hq (h.keeps (keeps_loud_setValue key _) hloud)
  · have hloud : ¬ s.Quiet := fun hquiet => hq (h.keeps (keeps_quiet_setValue key _) hquiet)
    simp only [setValue, Value.toTable, Value.key] at h
    cases hk : key.key? with
    | none => simp [hk] at h
    | some k =>
      simp only [hk, completes_modify_bind] at h
      obtain ⟨a, t, ht, hsave⟩ := completes_bind.1 h
      have hvalues : s'.values = t.values :=
        hsave.keeps (keeps_save (P := fun u => u.values = t.values) fun _ _ hu => hu) rfl
      rw [record?, hk, Option.bind_some, hvalues]
      simp only [announce, completes_get_bind] at ht
      rw [completes_bind] at ht
      obtain ⟨b, u, hloop, ht⟩ := ht
      obtain ⟨-, rfl⟩ := completes_pure.1 ht
      refine find?_forIn_loud (hd.insert k _) (.inr ?_) hloop
      simpa [Quiet] using hloud

/-! ### Removing and setting one after the other -/

/-- **Records taken away and written.**  The store `s'` comes from `s` by removing the records
under the keys `left` and by writing under the keys `taken`, one after the other in any order: a
key that is neither keeps its record, and a key that was left and not taken has none. -/
structure Rekeyed (left taken : Value → Prop) (s s' : Store) : Prop where
  stays : ∀ v, ¬ left v → ¬ taken v → s'.record? v = s.record? v
  gone : ∀ v, left v → ¬ taken v → s'.record? v = none
  distinct : s'.values.Distinct
  quiet : s.Quiet → s'.Quiet
  loud : ¬ s.Quiet → ¬ s'.Quiet

namespace Rekeyed

variable {left left' taken taken' : Value → Prop} {s'' : Store}

theorem refl (hd : s.values.Distinct) (h : ∀ v, ¬ left v) : Rekeyed left taken s s :=
  ⟨fun _ _ _ => rfl, fun v hv => absurd hv (h v), hd, id, id⟩

theorem congr (h : Rekeyed left taken s s') (hleft : ∀ v, left' v ↔ left v)
    (htaken : ∀ v, taken' v ↔ taken v) : Rekeyed left' taken' s s' := by
  obtain rfl : left' = left := funext fun v => propext (hleft v)
  obtain rfl : taken' = taken := funext fun v => propext (htaken v)
  exact h

theorem trans (h : Rekeyed left taken s s') (h' : Rekeyed left' taken' s' s'') :
    Rekeyed (fun v => left v ∨ left' v) (fun v => taken v ∨ taken' v) s s'' where
  stays v hleft htaken := by
    rw [not_or] at hleft htaken
    rw [h'.stays v hleft.2 htaken.2, h.stays v hleft.1 htaken.1]
  gone v hleft htaken := by
    rw [not_or] at htaken
    by_cases hv : left' v
    · exact h'.gone v hv htaken.2
    · rw [h'.stays v hv htaken.2]
      exact h.gone v (hleft.resolve_right hv) htaken.1
  distinct := h'.distinct
  quiet hq := h'.quiet (h.quiet hq)
  loud hq := h'.loud (h.loud hq)

theorem quiet_iff (h : Rekeyed left taken s s') : s'.Quiet ↔ s.Quiet :=
  ⟨fun hq => Classical.byContradiction fun hloud => h.loud hloud hq, h.quiet⟩

theorem untaken (h : Rekeyed left taken s s') {v : Value} (hv : ¬ taken v) :
    s'.record? v = s.record? v ∨ s'.record? v = none := by
  by_cases hleft : left v
  · exact .inr (h.gone v hleft hv)
  · exact .inl (h.stays v hleft hv)

end Rekeyed

theorem rekeyed_removeValue (hd : s.values.Distinct) (h : Completes (removeValue key) s () s') :
    Rekeyed (fun v => key.entryOf? = v.entryOf?) (fun _ => False) s s' where
  stays v hv _ := by rw [record?_removeValue hd h, if_neg hv]
  gone v hv _ := by rw [record?_removeValue hd h, if_pos hv]
  distinct := h.keeps (keeps_distinct_removeValue key) hd
  quiet := h.keeps (keeps_quiet_removeValue key)
  loud := h.keeps (keeps_loud_removeValue key)

theorem rekeyed_setValue {members : Table Value} (hd : s.values.Distinct)
    (h : Completes (setValue key (.object members)) s () s') :
    Rekeyed (fun _ => False) (fun v => key.entryOf? = v.entryOf?) s s' where
  stays v _ hv := (record?_setValue hd h).2.1 v hv
  gone _ hv := hv.elim
  distinct := h.keeps (keeps_distinct_setValue key _) hd
  quiet := h.keeps (keeps_quiet_setValue key _)
  loud := h.keeps (keeps_loud_setValue key _)

end Store

end BatteryMonitor
