import BatteryMonitor.Proofs.Json.Record
import BatteryMonitor.Proofs.StateFile
import BatteryMonitor.Proofs.Steady

/-!
# A store and its file, as long as the disk takes it

A store that a file carries is written again after every change, and nothing is heard of it if the disk
refuses.  So the file need not hold what the store holds (`Store.Mirrored`); but a change that comes
while the disk takes the file (`Store.Ready`) writes all of the store, whatever was refused before it
(`Store.follows_removeValue`, `Store.follows_setValue`).  What a row of changes does to the file is
said by whether there was any (`Store.Follows`), which adds up along the row (`Store.Follows.trans`).
If no subscriber fails either, nothing stops such a store (`Store.tireless_dependable`).
-/

namespace BatteryMonitor

namespace Store

open Effect

variable {s s' : Store} {p : Path} {key : Value}

/-! ### The store and the file -/

/-- A file carries the store, and text can carry what the store holds. -/
structure Legible (p : Path) (s : Store) : Prop where
  backing : s.backing = some p
  distinct : s.values.Distinct
  members : ∀ q ∈ s.values, q.1.isText = true ∧ q.2.isLegible (Json.nestingLimit - 1) = true

/-- **What is read from the file is what the store holds.** -/
def Mirrored (p : Path) (s : Store) : Prop :=
  ∃ values, s.disk.loadState p = .ok values ∧
    (Value.object values).equal (.object s.values) = true ∧
    ∀ k, Option.Rel (fun v w => v.same w = true) (values.find? k) (s.values.find? k)

/-- Besides, the disk takes the file. -/
structure Ready (p : Path) (s : Store) : Prop extends Legible p s where
  takes : s.disk.Takes p

theorem Legible.object (hs : s.Legible p) :
    (Value.object s.values).isLegible Json.nestingLimit = true :=
  Value.isLegible_object_iff.2 ⟨hs.distinct, hs.members⟩

theorem Legible.withSubscribers (hs : s.Legible p) (subscribers : List Subscriber) :
    Legible p { s with subscribers } :=
  ⟨hs.backing, hs.distinct, hs.members⟩

theorem onFile_eq_ok_iff {d : Disk} : onFile d p = .ok s ↔
    ∃ values, d.loadState p = .ok values ∧ s = { values, backing := some p, disk := d } := by
  unfold onFile
  rw [bind_eq_ok]
  refine exists_congr fun values => and_congr_right fun _ => ⟨fun h => ?_, fun h => ?_⟩
  · exact (Except.ok.inj h).symm
  · rw [h]
    rfl

/-- **What was read from a file can be written to it again.** -/
theorem legible_onFile {d : Disk} (h : onFile d p = .ok s) : s.Legible p := by
  obtain ⟨values, hload, rfl⟩ := onFile_eq_ok_iff.1 h
  have hempty : (Value.object []).isLegible Json.nestingLimit = true := rfl
  suffices hlegible : (Value.object values).isLegible Json.nestingLimit = true by
    obtain ⟨hdistinct, hmembers⟩ := Value.isLegible_object_iff.1 hlegible
    exact ⟨rfl, hdistinct, hmembers⟩
  obtain ⟨there, -, hload⟩ := bind_eq_ok.1 hload
  split at hload
  · obtain rfl := Except.ok.inj hload
    exact hempty
  · split at hload
    · rename_i hparse
      obtain rfl := Except.ok.inj hload
      obtain ⟨bytes, -, hparse⟩ := bind_eq_ok.1 hparse
      exact Json.isLegible_of_parseBytes hparse
    · cases hload
    · obtain rfl := Except.ok.inj hload
      exact hempty

/-! ### Writing the file -/

theorem completes_persist_of_ok {change : Disk → Except Fault Disk} {disk : Disk}
    (h : change s.disk = .ok disk) : Completes (persist change) s true { s with disk } := by
  unfold persist
  rw [completes_get_bind, h]
  exact completes_pure.2 ⟨rfl, rfl⟩

theorem completes_persist_then {change : Disk → Except Fault Disk} {disk : Disk} {act : M Bool}
    (hchange : change s.disk = .ok disk) (h : Completes act { s with disk } true s') :
    Completes (do if ← persist change then act else return false) s true s' :=
  completes_bind.2 ⟨true, _, completes_persist_of_ok hchange, h⟩

theorem completes_saving_of_replaceFile {text : String} {disk : Disk} (hp : s.backing = some p)
    (hprint : Json.print (.object s.values) = .ok text)
    (h : s.disk.replaceFile p text = .ok disk) : Completes saving s true { s with disk } := by
  obtain ⟨made, hmade, h⟩ := bind_eq_ok.1 h
  obtain ⟨cleared, hcleared, h⟩ := bind_eq_ok.1 h
  obtain ⟨written, hwritten, hrename⟩ := bind_eq_ok.1 h
  obtain ⟨values, subscribers, heard, backing, before⟩ := s
  obtain rfl : backing = some p := hp
  simp only [saving, completes_get_bind]
  refine completes_persist_then hmade (completes_persist_then hcleared ?_)
  rw [completes_get_bind, hprint]
  refine completes_bind.2 ⟨text, _, completes_pure.2 ⟨rfl, rfl⟩, ?_⟩
  exact completes_persist_then hwritten (completes_persist_of_ok hrename)

/-- **A store that is ready is written**, and is read back with its members in order. -/
theorem Ready.exists_saving (hs : s.Ready p) : ∃ disk, Completes saving s true { s with disk } ∧
    disk.loadState p = .ok (Value.inOrder (Value.sortedMembers s.values)) ∧ disk.Takes p := by
  obtain ⟨text, hprint, hparse⟩ := Json.parse_print_sorted hs.object
  obtain ⟨disk, hreplace, htakes⟩ := hs.takes.exists_replaceFile text
  obtain ⟨place, hholds⟩ := Disk.holds_replaceFile hreplace
  exact ⟨disk, completes_saving_of_replaceFile hs.backing hprint hreplace,
    loadState_of_holds hholds hparse, htakes⟩

theorem Ready.exists_save (hs : s.Ready p) : ∃ disk, Completes save s () { s with disk } ∧
    Ready p { s with disk } ∧ Mirrored p { s with disk } := by
  obtain ⟨disk, hsaving, hload, htakes⟩ := hs.exists_saving
  have hequal : (Value.object (Value.inOrder (Value.sortedMembers s.values))).equal
      (.object s.values) = true := Value.same_sorted (.object s.values) hs.object
  have hsave : Completes save s () { s with disk } := by
    rw [save_eq]
    exact completes_discard.2 ⟨true, hsaving⟩
  refine ⟨disk, hsave, ⟨⟨hs.backing, hs.distinct, hs.members⟩, htakes⟩, _, hload, hequal,
    fun k => ?_⟩
  rw [Value.find?_inOrder hs.distinct]
  cases hfind : s.values.find? k with
  | none => exact .none
  | some v =>
    obtain ⟨l, -, hmem⟩ := (Table.find?_eq_some_iff hs.distinct).1 hfind
    exact .some (Value.same_sorted v (hs.members _ hmem).2)

theorem Ready.of_save (hs : s.Ready p) (h : Completes save s () s') :
    s'.Ready p ∧ s'.Mirrored p := by
  obtain ⟨disk, hsave, hready, hmirrored⟩ := hs.exists_save
  obtain ⟨-, rfl⟩ := h.unique hsave
  exact ⟨hready, hmirrored⟩

theorem Ready.holdsObject_save (hs : s.Ready p) (h : Completes save s () s') :
    ∃ place, s'.disk.HoldsObject p place := by
  rw [save_eq] at h
  obtain ⟨written, h⟩ := completes_discard.1 h
  obtain ⟨disk, hsaving, -⟩ := hs.exists_saving
  obtain rfl := h.unique hsaving
  obtain ⟨text, place, disk', hprint, heq, hholds⟩ := completes_saving hs.backing hsaving
  rw [heq]
  exact ⟨place, _, text, hprint, hholds⟩

theorem lasting_legible (p : Path) : Lasting (Legible p) where
  save := keeps_save fun _ _ hs => ⟨hs.backing, hs.distinct, hs.members⟩
  join _ _ _ _ _ _ hs := ⟨hs.backing, hs.distinct, hs.members⟩
  erase _ k hs := ⟨hs.backing, hs.distinct.erase k,
    fun q hq => hs.members q (Table.mem_of_mem_erase hq)⟩

theorem lasting_ready (p : Path) : Lasting (Ready p) where
  save s hs := by
    obtain ⟨disk, hsave, hready, -⟩ := hs.exists_save
    rw [hsave.after_eq]
    exact hready
  join s₀ s subscriber hs₀ hm hrecruit hs :=
    ⟨(lasting_legible p).join s₀ s subscriber hs₀.toLegible hm hrecruit hs.toLegible, hs.takes⟩
  erase s k hs := ⟨(lasting_legible p).erase s k hs.toLegible, hs.takes⟩

/-! ### Changes -/

theorem Ready.removeValue (hs : s.Ready p) (h : Completes (removeValue key) s () s') :
    s'.Ready p ∧ s'.Mirrored p := by
  have hlasting := lasting_ready p
  simp only [Store.removeValue, completes_get_bind, Value.key] at h
  split at h
  · exact hs.of_save h
  · cases hk : key.key? with
    | none =>
      simp only [hk, completes_bind] at h
      obtain ⟨u, t, ht, -⟩ := h
      exact absurd ht completes_throw
    | some k =>
      have herased : Ready p { s with values := s.values.erase k } := hlasting.erase s k hs
      simp only [hk, completes_set_bind] at h
      split at h
      · exact herased.of_save h
      · exact herased.of_save h
      · obtain ⟨u, t, ht, hsave⟩ := completes_bind.1 h
        have hannounced := ht.keeps (keeps_announceRemoval (P := Ready p)
          (fun t name ht => ⟨⟨ht.backing, ht.distinct, ht.members⟩, ht.takes⟩) hlasting.join) herased
        exact hannounced.of_save hsave

/-- In a store that text can carry a record takes one level more than by itself. -/
theorem Legible.insert {name : Text} {record : Table Value} (hs : s.Legible p)
    (hrecord : (Value.object record).isLegible (Json.nestingLimit - 1) = true) :
    Legible p { s with values := s.values.insert (.text name) (.object record) } :=
  ⟨hs.backing, hs.distinct.insert _ _, Table.forall_insert (T := (·.isText = true))
    (Q := fun v : Value => v.isLegible (Json.nestingLimit - 1) = true) hs.members rfl hrecord⟩

theorem Ready.exists_save_of_setValue {name : Text} {record : Table Value} (hs : s.Ready p)
    (hrecord : (Value.object record).isLegible (Json.nestingLimit - 1) = true)
    (h : Completes (Store.setValue (.text name) (.object record)) s () s') :
    ∃ t : Store, t.Ready p ∧ Completes save t () s' := by
  obtain ⟨u, t, ht, h⟩ := completes_bind.1 h
  obtain rfl := completes_modify.1 ht
  have hinserted : Ready p { s with values := s.values.insert (.text name) (.object record) } :=
    ⟨hs.toLegible.insert hrecord, hs.takes⟩
  obtain ⟨u, t, hannounce, hsave⟩ := completes_bind.1 h
  exact ⟨t, hannounce.keeps (keeps_announce (P := Ready p) (lasting_ready p)
    fun t name o _ ht => ⟨⟨ht.backing, ht.distinct, ht.members⟩, ht.takes⟩) hinserted, hsave⟩

theorem Ready.setValue {name : Text} {record : Table Value} (hs : s.Ready p)
    (hrecord : (Value.object record).isLegible (Json.nestingLimit - 1) = true)
    (h : Completes (setValue (.text name) (.object record)) s () s') :
    s'.Ready p ∧ s'.Mirrored p := by
  obtain ⟨t, ht, hsave⟩ := hs.exists_save_of_setValue hrecord h
  exact ht.of_save hsave

/-- Besides, no subscriber fails. -/
structure Dependable (p : Path) (s : Store) : Prop extends Ready p s where
  calm : ∀ subscriber ∈ s.subscribers, subscriber.reaction ≠ .fail

/-- **Nothing stops a store whose file the disk takes**, if no subscriber does. -/
theorem tireless_dependable (p : Path) : Tireless Table.Flat (Dependable p) where
  distinct h := h.distinct
  calm h := h.calm
  save h := by
    obtain ⟨disk, hsave, hready, -⟩ := h.exists_save
    exact ⟨_, hsave, hready, h.calm⟩
  told _ h := ⟨⟨⟨h.backing, h.distinct, h.members⟩, h.takes⟩, h.calm⟩
  join name h :=
    ⟨⟨⟨h.backing, h.distinct, h.members⟩, h.takes⟩, calm_subscribe h.calm name⟩
  erase k h := ⟨(lasting_ready p).erase _ k h.toReady, h.calm⟩
  insert _ _ hflat h := ⟨⟨h.insert (Value.isLegible_mono _
    (by decide : 1 ≤ Json.nestingLimit - 1) hflat), h.takes⟩, h.calm⟩

/-! ### A record that is put and read back -/

/-- **A record that was written is read back** with its members in order, if no subscriber removed
it. -/
theorem Legible.loadState_put {name : Text} {record : Table Value} (hs : s.Legible p)
    (hquiet : s.Quiet) (hrecord : (Value.object record).isLegible (Json.nestingLimit - 1) = true)
    (h : Completes (Call.put name record).observe s true s') :
    ∃ values, s'.disk.loadState p = .ok values ∧
      values.find? (.text name) = some (Value.object record).sorted := by
  obtain ⟨u, t, hchange, hsaving⟩ := completes_bind.1 h
  simp only [Call.change, completes_modify_bind] at hchange
  have hinserted : Legible p { s with values := s.values.insert (.text name) (.object record) } :=
    hs.insert hrecord
  have ht := hchange.keeps (keeps_announce (P := Legible p) (lasting_legible p)
    fun t name o _ ht => ⟨ht.backing, ht.distinct, ht.members⟩) hinserted
  have hvalues := (announce_values hinserted.distinct hchange).1 hquiet
  obtain ⟨text, place, disk, hprint, rfl, hholds⟩ := completes_saving ht.backing hsaving
  obtain ⟨text', hprint', hparse⟩ := Json.parse_print_sorted ht.object
  obtain rfl := Except.ok.inj (hprint.symm.trans hprint')
  refine ⟨_, loadState_of_holds hholds hparse, ?_⟩
  rw [Value.find?_inOrder ht.distinct, hvalues, Table.find?_insert, if_pos rfl]
  rfl

/-- **A store whose file the disk takes writes the record**, if no subscriber fails. -/
theorem Dependable.exists_put {record : Table Value} (hs : s.Dependable p)
    (hrecord : record.Flat) (name : Text) :
    ∃ s', Completes (Call.put name record).observe s true s' := by
  have htireless := tireless_dependable p
  obtain ⟨t, hannounce, ht⟩ := htireless.exists_announce (htireless.insert name hrecord hs)
    (.text name) (.object record)
  obtain ⟨disk, hsaving, -⟩ := ht.toReady.exists_saving
  exact ⟨_, completes_bind.2 ⟨(), t, completes_modify_bind.2 hannounce, hsaving⟩⟩

/-! ### Rows of changes -/

/-- **The file after a row of changes.**  Text can carry the store `s'` if it could carry `s`, and
the disk takes the file if it did before; then the file holds the store if there was any change, and
without a change the store is what it was. -/
structure Follows (p : Path) (changed : Prop) (s s' : Store) : Prop where
  legible : s.Legible p → s'.Legible p
  ready : s.Ready p → s'.Ready p
  mirrored : s.Ready p → changed → s'.Mirrored p
  kept : ¬ changed → s' = s

namespace Follows

variable {changed changed' : Prop} {s'' : Store}

theorem refl (h : ¬ changed) : Follows p changed s s :=
  ⟨id, id, fun _ hchanged => absurd hchanged h, fun _ => rfl⟩

theorem congr (h : Follows p changed s s') (hiff : changed' ↔ changed) :
    Follows p changed' s s' :=
  ⟨h.legible, h.ready, fun hs hchanged => h.mirrored hs (hiff.1 hchanged),
    fun hkept => h.kept (mt hiff.2 hkept)⟩

theorem trans (h : Follows p changed s s') (h' : Follows p changed' s' s'') :
    Follows p (changed ∨ changed') s s'' where
  legible hs := h'.legible (h.legible hs)
  ready hs := h'.ready (h.ready hs)
  mirrored hs hchanged := by
    by_cases hlater : changed'
    · exact h'.mirrored (h.ready hs) hlater
    · rw [h'.kept hlater]
      exact h.mirrored hs (hchanged.resolve_right hlater)
  kept hkept := by
    rw [not_or] at hkept
    rw [h'.kept hkept.2, h.kept hkept.1]

end Follows

theorem follows_removeValue (h : Completes (removeValue key) s () s') : Follows p True s s' where
  legible := h.keeps (keeps_removeValue (lasting_legible p)
    fun _ _ _ _ hs => ⟨hs.backing, hs.distinct, hs.members⟩)
  ready hs := (hs.removeValue h).1
  mirrored hs _ := (hs.removeValue h).2
  kept hkept := absurd trivial hkept

theorem follows_setValue {name : Text} {record : Table Value}
    (hrecord : (Value.object record).isLegible (Json.nestingLimit - 1) = true)
    (h : Completes (setValue (.text name) (.object record)) s () s') : Follows p True s s' where
  legible := by
    obtain ⟨u, t, ht, h⟩ := completes_bind.1 h
    obtain rfl := completes_modify.1 ht
    obtain ⟨u, t, hannounce, hsave⟩ := completes_bind.1 h
    intro hs
    have hannounced := hannounce.keeps (keeps_announce (P := Legible p) (lasting_legible p)
      fun t name o _ ht => ⟨ht.backing, ht.distinct, ht.members⟩) (hs.insert hrecord)
    exact hsave.keeps (lasting_legible p).save hannounced
  ready hs := (hs.setValue hrecord h).1
  mirrored hs _ := (hs.setValue hrecord h).2
  kept hkept := absurd trivial hkept

end Store

end BatteryMonitor
