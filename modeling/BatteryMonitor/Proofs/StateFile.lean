import BatteryMonitor.Proofs.Disk
import BatteryMonitor.Proofs.Json.Parsed
import BatteryMonitor.Proofs.Json.RoundTrip
import BatteryMonitor.Proofs.Store

/-!
# The state file carries the store

A call changes the table in memory and tells the subscribers, and only then writes the file
(`Store.Call.act_eq`).  The file is replaced by a draft that holds the text of the table
(`Store.completes_saving`), so what is read back depends on nothing but the table.  That text can
carry the table is what a run keeps, from a file without doubles on (`Store.carried_onFile`,
`Store.keeps_act`): whatever the subscribers do, they put nothing there.  So every file that is
written is read back as the table, but for the order of members (`Store.carried_by_file`).
-/

namespace BatteryMonitor

/-- The file holds the text of an object. -/
def Disk.HoldsObject (d : Disk) (p : Path) (place : List String) : Prop :=
  ∃ values text, Json.print (.object values) = .ok text ∧ d.Holds p place text.toUTF8

namespace Store

open Effect

variable {s s' t : Store} {p : Path}

/-! ### Calls -/

/-- A call that changes a store. -/
inductive Call where
  | put (key : Text) (record : Table Value)
  | drop (key : Text)

/-- What is done in a call. -/
def Call.act : Call → M Unit
  | put key record => setValue (.text key) (.object record)
  | drop key => removeValue (.text key)

/-- What is done in a call before the file is written. -/
def Call.change : Call → M Unit
  | put key record => do
    modify fun s => { s with values := s.values.insert (.text key) (.object record) }
    announce (.text key) (.object record)
  | drop key => do
    let s ← get
    unless s.values.isEmpty do
      set { s with values := s.values.erase (.text key) }
      match s.values.find? (.text key) with
      | none | some .null => pure ()
      | some _ => announceRemoval (.text key)

/-- As `save`, and tells whether the file was replaced. -/
def saving : M Bool := do
  match (← get).backing with
  | none => return false
  | some path =>
    let draft := path.withEnding ".tmp"
    if ← persist (·.makeDirectories path.parent) then
      if ← persist (·.writeText draft "") then
        let text ← save.liftExcept (Json.print (.object (← get).values))
        if ← persist (·.writeText draft text) then
          persist (·.rename draft path)
        else return false
      else return false
    else return false

/-- What is done in a call, and whether the file was replaced. -/
def Call.observe (c : Call) : M Bool := do
  c.change
  saving

theorem save_eq : save = discard saving := by
  unfold save saving
  rw [discard_eq, bind_assoc]
  refine bind_congr fun s => ?_
  cases s.backing with
  | none => rfl
  | some path =>
    simp only [bind_assoc]
    refine bind_congr fun made => ?_
    cases made
    · rfl
    simp only [if_true, bind_assoc]
    refine bind_congr fun cleared => ?_
    cases cleared
    · rfl
    simp only [if_true, bind_assoc]
    refine bind_congr fun s => bind_congr fun text => bind_congr fun written => ?_
    cases written <;> rfl

/-- **A call changes the table, and then the file.** -/
theorem Call.act_eq (c : Call) : c.act = (do c.change; save) := by
  cases c with
  | put key record => rfl
  | drop key =>
    simp only [act, change, removeValue, Value.key, Value.key?, bind_assoc]
    refine bind_congr fun s => ?_
    split
    · rfl
    · simp only [bind_assoc]
      refine bind_congr fun u => ?_
      cases s.values.find? (.text key) with
      | none => rfl
      | some record => cases record <;> rfl

theorem Call.act_eq_discard (c : Call) : c.act = discard c.observe := by
  rw [act_eq, save_eq, discard_eq, discard_eq, observe, bind_assoc]

/-! ### The file -/

theorem completes_persist {change : Disk → Except Fault Disk}
    (h : Completes (persist change) s true s') :
    ∃ disk, change s.disk = .ok disk ∧ s' = { s with disk } := by
  unfold persist at h
  rw [completes_get_bind] at h
  split at h
  · rename_i disk hdisk
    rw [completes_set_bind] at h
    exact ⟨disk, hdisk, (completes_pure.1 h).2⟩
  · cases (completes_pure.1 h).1
  · exact absurd h completes_throw

theorem completes_persist_bind {change : Disk → Except Fault Disk} {act : M Bool}
    (h : Completes (do if ← persist change then act else return false) s true s') :
    ∃ disk, change s.disk = .ok disk ∧ Completes act { s with disk } true s' := by
  obtain ⟨changed, t, hchanged, h⟩ := completes_bind.1 h
  cases changed with
  | false => cases (completes_pure.1 h).1
  | true =>
    obtain ⟨disk, hdisk, rfl⟩ := completes_persist hchanged
    exact ⟨disk, hdisk, h⟩

theorem completes_liftExcept {α : Type} {x : Except Fault α} {a : α}
    (h : Completes (save.liftExcept x) s a s') : x = .ok a ∧ s' = s := by
  cases x with
  | ok b => obtain ⟨rfl, rfl⟩ := completes_pure.1 h; exact ⟨rfl, rfl⟩
  | error fault => exact absurd h completes_throw

/-- **When the file was replaced, it holds the text of the store**, and nothing else has changed. -/
theorem completes_saving (hp : s.backing = some p) (h : Completes saving s true s') :
    ∃ text place disk, Json.print (.object s.values) = .ok text ∧ s' = { s with disk } ∧
      disk.Holds p place text.toUTF8 := by
  simp only [saving, completes_get_bind, hp] at h
  obtain ⟨d₁, -, h⟩ := completes_persist_bind h
  obtain ⟨d₂, -, h⟩ := completes_persist_bind h
  rw [completes_get_bind] at h
  obtain ⟨text, s₃, hlift, h⟩ := completes_bind.1 h
  obtain ⟨hprint, rfl⟩ := completes_liftExcept hlift
  obtain ⟨d₄, hwrite, h⟩ := completes_persist_bind h
  obtain ⟨disk, hrename, rfl⟩ := completes_persist h
  -- the draft holds the text, and takes the place of the file
  obtain ⟨draft, hdraft⟩ := Disk.holds_write hwrite
  obtain ⟨place, hholds⟩ := Disk.holds_rename hrename hdraft.read
  exact ⟨text, place, disk, hprint, rfl, hholds⟩

/-! ### What the store holds -/

/-- The store is carried by a file, and text can carry what it holds. -/
structure Carried (p : Path) (s : Store) : Prop where
  backing : s.backing = some p
  distinct : s.values.Distinct
  members : ∀ q ∈ s.values, q.1.isText = true ∧ q.2.isPortable (Json.nestingLimit - 1) = true

theorem Carried.portable (hs : s.Carried p) :
    (Value.object s.values).isPortable Json.nestingLimit = true :=
  Value.isPortable_object_iff.2 ⟨hs.distinct, hs.members⟩

theorem carried_onFile {d : Disk} (h : onFile d p = .ok s)
    (hfree : (Value.object s.values).isDoubleFree = true) : s.Carried p := by
  obtain ⟨values, hload, h⟩ := bind_eq_ok.1 h
  obtain rfl := Except.ok.inj h
  have hempty : (Value.object []).isPortable Json.nestingLimit = true := rfl
  suffices hportable : (Value.object values).isPortable Json.nestingLimit = true by
    obtain ⟨hdistinct, hmembers⟩ := Value.isPortable_object_iff.1 hportable
    exact ⟨rfl, hdistinct, hmembers⟩
  obtain ⟨there, -, hload⟩ := bind_eq_ok.1 hload
  split at hload
  · obtain rfl := Except.ok.inj hload
    exact hempty
  · split at hload
    · rename_i hparse
      obtain rfl := Except.ok.inj hload
      obtain ⟨bytes, -, hparse⟩ := bind_eq_ok.1 hparse
      exact Json.isPortable_of_parseBytes hparse hfree
    · cases hload
    · obtain rfl := Except.ok.inj hload
      exact hempty

theorem lasting_carried (p : Path) : Lasting (Carried p) where
  save := keeps_save fun _ _ hs => ⟨hs.backing, hs.distinct, hs.members⟩
  join _ _ _ _ _ _ hs := ⟨hs.backing, hs.distinct, hs.members⟩
  erase _ k hs := ⟨hs.backing, hs.distinct.erase k,
    fun q hq => hs.members q (Table.mem_of_mem_erase hq)⟩

/-- How deep a record may nest. -/
def recordNesting : Nat := 200

/-- Text can carry the record that a call puts under a key. -/
def Call.isPortable : Call → Bool
  | put _ record => (Value.object record).isPortable recordNesting
  | drop _ => true

theorem Carried.insert {key : Text} {record : Table Value} (hs : s.Carried p)
    (hrecord : (Value.object record).isPortable recordNesting = true) :
    Carried p { s with values := s.values.insert (.text key) (.object record) } := by
  have hle : recordNesting ≤ Json.nestingLimit - 1 := by decide
  exact ⟨hs.backing, hs.distinct.insert _ _, Table.forall_insert (T := (·.isText = true))
    (Q := fun v : Value => v.isPortable (Json.nestingLimit - 1) = true) hs.members rfl
    (Value.isPortable_mono _ hle hrecord)⟩

/-- What lasts, and neither news nor a new record can spoil, is kept up to the writing of the file. -/
theorem keeps_change_of_lasting {P : Store → Prop} {c : Call} (hP : Lasting P)
    (hear : ∀ s n, P s → P (s.told n))
    (insert : ∀ s key record, c = .put key record → P s →
      P { s with values := s.values.insert (.text key) (.object record) }) : Keeps P c.change := by
  cases c with
  | put key record =>
    refine keeps_bind (keeps_modify fun s hs => insert s key record rfl hs) fun _ => ?_
    exact keeps_announce hP fun s name o _ hs => hear s _ hs
  | drop key =>
    refine keeps_get_bind fun s hs => ?_
    split
    · exact hs
    · refine keeps_bind (keeps_set (hP.erase s _ hs)) (fun _ => ?_) s hs
      split
      · exact keeps_pure _
      · exact keeps_pure _
      · exact keeps_announceRemoval (fun s name hs => hear s _ hs) hP.join

theorem keeps_change {c : Call} (hc : c.isPortable = true) : Keeps (Carried p) c.change := by
  refine keeps_change_of_lasting (lasting_carried p)
    (fun s n hs => ⟨hs.backing, hs.distinct, hs.members⟩) fun s key record heq hs => ?_
  subst heq
  exact hs.insert hc

/-- **Calls keep the store such that text can carry it.** -/
theorem keeps_act {c : Call} (hc : c.isPortable = true) : Keeps (Carried p) c.act := by
  rw [Call.act_eq]
  exact keeps_bind (keeps_change hc) fun _ => (lasting_carried p).save

theorem loadState_of_holds {d : Disk} {place : List String} {text : String} {members : Table Value}
    (h : d.Holds p place text.toUTF8) (hparse : Json.parse text = .ok (.object members)) :
    d.loadState p = .ok members := by
  have hread : (d.read p >>= Json.parseBytes) = .ok (.object members) :=
    bind_eq_ok.2 ⟨_, h.read, (Json.parseBytes_toUTF8 text).trans hparse⟩
  refine bind_eq_ok.2 ⟨true, h.hasPath, ?_⟩
  rw [if_neg (by decide), hread]
  rfl

/-- **What the file holds is read back as the store**: the members of every object are in the order
of their keys, and otherwise it is what the store holds. -/
theorem Carried.loadState {text : String} {place : List String} {disk : Disk} (hs : s.Carried p)
    (hprint : Json.print (.object s.values) = .ok text) (h : disk.Holds p place text.toUTF8) :
    disk.loadState p = .ok (Value.inOrder (Value.sortedMembers s.values)) := by
  obtain ⟨text', hprint', hparse⟩ := Json.parse_print hs.portable
  obtain rfl := Except.ok.inj (hprint.symm.trans hprint')
  exact loadState_of_holds h hparse

/-- **The file carries the store.** Whatever was put and dropped in a store that was read from a
file without doubles, by calls that may have failed, whenever the file is replaced it is read back
as a table that equals the one in memory, also key by key, and this is what a new store on the file
holds.  The decoder undoes the encoder on all values that text can carry. -/
theorem carried_by_file {d : Disk} {fresh : Store} {subscribers : List Subscriber}
    {past : List Call} {c : Call} (hfresh : onFile d p = .ok fresh)
    (hfree : (Value.object fresh.values).isDoubleFree = true)
    (hpast : ∀ c ∈ past, c.isPortable = true) (hc : c.isPortable = true)
    (hsaved : Completes c.observe (afterAll Call.act { fresh with subscribers } past) true s') :
    Completes c.act (afterAll Call.act { fresh with subscribers } past) () s' ∧
    (∃ values, s'.disk.loadState p = .ok values ∧
      (Value.object values).equal (.object s'.values) = true ∧
      (∀ k, Option.Rel (fun v w => v = w.sorted ∧ v.equal w = true)
        (values.find? k) (s'.values.find? k)) ∧
      onFile s'.disk p = .ok { values, backing := some p, disk := s'.disk }) ∧
    ∀ v, v.isPortable Json.nestingLimit = true → ∃ text, Json.print v = .ok text ∧
      Json.parse text = .ok v.sorted ∧ v.sorted.equal v = true := by
  have hcarried := carried_onFile hfresh hfree
  have hstart : Carried p { fresh with subscribers } :=
    ⟨hcarried.backing, hcarried.distinct, hcarried.members⟩
  have hbefore := afterAll_induction hstart (fun c hc => keeps_act hc) hpast
  refine ⟨c.act_eq_discard ▸ completes_discard.2 ⟨true, hsaved⟩, ?_, fun v hv => ?_⟩
  · -- the file is written last, when the table has changed already
    obtain ⟨_, t, hchange, hsaving⟩ := completes_bind.1 hsaved
    have ht := hchange.keeps (keeps_change hc) hbefore
    obtain ⟨text, place, disk, hprint, rfl, hholds⟩ := completes_saving ht.backing hsaving
    have hload := ht.loadState hprint hholds
    refine ⟨_, hload, Value.equal_sorted ht.portable, Value.rel_inOrder ht.portable, ?_⟩
    rw [onFile, hload]
    rfl
  · obtain ⟨text, hprint, hparse⟩ := Json.parse_print hv
    exact ⟨text, hprint, hparse, Value.equal_sorted hv⟩

/-- A file in the directory that the system runs in. -/
def shelf : Path where
  root := ""
  names := ["state.json"]

/-- The text in it. -/
def shelved : String := "\x7b\"a\": \x7b\"n\": [-7, \x7b\x7d, \"\\u00e9\"]\x7d\x7d"

/-- What is read from it. -/
def onShelf : Store where
  values := [(.text "a", .object [(.text "n", .list [.int (-7), .object [], .text "é"])])]
  backing := some shelf
  disk := { nodes := [(["state.json"], .file shelved.toUTF8)] }

/-- The same with a recruiter who hears of changes. -/
def shared : Store :=
  { onShelf with subscribers := [{ name := "recruiter", reaction := .recruit }] }

/-- The record on the shelf is dropped, then another one is put there and dropped. -/
def cleared : List Call := [.drop "\x00", .drop "b", .put "b" [], .drop "a"]

/-- Then comes a record with a container in another one and texts that need escapes. -/
def escaped : Call :=
  .put "c" [(.text "\"\\", .list [.int (-12), .object [(.text "😀", .list [])], .text "\n\x07é"])]

/-- In the end the file holds the last record. -/
theorem carried_by_file_shelf :
    let s' := after escaped.act (afterAll Call.act shared cleared)
    s'.values.length = 1 ∧ ∃ values, s'.disk.loadState shelf = .ok values ∧
      (Value.object values).equal (.object s'.values) = true := by
  have hparse : Json.parse shelved = .ok (.object onShelf.values) :=
    eq_ok_of_toOption (by decide +kernel)
  have hholds : onShelf.disk.Holds shelf ["state.json"] shelved.toUTF8 := ⟨rfl, rfl⟩
  have hload := loadState_of_holds hholds hparse
  have hfresh : onFile onShelf.disk shelf = .ok onShelf := by
    rw [onFile, hload]
    rfl
  have hsaved : Completes escaped.observe (afterAll Call.act shared cleared) true
      (after escaped.observe (afterAll Call.act shared cleared)) :=
    completes_of_outcome (by decide +kernel)
  obtain ⟨hact, ⟨values, hvalues, hequal, -⟩, -⟩ := carried_by_file hfresh rfl
    (by decide +kernel) (by decide +kernel) hsaved
  have hlast : after escaped.act (afterAll Call.act shared cleared) = _ := hact.after_eq
  rw [hlast]
  exact ⟨by decide +kernel, values, hvalues, hequal⟩

end Store

end BatteryMonitor
