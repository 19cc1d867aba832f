import BatteryMonitor.Proofs.Effect
import BatteryMonitor.Telemetry.SnapshotFile
import Mathlib.Data.List.Induction

/-!
# What a snapshot file tells, and what its reader remembers

The file can hold anything: it may be missing, be no JSON text at all, or list something else than
batteries.

* `SnapshotFile.Describes`, `SnapshotFile.IsRefused` : the two kinds of content that a read knows.
  Objects in a list are readings, and what is no JSON text or no list is trouble of the source.
* `SnapshotFile.read_eq_ok_iff`, `SnapshotFile.read_eq_telemetry_iff` : so a read gives readings or
  tells of trouble.  There is a third kind: a list with something else than objects in it, and a text
  that nests too deeply.  Such content is neither.
* `SnapshotFile.readAll_eq` : what is left of any number of reads is whether the readings come with
  estimates, as the last object among the contents said it, whatever came of that read.  Only an
  object says it, so that behind a plain list the reader is not without memory
  (`SnapshotFile.remembers_iff`).
-/

namespace BatteryMonitor

open Effect

/-! ### What a content describes -/

namespace Reading

theorem exists_ofValues (objects : List (Table Value)) :
    ∃ readings, ofValues (objects.map .object) = .ok readings := by
  induction objects with
  | nil => exact ⟨[], rfl⟩
  | cons members objects ih =>
    obtain ⟨readings, hreadings⟩ := ih
    obtain ⟨r, hr⟩ : ∃ r, ofValue (.object members) = .ok r := ⟨_, rfl⟩
    exact ⟨r :: readings, bind_eq_ok.2 ⟨r, hr, bind_eq_ok.2 ⟨readings, hreadings, rfl⟩⟩⟩

theorem ofValues_cases (items : List Value) :
    (∃ objects : List (Table Value), items = objects.map .object) ∨
      ofValues items = .error .notRecord := by
  induction items with
  | nil => exact .inl ⟨[], rfl⟩
  | cons v items ih =>
    by_cases hv : ∃ members, v = .object members
    · obtain ⟨members, rfl⟩ := hv
      rcases ih with ⟨objects, rfl⟩ | hfault
      · exact .inl ⟨members :: objects, rfl⟩
      · right
        change (ofValue (.object members) >>= fun r => ofValues items >>= fun rs => .ok (r :: rs)) = _
        rw [hfault]
        rfl
    · right
      have hfault : ofValue v = .error .notRecord := by
        cases v with
        | object members => exact absurd ⟨members, rfl⟩ hv
        | _ => rfl
      change (ofValue v >>= fun r => ofValues items >>= fun rs => .ok (r :: rs)) = _
      rw [hfault]
      rfl

end Reading

namespace SnapshotFile

/-- The JSON text that the file holds. -/
def content (f : SnapshotFile) (d : Disk) : Except Fault Value :=
  d.read f.path >>= Json.parseBytes

/-- The items that a text lists: its own, or those under `batteries`, none of them if that is missing. -/
def listed? : Value → Option (List Value)
  | .list items => some items
  | .object members =>
    match Table.getD members "batteries" (.list []) with
    | .list items => some items
    | _ => none
  | _ => none

/-- The content is a list of objects, plain or under `batteries`. -/
def Describes (content : Except Fault Value) (objects : List (Table Value)) : Prop :=
  ∃ v, content = .ok v ∧ listed? v = some (objects.map .object)

/-- The content is no JSON text or lists nothing, and that is found out in time: a text that nests too
deeply stops the reader before it knows. -/
def IsRefused : Except Fault Value → Prop
  | .ok v => listed? v = none
  | .error fault => fault ≠ .tooDeep

instance : ∀ content, Decidable (IsRefused content)
  | .ok v => inferInstanceAs (Decidable (listed? v = none))
  | .error fault => inferInstanceAs (Decidable (fault ≠ .tooDeep))

variable {f : SnapshotFile} {d : Disk}

theorem readValue_fst (f : SnapshotFile) (v : Value) : (f.readValue v).1 =
    match listed? v with
    | some items => Reading.ofValues items
    | none => .error (.telemetry (.notList f.path.text)) := by
  cases v with
  | object members =>
    change (f.items (Table.getD members "batteries" (.list [])) >>= Reading.ofValues) = _
    rw [listed?]
    cases Table.getD members "batteries" (.list []) <;> rfl
  | _ => rfl

theorem readValue_path (f : SnapshotFile) (v : Value) : (f.readValue v).2.path = f.path := by
  cases v <;> rfl

theorem read_eq (f : SnapshotFile) (d : Disk) : f.read d =
    match f.content d with
    | .ok v => f.readValue v
    | .error .tooDeep => (.error .tooDeep, f)
    | .error _ => (.error (.telemetry (.unreadable f.path.text)), f) := rfl

theorem read_path (f : SnapshotFile) (d : Disk) : (f.read d).2.path = f.path := by
  rw [read_eq]
  split
  · exact readValue_path f _
  · rfl
  · rfl

/-- **A read gives readings iff the file is a list of objects.** -/
theorem read_eq_ok_iff : (∃ readings, (f.read d).1 = .ok readings) ↔
    ∃ objects, Describes (f.content d) objects := by
  rw [read_eq]
  constructor
  · rintro ⟨readings, hread⟩
    split at hread
    · rename_i v hv
      rw [readValue_fst] at hread
      split at hread
      · rename_i items hitems
        rcases Reading.ofValues_cases items with ⟨objects, rfl⟩ | hfault
        · exact ⟨objects, v, hv, hitems⟩
        · rw [hfault] at hread
          cases hread
      · cases hread
    · cases hread
    · cases hread
  · rintro ⟨objects, v, hv, hlisted⟩
    rw [hv]
    dsimp only
    rw [readValue_fst, hlisted]
    exact Reading.exists_ofValues objects

/-- **A read tells of trouble iff the content is refused.** -/
theorem read_eq_telemetry_iff : (∃ trouble, (f.read d).1 = .error (.telemetry trouble)) ↔
    IsRefused (f.content d) := by
  rw [read_eq]
  constructor
  · rintro ⟨trouble, hread⟩
    split at hread
    · rename_i v hv
      rw [readValue_fst] at hread
      split at hread
      · -- readings have no trouble to tell of: what is no object is a fault of another kind
        rename_i items hitems
        rcases Reading.ofValues_cases items with ⟨objects, rfl⟩ | hfault
        · obtain ⟨readings, hreadings⟩ := Reading.exists_ofValues objects
          rw [hreadings] at hread
          cases hread
        · rw [hfault] at hread
          cases hread
      · rename_i hlisted
        rw [hv]
        exact hlisted
    · cases hread
    · rename_i fault hdeep hfault
      rw [hfault]
      exact hdeep
  · intro hrefused
    split
    · rename_i v hv
      rw [hv] at hrefused
      rw [readValue_fst, show listed? v = none from hrefused]
      exact ⟨_, rfl⟩
    · rename_i hfault
      rw [hfault] at hrefused
      exact absurd rfl hrefused
    · exact ⟨_, rfl⟩

/-! ### What is remembered -/

/-- What a content says about estimates: an object says whether the readings come with some, and no if
it is silent; anything else says nothing. -/
def flag? : Except Fault Value → Option Bool
  | .ok (.object members) =>
    some (Table.getD members "provides_time_estimates" (.bool false)).truth
  | _ => none

/-- The reader after reads of the file, which may change in between. -/
def readAll (f : SnapshotFile) (past : List Disk) : SnapshotFile :=
  past.foldl (fun f d => (f.read d).2) f

/-- What the contents said about estimates, one after the other. -/
def said (f : SnapshotFile) (past : List Disk) : List Bool :=
  past.filterMap fun d => flag? (f.content d)

/-- What was said last, no if nothing was. -/
def lastSaid (f : SnapshotFile) (past : List Disk) : Bool :=
  (f.said past).getLast?.getD false

/-- **What a read leaves behind**, whether it gives readings or not. -/
theorem read_snd (f : SnapshotFile) (d : Disk) : (f.read d).2 =
    { f with providesEstimates := (flag? (f.content d)).getD f.providesEstimates } := by
  rw [read_eq]
  cases f.content d with
  | ok v => cases v <;> rfl
  | error fault => cases fault <;> rfl

/-- **What any number of reads leave behind.** -/
theorem readAll_eq (f : SnapshotFile) (past : List Disk) : f.readAll past =
    { f with providesEstimates := (f.said past).getLast?.getD f.providesEstimates } := by
  induction past using List.reverseRecOn with
  | nil => rfl
  | append_singleton past d ih =>
    have hstep : f.readAll (past ++ [d]) = ((f.readAll past).read d).2 := by
      rw [readAll, List.foldl_append]
      rfl
    have hsaid : f.said (past ++ [d]) = f.said past ++ (flag? (f.content d)).toList := by
      rw [said, List.filterMap_append]
      cases hflag : flag? (f.content d) <;> simp [said, hflag]
    have hcontent : (f.readAll past).content d = f.content d := by
      rw [ih]
      rfl
    rw [hstep, read_snd, hcontent, hsaid, ih]
    cases flag? (f.content d) <;> simp

theorem read_fst_congr {f g : SnapshotFile} {d d' : Disk} (hpath : f.path = g.path)
    (hcontent : f.content d = g.content d') : (f.read d).1 = (g.read d').1 := by
  rw [read_eq, read_eq, hcontent]
  cases g.content d' with
  | ok v =>
    dsimp only
    rw [readValue_fst, readValue_fst, hpath]
  | error fault => cases fault <;> simp only [hpath]

/-- **What a reader remembers.**  Let two new readers of one file have read any contents, and now the
same one.  They have the same readings.  But that these come with estimates iff the content says so is
true iff the content says something of them or the last of the other contents that did said no.  A
read, with readings or with trouble, leaves what is remembered as it was iff its content does not say
the contrary. -/
theorem remembers_iff {f f' : SnapshotFile} (hpath : f.path = f'.path)
    (hnew : f.providesEstimates = false) (hnew' : f'.providesEstimates = false)
    (past past' : List Disk) {d d' : Disk} (hcontent : f.content d = f'.content d') :
    ((f.readAll past).read d).1 = ((f'.readAll past').read d').1 ∧
      (((f.readAll past).read d).2.providesEstimates = (flag? (f.content d)).getD false ↔
        (flag? (f.content d)).isSome = true ∨ f.lastSaid past = false) ∧
      (((f.readAll past).read d).2.providesEstimates = (f.readAll past).providesEstimates ↔
        ∀ flag ∈ flag? (f.content d), flag = f.lastSaid past) := by
  have hleft : f.readAll past = { f with providesEstimates := f.lastSaid past } := by
    rw [readAll_eq, hnew]
    rfl
  have hleft' : f'.readAll past' = { f' with providesEstimates := f'.lastSaid past' } := by
    rw [readAll_eq, hnew']
    rfl
  have hflag : ((f.readAll past).read d).2.providesEstimates =
      (flag? (f.content d)).getD (f.lastSaid past) := by
    rw [hleft, read_snd]
    rfl
  refine ⟨?_, ?_, ?_⟩
  · rw [hleft, hleft']
    exact read_fst_congr hpath hcontent
  · rw [hflag]
    cases flag? (f.content d) <;> simp
  · rw [hflag, hleft]
    cases flag? (f.content d) <;> simp

/-- The disk on which the file holds a text. -/
def holding (text : String) : Disk where
  nodes := [(["batteries.json"], .file text.toUTF8)]

/-- A reader of the file. -/
def reader : SnapshotFile where
  path := { root := "", names := ["batteries.json"] }

/-- A list of no batteries that comes with estimates. -/
def withEstimates : String := "\x7b\"provides_time_estimates\": true, \"batteries\": []\x7d"

/-- Something that is no list and yet comes with estimates. -/
def noList : String := "\x7b\"provides_time_estimates\": true, \"batteries\": 1\x7d"

/-- A list of no batteries that says nothing. -/
def silent : String := "[]"

/-- What an object says of estimates does not depend on the contents before it. -/
theorem remembers_iff_objects :
    ((reader.readAll [holding noList, holding silent]).read (holding withEstimates)).1 =
      ((reader.readAll []).read (holding withEstimates)).1 ∧
    ((reader.readAll [holding noList, holding silent]).read
      (holding withEstimates)).2.providesEstimates = true := by
  have hnew : reader.providesEstimates = false := rfl
  have hcontent : reader.content (holding withEstimates) =
    reader.content (holding withEstimates) := rfl
  obtain ⟨hreadings, hflag, -⟩ :=
    remembers_iff rfl hnew hnew [holding noList, holding silent] [] hcontent
  exact ⟨hreadings, (hflag.2 (.inl (by decide +kernel))).trans (by decide +kernel)⟩

/-- **A plain list that comes with the estimates of another content**: what is no list was refused, but
changed what the reader remembers, and the list after it does not change that back. -/
theorem remembered_by_list :
    (∃ trouble, (reader.read (holding noList)).1 = .error (.telemetry trouble)) ∧
      (reader.read (holding noList)).2.providesEstimates ≠ reader.providesEstimates ∧
      (∃ readings, ((reader.readAll [holding noList]).read (holding silent)).1 = .ok readings) ∧
      ((reader.readAll [holding noList]).read (holding silent)).2.providesEstimates ≠
        (reader.read (holding silent)).2.providesEstimates :=
  ⟨read_eq_telemetry_iff.2 (by decide +kernel), by decide +kernel,
    exists_ok_of_toOption (by decide +kernel), by decide +kernel⟩

end SnapshotFile

end BatteryMonitor
