import BatteryMonitor.Proofs.Json.Parsed
import BatteryMonitor.Settings
import Mathlib.Data.List.Induction

/-!
# Settings from any file

A settings file can hold anything.

* `Json.written`, `Json.parse_eq_object_iff` : an object is read from the members that it is written
  with, of which some may be of one key.  The last one of a key is what is found of it.
* `Settings.toTable_override` : written over the defaults, members change those settings that bear their
  names and add none.
* `Settings.load_returns_iff` : so there are settings, each of them the one that was written last or
  its default, if the file holds an object, if it is missing, and if it holds no JSON text.  They are
  not there if it holds any other JSON value (`Settings.load_list`), or nests too deeply.
-/

namespace BatteryMonitor

open Effect

/-! ### What an object is written as -/

namespace Table

variable {α : Type}

theorem find?_ofPairs (pairs : List (Key × α)) (k : Key) :
    (ofPairs pairs).find? k = find? pairs.reverse k := by
  induction pairs using List.reverseRecOn with
  | nil => rfl
  | append_singleton pairs p ih =>
    obtain ⟨l, a⟩ := p
    have hlast : ofPairs (pairs ++ [(l, a)]) = (ofPairs pairs).insert l a := by
      rw [ofPairs, List.foldl_append]
      rfl
    rw [hlast, find?_insert, List.reverse_concat, find?_cons, ih]

theorem find?_text (t : Table α) (name : Text) : t.find? (.text name) = t.lookup (.text name) := by
  induction t with
  | nil => rfl
  | cons p t ih =>
    obtain ⟨k, a⟩ := p
    rw [find?, List.lookup_cons, ih]
    have hsame : k.same (.text name) = (Key.text name == k) := by
      rw [Bool.eq_iff_iff, beq_iff_eq, Key.same_iff]
      exact ⟨fun h => (Key.eq_text_of_entry h).symm, fun h => h ▸ rfl⟩
    rw [hsame]
    cases Key.text name == k <;> rfl

end Table

namespace Json

variable {cs rest : List Char} {fuel depth : Nat} {t : Table Value}

/-- The members of an object behind its opening bracket, as they are written: in their order, and
repeated ones too. -/
def readWritten (fuel depth : Nat) (cs : List Char) :
    Except Fault (List (Key × Value) × List Char) :=
  match skipSpace cs with
  | '\x7d' :: rest => .ok ([], rest)
  | rest => readMembers fuel depth rest

/-- The members of the object that a text holds. -/
def written (s : String) : Except Fault (List (Key × Value)) :=
  match skipSpace s.toList with
  | '\x7b' :: rest => do
    let (members, rest) ← readWritten (2 * s.toList.length + 1) (nestingLimit - 1) rest
    if (skipSpace rest).isEmpty then return members else .error .badValue
  | _ => .error .badValue

theorem readWritten_of_closed (h : skipSpace cs = '\x7d' :: rest) :
    readWritten fuel depth cs = .ok ([], rest) := by
  simp only [readWritten, h]

theorem readWritten_of_open (h : ∀ rest, skipSpace cs = '\x7d' :: rest → False) :
    readWritten fuel depth cs = readMembers fuel depth (skipSpace cs) := by
  unfold readWritten
  split
  · rename_i hclosed
    exact (h _ hclosed).elim
  · rfl

theorem readValue_object : readValue (fuel + 1) (depth + 1) ('\x7b' :: cs) =
    (readWritten fuel depth cs).map fun (members, rest) =>
      (.object (Table.ofPairs members), rest) := by
  simp only [readValue]
  split
  · rename_i hclosed
    rw [readWritten_of_closed hclosed]
    rfl
  · rename_i hopen
    rw [readWritten_of_open hopen]
    cases readMembers fuel depth (skipSpace cs) <;> rfl

theorem exists_bracket (h : readValue (fuel + 1) depth cs = .ok (.object t, rest)) :
    ∃ cs', cs = '\x7b' :: cs' := by
  unfold readValue at h
  split at h
  · obtain ⟨⟨s, rest'⟩, -, h⟩ := bind_eq_ok.1 h
    cases h
  · split at h
    · cases h
    · split at h
      · cases h
      · obtain ⟨⟨items, rest'⟩, -, h⟩ := bind_eq_ok.1 h
        cases h
  · exact ⟨_, rfl⟩
  · exact absurd (Value.levels_eq_zero (isLegible_readScalar h 0)) (Nat.succ_ne_zero _)

/-- **An object is made of the members that it is written with.** -/
theorem parse_eq_object_iff {s : String} : parse s = .ok (.object t) ↔
    ∃ members, written s = .ok members ∧ t = Table.ofPairs members := by
  unfold parse written
  dsimp only
  split
  · rename_i cs hcs
    have hread : readValue (2 * s.toList.length + 1 + 1) (nestingLimit - 1 + 1) ('\x7b' :: cs) = _ :=
      readValue_object
    rw [hcs, show 2 * s.toList.length + 2 = 2 * s.toList.length + 1 + 1 from rfl,
      show nestingLimit = nestingLimit - 1 + 1 from rfl, hread, Nat.add_sub_cancel]
    cases readWritten (2 * s.toList.length + 1) (nestingLimit - 1) cs with
    | error fault => exact ⟨nofun, nofun⟩
    | ok p =>
      obtain ⟨members, rest⟩ := p
      simp only [Except.map, bind, Except.bind, pure, Except.pure]
      split
      · constructor
        · rintro ⟨⟩
          exact ⟨members, rfl, rfl⟩
        · rintro ⟨_, ⟨⟩, rfl⟩
          rfl
      · exact ⟨nofun, nofun⟩
  · rename_i hnone
    refine ⟨fun h => ?_, nofun⟩
    obtain ⟨⟨v, rest⟩, hread, h⟩ := bind_eq_ok.1 h
    dsimp only at h
    split at h
    · obtain rfl := Except.ok.inj h
      obtain ⟨cs', hcs⟩ := exists_bracket hread
      exact absurd hcs (hnone cs')
    · cases h

end Json

namespace Disk

variable {d : Disk} {path : Path}

/-! ### What a file holds -/

/-- The JSON text that a file holds. -/
def content (d : Disk) (path : Path) : Except Fault Value := d.read path >>= Json.parseBytes

theorem content_eq (d : Disk) (path : Path) : content d path = d.readText path >>= Json.parse := by
  unfold content Disk.readText
  rw [bind_assoc]
  refine bind_congr fun bytes => ?_
  unfold Json.parseBytes
  cases String.fromUTF8? bytes <;> rfl

theorem content_of_absent (h : d.hasPath path = .ok false) :
    ∃ fault, content d path = .error fault ∧ fault ≠ .tooDeep := by
  unfold Disk.hasPath at h
  unfold content Disk.read
  cases hlocate : d.locate path with
  | ok place =>
    rw [hlocate] at h
    have hnone : d.node? place = none := by simpa using h
    exact ⟨.disk .notFound, by simp only [bind, Except.bind, hnone]; rfl, nofun⟩
  | error fault =>
    refine ⟨fault, rfl, ?_⟩
    rintro rfl
    unfold Disk.locate at hlocate
    split at hlocate
    · cases hlocate
    · split at hlocate
      · cases hlocate
      · split at hlocate <;> cases hlocate

end Disk

namespace Settings

variable {site : Site} {d : Disk} {file : Option Path} {path : Path} {s : Settings} {there : Bool}

/-! ### Overriding -/

theorem exists_name_of_mem_toTable : ∀ p ∈ s.toTable, ∃ name : String, p.1 = .text name := by
  simp [toTable]

theorem toTable_setField (s : Settings) (name : String) (v : Value) :
    (s.setField name v).toTable =
      s.toTable.map fun p => (p.1, if Key.text name = p.1 then v else p.2) := by
  unfold setField
  split <;> simp_all [toTable]

theorem toTable_override_concat (s : Settings) (members : List (Key × Value)) (k : Key) (v : Value) :
    (s.override (members ++ [(k, v)])).toTable =
      (s.override members).toTable.map fun p => (p.1, if k = p.1 then v else p.2) := by
  rw [override, List.foldl_append]
  rcases k with _ | _ | _ | _ | (name | _)
  case text.whole => exact toTable_setField _ name v
  all_goals
    -- no setting is named by anything but a string
    refine (List.map_id _).symm.trans (List.map_congr_left fun p hp => ?_)
    obtain ⟨name, hname⟩ := exists_name_of_mem_toTable p hp
    rw [hname, if_neg (by simp), ← hname]
    rfl

/-- **Each setting is the last one of its name**, or stays what it is. -/
theorem toTable_override (s : Settings) (members : List (Key × Value)) :
    (s.override members).toTable =
      s.toTable.map fun p => (p.1, (members.reverse.lookup p.1).getD p.2) := by
  induction members using List.reverseRecOn with
  | nil => simp [override]
  | append_singleton members p ih =>
    obtain ⟨k, v⟩ := p
    rw [toTable_override_concat, ih, List.map_map, List.reverse_concat]
    refine List.map_congr_left fun p _ => congrArg (Prod.mk p.1) ?_
    dsimp only
    rw [List.lookup_cons]
    by_cases hk : k = p.1
    · rw [if_pos hk, beq_iff_eq.2 hk.symm]
      rfl
    · rw [if_neg hk, beq_eq_false_iff_ne.2 (Ne.symm hk)]

/-! ### Loading -/

/-- The members of the object that a file holds, as they are written; none if it holds no object. -/
def written (d : Disk) (path : Path) : List (Key × Value) :=
  match d.readText path >>= Json.written with
  | .ok members => members
  | .error _ => []

theorem written_of_fault {fault : Fault} (h : d.content path = .error fault) :
    written d path = [] := by
  rw [Disk.content_eq] at h
  unfold written
  cases htext : d.readText path with
  | error fault => rfl
  | ok text =>
    rw [htext] at h
    change (match Json.written text with | .ok members => members | .error _ => []) = []
    cases hwritten : Json.written text with
    | error fault => rfl
    | ok members =>
      -- what is written as an object is parsed as one
      exact nomatch h.symm.trans (Json.parse_eq_object_iff.2 ⟨members, hwritten, rfl⟩)

theorem eq_ofPairs_written {members : Table Value} (h : d.content path = .ok (.object members)) :
    members = Table.ofPairs (written d path) := by
  rw [Disk.content_eq] at h
  obtain ⟨text, htext, hparse⟩ := bind_eq_ok.1 h
  obtain ⟨pairs, hpairs, rfl⟩ := Json.parse_eq_object_iff.1 hparse
  have hwritten : (d.readText path >>= Json.written) = .ok pairs :=
    bind_eq_ok.2 ⟨text, htext, hpairs⟩
  rw [written, hwritten]

/-- The settings are overridden by the last members of their names that are written. -/
theorem toTable_override_ofPairs (s : Settings) (pairs : List (Key × Value)) :
    (s.override (Table.ofPairs pairs)).toTable =
      s.toTable.map fun p => (p.1, (pairs.reverse.lookup p.1).getD p.2) := by
  rw [toTable_override]
  refine List.map_congr_left fun p hp => ?_
  obtain ⟨name, hname⟩ := exists_name_of_mem_toTable p hp
  have hdistinct := Table.distinct_ofPairs pairs
  rw [hname, ← Table.find?_text, ← Table.find?_text,
    ← Table.find?_perm hdistinct (List.reverse_perm _).symm, Table.find?_ofPairs]

/-- **What is loaded depends on the content of the file**, once its path can be asked for. -/
theorem load_eq (h : d.hasPath (file.getD site.settingsFile) = .ok there) :
    load site d file =
      match d.content (file.getD site.settingsFile) with
      | .ok (.object members) => .ok ((default site).override members)
      | .ok _ => .error .notRecord
      | .error .tooDeep => .error .tooDeep
      | .error _ => .ok (default site) := by
  unfold load
  dsimp only
  rw [h]
  cases there with
  | true => rfl
  | false =>
    obtain ⟨fault, hfault, hne⟩ := Disk.content_of_absent h
    rw [hfault]
    cases fault <;> first | rfl | exact absurd rfl hne

/-- **Settings are loaded of all but a JSON value that is no object.**  They are there unless the path
cannot even be asked for, the text nests too deeply, or its value is something else than an object.
Then they have the names of the default ones, and each is the last one of its name that is written in
the object, or the default if there is none, or no object.  Nothing but the content of this one file
is looked at. -/
theorem load_returns_iff (site : Site) (d : Disk) (file : Option Path) :
    let path := file.getD site.settingsFile
    ((∃ s, load site d file = .ok s) ↔ (∃ there, d.hasPath path = .ok there) ∧
      d.content path ≠ .error .tooDeep ∧
      ∀ v, d.content path = .ok v → ∃ members, v = .object members) ∧
    (∀ s, load site d file = .ok s → s.toTable = (default site).toTable.map fun p =>
      (p.1, ((written d path).reverse.lookup p.1).getD p.2)) ∧
    (∀ d' : Disk, d'.hasPath path = d.hasPath path → d'.read path = d.read path →
      load site d' file = load site d file) := by
  intro path
  refine ⟨⟨fun ⟨s, h⟩ => ?_, fun ⟨⟨there, hpath⟩, hdeep, hobject⟩ => ?_⟩, fun s h => ?_,
    fun d' hpath hread => ?_⟩
  · obtain ⟨there, hpath, -⟩ := bind_eq_ok.1 h
    rw [load_eq hpath] at h
    refine ⟨⟨there, hpath⟩, fun hdeep => ?_, fun v hv => ?_⟩
    · rw [hdeep] at h
      cases h
    · rw [hv] at h
      cases v with
      | object members => exact ⟨members, rfl⟩
      | _ => cases h
  · rw [load_eq hpath]
    cases hcontent : d.content path with
    | ok v =>
      obtain ⟨members, rfl⟩ := hobject v hcontent
      exact ⟨_, rfl⟩
    | error fault =>
      cases fault <;> first | exact ⟨_, rfl⟩ | exact absurd hcontent hdeep
  · obtain ⟨there, hpath, -⟩ := bind_eq_ok.1 h
    rw [load_eq hpath] at h
    cases hcontent : d.content path with
    | ok v =>
      rw [hcontent] at h
      cases v with
      | object members =>
        cases h
        rw [eq_ofPairs_written hcontent, toTable_override_ofPairs]
      | _ => cases h
    | error fault =>
      rw [hcontent] at h
      have hdefault : s = default site := by
        cases fault <;> cases h <;> rfl
      rw [hdefault, written_of_fault hcontent]
      exact (List.map_id _).symm
  · unfold load
    dsimp only
    rw [hpath, hread]

/-- **Settings are not loaded of a file that holds a list**, although it is readable and valid. -/
theorem load_list :
    let file : Path := { root := "", names := ["settings.json"] }
    let d : Disk := { nodes := [(["settings.json"], .file "[1]".toUTF8)] }
    ∀ site, load site d (some file) = .error .notRecord := by
  intro file d site
  have hcontent : d.content file = .ok (.list [.int 1]) := eq_ok_of_toOption (by decide +kernel)
  have hpath : d.hasPath ((some file).getD site.settingsFile) = .ok true := rfl
  have hload := load_eq hpath
  rwa [Option.getD_some, hcontent] at hload

end Settings

end BatteryMonitor
