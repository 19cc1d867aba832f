import BatteryMonitor.Disk.Basic
import BatteryMonitor.Proofs.Effect

/-!
# A file that was written is there

A path leads through directories, and only where no directory is a file is put.  So the place that a
path leads to does not depend on what is written (`Disk.locate_of_keeps`), and after a file was
written or another one moved in its place its content is read back (`Disk.holds_write`,
`Disk.holds_rename`).

A file is replaced by way of a draft beside it (`Disk.replaceFile`).  Whether a disk allows that does not
depend on the text, and a disk that allowed it once goes on doing so (`Disk.Takes.exists_replaceFile`).
-/

namespace BatteryMonitor.Disk

variable {d d' : Disk} {p source target : Path} {place place' : List String} {content : ByteArray}

/-! ### Nodes -/

theorem lookup_filter_ne (nodes : List (List String × Node)) (place place' : List String) :
    (nodes.filter (·.1 != place)).lookup place' =
      if place' = place then none else nodes.lookup place' := by
  induction nodes with
  | nil => simp
  | cons entry nodes ih =>
    obtain ⟨at_, node⟩ := entry
    rw [List.filter_cons]
    by_cases hat : at_ = place
    · subst hat
      rw [if_neg (by simp), ih, List.lookup_cons]
      split
      · rfl
      · rename_i hne
        rw [beq_false_of_ne hne]
    · rw [if_pos (by simpa using hat), List.lookup_cons, List.lookup_cons, ih]
      split
      · rename_i heq
        rw [if_neg (by rw [eq_of_beq heq]; exact hat)]
      · rfl

theorem node?_drop (h : place ≠ []) (place' : List String) :
    (d.drop place).node? place' = if place' = place then none else d.node? place' := by
  rw [node?, node?, drop, lookup_filter_ne]
  split
  · rename_i hroot
    rw [if_neg fun heq : place' = place => h (heq.symm.trans hroot)]
  · rfl

theorem node?_put (h : place ≠ []) (node : Node) (place' : List String) :
    (d.put place node).node? place' = if place' = place then some node else d.node? place' := by
  rw [node?, node?, put]
  split
  · rename_i hroot
    rw [if_neg fun heq : place' = place => h (heq.symm.trans hroot)]
  · rw [List.lookup_cons, lookup_filter_ne]
    by_cases heq : place' = place
    · simp only [heq, beq_self_eq_true, if_true]
    · simp only [beq_false_of_ne heq, if_neg heq]

/-- The directories of the first disk are directories of the second. -/
structure Keeps (d d' : Disk) : Prop where
  here : d'.here = d.here
  directory : ∀ place, d.node? place = some .directory → d'.node? place = some .directory

theorem ne_root (h : d.node? place ≠ some .directory) : place ≠ [] := by
  rintro rfl
  exact h rfl

theorem keeps_put (h : d.node? place ≠ some .directory) (node : Node) :
    d.Keeps (d.put place node) := by
  refine ⟨rfl, fun place' hplace' => ?_⟩
  rw [node?_put (ne_root h), if_neg (by rintro rfl; exact h hplace'), hplace']

/-- The directories of the two disks are the same, and there is space on both or on none. -/
structure Alike (d d' : Disk) : Prop where
  here : d'.here = d.here
  full : d'.full = d.full
  directory : ∀ place, d'.node? place = some .directory ↔ d.node? place = some .directory

theorem Alike.refl (d : Disk) : d.Alike d := ⟨rfl, rfl, fun _ => Iff.rfl⟩

theorem Alike.symm (h : d.Alike d') : d'.Alike d :=
  ⟨h.here.symm, h.full.symm, fun place => (h.directory place).symm⟩

theorem Alike.trans {d'' : Disk} (h : d.Alike d') (h' : d'.Alike d'') : d.Alike d'' :=
  ⟨h'.here.trans h.here, h'.full.trans h.full,
    fun place => (h'.directory place).trans (h.directory place)⟩

theorem Alike.keeps (h : d.Alike d') : d.Keeps d' :=
  ⟨h.here, fun place => (h.directory place).2⟩

theorem alike_put (h : d.node? place ≠ some .directory) (content : ByteArray) :
    d.Alike (d.put place (.file content)) := by
  refine ⟨rfl, rfl, fun place' => ?_⟩
  rw [node?_put (ne_root h)]
  split
  · rename_i heq
    exact iff_of_false nofun (heq ▸ h)
  · exact Iff.rfl

theorem alike_drop (h : d.node? place ≠ some .directory) : d.Alike (d.drop place) := by
  refine ⟨rfl, rfl, fun place' => ?_⟩
  rw [node?_drop (ne_root h)]
  split
  · rename_i heq
    exact iff_of_false nofun (heq ▸ h)
  · exact Iff.rfl

theorem alike_move (hsource : d.node? place ≠ some .directory)
    (htarget : d.node? place' ≠ some .directory) (content : ByteArray) :
    d.Alike ((d.drop place).put place' (.file content)) :=
  (alike_drop hsource).trans (alike_put (mt ((alike_drop hsource).directory place').1 htarget) content)

/-! ### Places -/

theorem walk_of_keeps (h : d.Keeps d') : ∀ {names : List String} {from_ place : List String},
    d.walk from_ names = .ok place → d'.walk from_ names = .ok place := by
  intro names
  induction names with
  | nil => exact fun hwalk => hwalk
  | cons name names ih =>
    intro from_ place hwalk
    rw [walk] at hwalk ⊢
    split at hwalk
    · cases hwalk
    · cases hwalk
    · rename_i hdirectory
      simp only [h.directory _ hdirectory]
      split at hwalk
      · rename_i hfits
        rw [if_pos hfits]
        exact ih hwalk
      · cases hwalk

/-- **A path leads to the same place** as long as the directories stay. -/
theorem locate_of_keeps (h : d.Keeps d') (hlocate : d.locate p = .ok place) :
    d'.locate p = .ok place := by
  have hstart : d'.start p = d.start p := by rw [start, start, h.here]
  unfold locate at hlocate ⊢
  split at hlocate
  · cases hlocate
  · rename_i hvalid
    rw [if_neg hvalid]
    split at hlocate
    · cases hlocate
    · rename_i hfits
      rw [if_neg hfits, hstart]
      split at hlocate
      · rename_i hwalk
        rw [walk_of_keeps h hwalk]
        exact hlocate
      · cases hlocate

/-! ### Files -/

/-- The path leads to the place, where a file with the content is. -/
structure Holds (d : Disk) (p : Path) (place : List String) (content : ByteArray) : Prop where
  locate : d.locate p = .ok place
  node : d.node? place = some (.file content)

theorem Holds.read (h : d.Holds p place content) : d.read p = .ok content := by
  refine bind_eq_ok.2 ⟨place, h.locate, ?_⟩
  rw [h.node]
  rfl

theorem Holds.readText {s : String} (h : d.Holds p place s.toUTF8) : d.readText p = .ok s := by
  refine bind_eq_ok.2 ⟨_, h.read, ?_⟩
  rw [show String.fromUTF8? s.toUTF8 = some s from dif_pos s.isValidUTF8]
  rfl

theorem Holds.hasPath (h : d.Holds p place content) : d.hasPath p = .ok true := by
  simp only [Disk.hasPath, h.locate, h.node, Option.isSome_some]

theorem holds_of_read (h : d.read p = .ok content) : ∃ place, d.Holds p place content := by
  obtain ⟨place, hlocate, h⟩ := bind_eq_ok.1 h
  split at h
  · rename_i hnode
    obtain rfl := Except.ok.inj h
    exact ⟨place, hlocate, hnode⟩
  · cases h
  · cases h

/-- **A file is written where no directory is**, if there is space left. -/
theorem write_eq_ok_iff : d.write p content = .ok d' ↔ ∃ place, d.locate p = .ok place ∧
    d.node? place ≠ some .directory ∧ d.full = false ∧ d' = d.put place (.file content) := by
  constructor
  · intro h
    obtain ⟨place, hlocate, h⟩ := bind_eq_ok.1 h
    refine ⟨place, hlocate, ?_⟩
    split at h
    · cases h
    · rename_i hnode
      split at h
      · cases h
      · rename_i hfull
        exact ⟨hnode, Bool.eq_false_iff.2 hfull, (Except.ok.inj h).symm⟩
  · rintro ⟨place, hlocate, hnode, hfull, rfl⟩
    refine bind_eq_ok.2 ⟨place, hlocate, ?_⟩
    split
    · rename_i hdirectory
      exact absurd hdirectory hnode
    · rw [hfull]
      rfl

/-- **What was written is there.** -/
theorem holds_write (h : d.write p content = .ok d') : ∃ place, d'.Holds p place content := by
  obtain ⟨place, hlocate, hnode, -, rfl⟩ := write_eq_ok_iff.1 h
  exact ⟨place, locate_of_keeps (keeps_put hnode _) hlocate,
    (node?_put (ne_root hnode) _ _).trans (if_pos rfl)⟩

theorem readText_of_writeText {s : String} (h : d.writeText p s = .ok d') :
    d'.readText p = .ok s := by
  obtain ⟨place, hholds⟩ := holds_write h
  exact hholds.readText

/-- **A file that is there can be removed.** -/
theorem remove_eq_ok_iff : d.remove p = .ok d' ↔
    ∃ place content, d.Holds p place content ∧ d' = d.drop place := by
  constructor
  · intro h
    obtain ⟨place, hlocate, h⟩ := bind_eq_ok.1 h
    split at h
    · rename_i content hnode
      exact ⟨place, content, ⟨hlocate, hnode⟩, (Except.ok.inj h).symm⟩
    · cases h
    · cases h
  · rintro ⟨place, content, hholds, rfl⟩
    refine bind_eq_ok.2 ⟨place, hholds.locate, ?_⟩
    rw [hholds.node]
    rfl

theorem alike_remove (h : d.remove p = .ok d') : d.Alike d' := by
  obtain ⟨place, content, hholds, rfl⟩ := remove_eq_ok_iff.1 h
  refine alike_drop ?_
  rw [hholds.node]
  exact nofun

theorem hasPath_of_remove (h : d.remove p = .ok d') : d'.hasPath p = .ok false := by
  obtain ⟨place, content, hholds, rfl⟩ := remove_eq_ok_iff.1 h
  have hnode : d.node? place ≠ some .directory := by
    rw [hholds.node]
    exact nofun
  have hgone : (d.drop place).node? place = none :=
    (node?_drop (ne_root hnode) place).trans (if_pos rfl)
  rw [hasPath, locate_of_keeps (alike_drop hnode).keeps hholds.locate]
  dsimp only
  rw [hgone]
  rfl

/-- **A file is moved to where no directory is.** -/
theorem rename_eq_ok_iff : d.rename source target = .ok d' ↔ ∃ sourcePlace place content,
    d.Holds source sourcePlace content ∧ d.locate target = .ok place ∧
      d.node? place ≠ some .directory ∧ d' = (d.drop sourcePlace).put place (.file content) := by
  constructor
  · intro h
    obtain ⟨content, hread, h⟩ := bind_eq_ok.1 h
    obtain ⟨sourcePlace, hholds⟩ := holds_of_read hread
    obtain ⟨sourcePlace', hlocate, h⟩ := bind_eq_ok.1 h
    obtain rfl := Except.ok.inj (hlocate.symm.trans hholds.locate)
    obtain ⟨place, hlocate', h⟩ := bind_eq_ok.1 h
    refine ⟨sourcePlace', place, content, hholds, hlocate', ?_⟩
    split at h
    · cases h
    · rename_i hnode
      exact ⟨hnode, (Except.ok.inj h).symm⟩
  · rintro ⟨sourcePlace, place, content, hholds, hlocate, hnode, rfl⟩
    refine bind_eq_ok.2 ⟨content, hholds.read, bind_eq_ok.2 ⟨sourcePlace, hholds.locate,
      bind_eq_ok.2 ⟨place, hlocate, ?_⟩⟩⟩
    split
    · rename_i hdirectory
      exact absurd hdirectory hnode
    · rfl

/-- **A file that was moved is there**, with the content that it had. -/
theorem holds_rename (h : d.rename source target = .ok d') (hsource : d.read source = .ok content) :
    ∃ place, d'.Holds target place content := by
  obtain ⟨sourcePlace, place, content', hholds, hlocate, hnode, rfl⟩ := rename_eq_ok_iff.1 h
  obtain rfl := Except.ok.inj (hholds.read.symm.trans hsource)
  have hsource' : d.node? sourcePlace ≠ some .directory := by
    rw [hholds.node]
    simp
  exact ⟨place, locate_of_keeps (alike_move hsource' hnode _).keeps hlocate,
    (node?_put (ne_root hnode) _ _).trans (if_pos rfl)⟩

theorem alike_rename (h : d.rename source target = .ok d') : d.Alike d' := by
  obtain ⟨sourcePlace, place, content, hholds, -, hnode, rfl⟩ := rename_eq_ok_iff.1 h
  refine alike_move ?_ hnode content
  rw [hholds.node]
  exact nofun

/-! ### Directories on the way -/

/-- The names lead through directories to a directory. -/
def Along (d : Disk) : List String → List String → Prop
  | place, [] => d.node? place = some .directory
  | place, name :: names =>
    d.node? place = some .directory ∧ Path.nameFits name = true ∧ Along d (enter place name) names

theorem Along.of_keeps (hkeeps : d.Keeps d') : ∀ {names place : List String}, d.Along place names →
    d'.Along place names
  | [], _, h => hkeeps.directory _ h
  | _ :: _, _, ⟨hdirectory, hfits, hrest⟩ =>
    ⟨hkeeps.directory _ hdirectory, hfits, Along.of_keeps hkeeps hrest⟩

theorem Along.makeAlong : ∀ {names place : List String}, d.Along place names →
    d.makeAlong place names = .ok d ∧ d.missingAlong place names = 0
  | [], _, h => by
    have hnode : d.node? _ = some .directory := h
    constructor
    · simp [Disk.makeAlong, hnode]
    · simp [missingAlong, hnode]
  | name :: names, _, ⟨hdirectory, hfits, hrest⟩ => by
    obtain ⟨hmake, hmissing⟩ := Along.makeAlong hrest
    constructor
    · simp [Disk.makeAlong, hdirectory, hfits, hmake]
    · simp [missingAlong, hdirectory, hfits, hmissing]

/-- All that is on the first disk is on the second, on which there is as much space. -/
structure Extends (d d' : Disk) : Prop where
  here : d'.here = d.here
  full : d'.full = d.full
  node : ∀ place node, d.node? place = some node → d'.node? place = some node

theorem Extends.refl (d : Disk) : d.Extends d := ⟨rfl, rfl, fun _ _ h => h⟩

theorem Extends.trans {d'' : Disk} (h : d.Extends d') (h' : d'.Extends d'') : d.Extends d'' :=
  ⟨h'.here.trans h.here, h'.full.trans h.full,
    fun place node hnode => h'.node place node (h.node place node hnode)⟩

theorem Extends.keeps (h : d.Extends d') : d.Keeps d' :=
  ⟨h.here, fun place => h.node place .directory⟩

theorem extends_put (h : d.node? place = none) (node : Node) : d.Extends (d.put place node) := by
  have hplace : d.node? place ≠ some .directory := by
    rw [h]
    exact nofun
  refine ⟨rfl, rfl, fun place' node' hnode' => ?_⟩
  rw [node?_put (ne_root hplace), if_neg (by rintro rfl; cases h.symm.trans hnode'), hnode']

theorem makeAlong_cases {names : List String} (h : d.makeAlong place names = .ok d') :
    ∃ made : Disk, d.Extends made ∧ made.node? place = some .directory ∧
      ((names = [] ∧ d' = made) ∨ ∃ name rest, names = name :: rest ∧ Path.nameFits name = true ∧
        made.makeAlong (enter place name) rest = .ok d') := by
  have hrest {made : Disk} {name : String} {rest : List String}
      (h : (if Path.nameFits name = true then made.makeAlong (enter place name) rest
        else Except.error Trouble.nameTooLong) = .ok d') :
      Path.nameFits name = true ∧ made.makeAlong (enter place name) rest = .ok d' := by
    split at h
    · rename_i hfits
      exact ⟨hfits, h⟩
    · cases h
  unfold makeAlong at h
  cases hnode : d.node? place with
  | none =>
    have hplace : d.node? place ≠ some .directory := by rw [hnode]; exact nofun
    simp only [hnode, Option.isNone_none, Bool.true_and, Option.isSome_none, Bool.false_eq_true,
      if_false] at h
    split at h
    · cases h
    · refine ⟨_, extends_put hnode .directory, (node?_put (ne_root hplace) _ _).trans (if_pos rfl), ?_⟩
      cases names with
      | nil => exact .inl ⟨rfl, (Except.ok.inj h).symm⟩
      | cons name rest => exact .inr ⟨name, rest, rfl, hrest h⟩
  | some node =>
    cases node with
    | file content => simp [hnode] at h
    | directory =>
      simp only [hnode, Option.isNone_some, Bool.false_and, Option.isSome_some, Bool.false_eq_true,
        if_false, if_true] at h
      refine ⟨d, .refl d, hnode, ?_⟩
      cases names with
      | nil => exact .inl ⟨rfl, (Except.ok.inj h).symm⟩
      | cons name rest => exact .inr ⟨name, rest, rfl, hrest h⟩

/-- **The directories that were made are there**, beside all that was there before. -/
theorem along_makeAlong {names : List String} : ∀ {place : List String} {d d' : Disk},
    d.makeAlong place names = .ok d' → d.Extends d' ∧ d'.Along place names := by
  induction names with
  | nil =>
    intro place d d' h
    obtain ⟨made, hextends, hnode, ⟨-, rfl⟩ | ⟨name, rest, hcons, -⟩⟩ := makeAlong_cases h
    · exact ⟨hextends, hnode⟩
    · cases hcons
  | cons name names ih =>
    intro place d d' h
    obtain ⟨made, hextends, hnode, ⟨hnil, -⟩ | ⟨name, rest, hcons, hfits, hrest⟩⟩ :=
      makeAlong_cases h
    · cases hnil
    · obtain ⟨rfl, rfl⟩ := List.cons.inj hcons
      obtain ⟨hextends', halong⟩ := ih hrest
      exact ⟨hextends.trans hextends', hextends'.node _ _ hnode, hfits, halong⟩

theorem along_makeDirectories (h : d.makeDirectories p = .ok d') :
    p.isValid = true ∧ p.fits = true ∧ d.Extends d' ∧ d'.Along (d'.start p) p.names := by
  unfold Disk.makeDirectories at h
  split at h
  · cases h
  · rename_i hvalid
    split at h
    · cases h
    · rename_i hfits
      split at h
      · cases h
      · split at h
        · rename_i made hmake
          obtain rfl := Except.ok.inj h
          obtain ⟨hextends, halong⟩ := along_makeAlong hmake
          have hstart : made.start p = d.start p := by rw [start, start, hextends.here]
          exact ⟨by simpa using hvalid, by simpa using hfits, hextends, hstart ▸ halong⟩
        · cases h

/-! ### Replacing a file -/

/-- The disk with a text in the place of a file: a draft is made beside it, written and moved there. -/
def replaceFile (d : Disk) (p : Path) (text : String) : Except Fault Disk := do
  let made ← d.makeDirectories p.parent
  let cleared ← made.writeText (p.withEnding ".tmp") ""
  let written ← cleared.writeText (p.withEnding ".tmp") text
  written.rename (p.withEnding ".tmp") p

/-- The disk accepts a new file at the path. -/
def Takes (d : Disk) (p : Path) : Prop := ∃ d', d.replaceFile p "" = .ok d'

/-- The path leads to a place where a file can be put. -/
def IsOpen (d : Disk) (p : Path) : Prop :=
  ∃ place, d.locate p = .ok place ∧ d.node? place ≠ some .directory

theorem IsOpen.of_alike (halike : d.Alike d') : d.IsOpen p → d'.IsOpen p := by
  rintro ⟨place, hlocate, hnode⟩
  exact ⟨place, locate_of_keeps halike.keeps hlocate, mt (halike.directory place).1 hnode⟩

theorem exists_write (hopen : d.IsOpen p) (hroom : d.full = false) (content : ByteArray) :
    ∃ d', d.write p content = .ok d' ∧ d.Alike d' := by
  obtain ⟨place, hlocate, hnode⟩ := hopen
  exact ⟨_, write_eq_ok_iff.2 ⟨place, hlocate, hnode, hroom, rfl⟩, alike_put hnode content⟩

/-- The file at the path can be written. -/
structure Accepts (d : Disk) (p : Path) : Prop where
  opens : d.IsOpen p
  room : d.full = false

theorem Accepts.of_alike (halike : d.Alike d') (h : d.Accepts p) : d'.Accepts p :=
  ⟨h.opens.of_alike halike, halike.full.trans h.room⟩

theorem alike_write (h : d.write p content = .ok d') :
    d.IsOpen p ∧ d.full = false ∧ d.Alike d' := by
  obtain ⟨place, hlocate, hnode, hroom, rfl⟩ := write_eq_ok_iff.1 h
  exact ⟨⟨place, hlocate, hnode⟩, hroom, alike_put hnode content⟩

/-- There are the directories on the way to a file, and space for its draft and itself. -/
structure Receives (d : Disk) (p : Path) : Prop where
  valid : p.parent.isValid = true
  fits : p.parent.fits = true
  along : d.Along (d.start p.parent) p.parent.names
  draft : d.IsOpen (p.withEnding ".tmp")
  file : d.IsOpen p
  room : d.full = false

theorem Receives.of_alike (halike : d.Alike d') (h : d.Receives p) : d'.Receives p where
  valid := h.valid
  fits := h.fits
  along := by
    have hstart : d'.start p.parent = d.start p.parent := by rw [start, start, halike.here]
    exact hstart ▸ h.along.of_keeps halike.keeps
  draft := h.draft.of_alike halike
  file := h.file.of_alike halike
  room := halike.full.trans h.room

theorem Receives.makeDirectories (h : d.Receives p) : d.makeDirectories p.parent = .ok d := by
  obtain ⟨hmake, hmissing⟩ := h.along.makeAlong
  simp [Disk.makeDirectories, h.valid, h.fits, hmake, hmissing]

/-- **A disk that receives a file goes on doing so when the file is replaced.** -/
theorem Receives.exists_replaceFile (h : d.Receives p) (text : String) :
    ∃ d', d.replaceFile p text = .ok d' ∧ d'.Receives p := by
  obtain ⟨cleared, hcleared, halike₁⟩ := exists_write h.draft h.room "".toUTF8
  have h₁ := h.of_alike halike₁
  obtain ⟨written, hwritten, halike₂⟩ := exists_write h₁.draft h₁.room text.toUTF8
  have h₂ := h₁.of_alike halike₂
  obtain ⟨draftPlace, hdraft⟩ := holds_write hwritten
  obtain ⟨place, hlocate, hnode⟩ := h₂.file
  have hsource : written.node? draftPlace ≠ some .directory := by
    rw [hdraft.node]
    simp
  have hrename := rename_eq_ok_iff.2 ⟨draftPlace, place, _, hdraft, hlocate, hnode, rfl⟩
  exact ⟨_, bind_eq_ok.2 ⟨d, h.makeDirectories, bind_eq_ok.2 ⟨cleared, hcleared,
    bind_eq_ok.2 ⟨written, hwritten, hrename⟩⟩⟩, h₂.of_alike (alike_move hsource hnode _)⟩

/-- **Where a file was replaced the directories are there** before anything is written. -/
theorem receives_of_replaceFile {text : String} (h : d.replaceFile p text = .ok d') :
    ∃ made, d.makeDirectories p.parent = .ok made ∧ made.Receives p := by
  obtain ⟨made, hmade, h⟩ := bind_eq_ok.1 h
  obtain ⟨cleared, hcleared, h⟩ := bind_eq_ok.1 h
  obtain ⟨written, hwritten, h⟩ := bind_eq_ok.1 h
  obtain ⟨-, place, -, -, hlocate, hnode, -⟩ := rename_eq_ok_iff.1 h
  obtain ⟨hdraft, hroom, halike₁⟩ := alike_write hcleared
  have halike := (halike₁.trans (alike_write hwritten).2.2).symm
  obtain ⟨hvalid, hfits, -, halong⟩ := along_makeDirectories hmade
  exact ⟨made, hmade, hvalid, hfits, halong, hdraft, IsOpen.of_alike halike ⟨place, hlocate, hnode⟩,
    hroom⟩

/-- **A disk that takes one file at a path takes every text there**, and goes on doing so. -/
theorem Takes.exists_replaceFile (h : d.Takes p) (text : String) :
    ∃ d', d.replaceFile p text = .ok d' ∧ d'.Takes p := by
  obtain ⟨d', h⟩ := h
  obtain ⟨made, hmade, hreceives⟩ := receives_of_replaceFile h
  obtain ⟨d'', hreplace, hreceives'⟩ := hreceives.exists_replaceFile text
  obtain ⟨later, hlater, -⟩ := hreceives'.exists_replaceFile ""
  obtain ⟨same, hsame, hrest⟩ := bind_eq_ok.1 hreplace
  obtain rfl := Except.ok.inj (hsame.symm.trans hreceives.makeDirectories)
  exact ⟨d'', bind_eq_ok.2 ⟨same, hmade, hrest⟩, later, hlater⟩

/-- **The file that was replaced holds the text.** -/
theorem holds_replaceFile {text : String} (h : d.replaceFile p text = .ok d') :
    ∃ place, d'.Holds p place text.toUTF8 := by
  obtain ⟨made, -, h⟩ := bind_eq_ok.1 h
  obtain ⟨cleared, -, h⟩ := bind_eq_ok.1 h
  obtain ⟨written, hwritten, h⟩ := bind_eq_ok.1 h
  obtain ⟨draft, hdraft⟩ := holds_write hwritten
  exact holds_rename h hdraft.read

end BatteryMonitor.Disk
