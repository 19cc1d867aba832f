import BatteryMonitor.Proofs.Disk

/-!
# Files that are left alone

A path leads to one place, if it leads anywhere (`Path.place`), and what is written at one place is not
seen at another.  So a file stays as it is when directories are made (`Disk.Holds.makeDirectories`), and when
files are written or moved at other places (`Disk.Holds.write`, `Disk.Holds.rename`).

The draft of a file is at another place than every file whose name does not end like that of a draft
(`Path.place_draft_ne`), whatever the two paths are.
-/

namespace BatteryMonitor

namespace Path

/-! ### Places -/

/-- The place that a path leads to, seen from the place where paths without a root start. -/
def place (here : List String) (p : Path) : List String :=
  p.names.foldl Disk.enter (if p.root = "" then here else [])

theorem place_of_names {p : Path} {front : List String} {name : String}
    (h : p.names = front ++ [name]) (hup : name ≠ "..") (here : List String) :
    ∃ above, p.place here = above ++ [name] := by
  refine ⟨front.foldl Disk.enter (if p.root = "" then here else []), ?_⟩
  rw [place, h, List.foldl_append, List.foldl_cons, List.foldl_nil, Disk.enter, if_neg hup]

/-! ### Drafts -/

theorem splitNames_append {ending : List Char} (h : '/' ∉ ending) (cs : List Char) :
    ∃ front last, splitNames (cs ++ ending) = front ++ [last ++ ending] := by
  have halone : splitNames ending = [ending] := by
    induction ending with
    | nil => rfl
    | cons c ending ih =>
      obtain ⟨hc, hending⟩ := not_or.1 (mt List.mem_cons.2 h)
      rw [splitNames, ih hending]
      exact if_neg (Ne.symm hc)
  induction cs with
  | nil => exact ⟨[], [], halone⟩
  | cons c cs ih =>
    obtain ⟨front, last, hsplit⟩ := ih
    rw [List.cons_append, splitNames, hsplit]
    cases front with
    | nil =>
      by_cases hc : c = '/'
      · exact ⟨[[]], last, if_pos hc⟩
      · exact ⟨[], c :: last, if_neg hc⟩
    | cons name front =>
      by_cases hc : c = '/'
      · exact ⟨[] :: name :: front, last, if_pos hc⟩
      · exact ⟨(c :: name) :: front, last, if_neg hc⟩

/-- The name ends like that of a draft. -/
def IsDraftName (name : String) : Prop := ['.', 't', 'm', 'p'] <:+ name.toList

instance (name : String) : Decidable (IsDraftName name) :=
  inferInstanceAs (Decidable (_ <:+ _))

theorem exists_names_draft (p : Path) :
    ∃ front name, (p.withEnding ".tmp").names = front ++ [name] ∧ IsDraftName name := by
  obtain ⟨front, stem, hsplit⟩ :=
    splitNames_append (show '/' ∉ ['.', 't', 'm', 'p'] by decide) p.text.toList
  have htext : (p.text ++ ".tmp").toList = p.text.toList ++ ['.', 't', 'm', 'p'] := by simp
  have hdraft : IsDraftName (String.ofList (stem ++ ['.', 't', 'm', 'p'])) := by
    rw [IsDraftName, String.toList_ofList]
    exact List.suffix_append _ _
  refine ⟨(front.map String.ofList).filter fun name => name != "" && name != ".", _, ?_, hdraft⟩
  rw [withEnding, ofString, htext, hsplit, List.map_append, List.filter_append]
  refine congrArg _ (List.filter_cons_of_pos ?_)
  -- a name that ends like this is neither empty nor a dot
  have hne {name : String} (h : ¬ IsDraftName name) :
      String.ofList (stem ++ ['.', 't', 'm', 'p']) ≠ name := by
    rintro rfl
    exact h hdraft
  rw [Bool.and_eq_true, bne_iff_ne, bne_iff_ne]
  exact ⟨hne (by decide), hne (by decide)⟩

/-- The path leads to what has a name of its own, which is not that of a draft. -/
def IsProper (p : Path) : Prop :=
  ∃ name, p.names.getLast? = some name ∧ name ≠ ".." ∧ ¬ IsDraftName name

example : (ofString "/tmp/powersourced.pid").IsProper := ⟨"powersourced.pid", rfl, by decide, by decide⟩

/-- **No draft is at the place of a file with a proper name.** -/
theorem place_draft_ne {p : Path} (h : p.IsProper) (q : Path) (here : List String) :
    (q.withEnding ".tmp").place here ≠ p.place here := by
  obtain ⟨name, hlast, hup, hproper⟩ := h
  obtain ⟨front, hnames⟩ := List.getLast?_eq_some_iff.1 hlast
  obtain ⟨front', draft, hnames', hdraft⟩ := exists_names_draft q
  obtain ⟨above, hplace⟩ := place_of_names hnames hup here
  obtain ⟨above', hplace'⟩ := place_of_names hnames' (by rintro rfl; revert hdraft; decide) here
  rw [hplace, hplace']
  intro heq
  obtain ⟨-, hname⟩ := List.append_inj' heq rfl
  obtain rfl := List.head_eq_of_cons_eq hname
  exact hproper hdraft

end Path

namespace Disk

variable {d d' : Disk} {p q : Path} {place : List String} {content : ByteArray}

theorem place_of_walk : ∀ {names from_ place : List String}, d.walk from_ names = .ok place →
    place = names.foldl enter from_
  | [], _, _, h => (Except.ok.inj h).symm
  | name :: names, from_, place, h => by
    rw [walk] at h
    split at h
    · cases h
    · cases h
    · split at h
      · rw [List.foldl_cons]
        exact place_of_walk h
      · cases h

/-- **A path leads to its place**, if it leads anywhere. -/
theorem place_of_locate (h : d.locate p = .ok place) : place = p.place d.here := by
  unfold locate at h
  split at h
  · cases h
  · split at h
    · cases h
    · split at h
      · rename_i hwalk
        obtain rfl := Except.ok.inj h
        exact place_of_walk hwalk
      · cases h

namespace Holds

theorem of_extends (h : d.Holds p place content) (hextends : d.Extends d') :
    d'.Holds p place content :=
  ⟨locate_of_keeps hextends.keeps h.locate, hextends.node _ _ h.node⟩

theorem makeDirectories (h : d.Holds p place content) (hmake : d.makeDirectories q = .ok d') :
    d'.Holds p place content :=
  h.of_extends (along_makeDirectories hmake).2.2.1

theorem put {place' : List String} (h : d.Holds p place content)
    (hnode : d.node? place' ≠ some .directory) (hne : place' ≠ place) (node : Node) :
    (d.put place' node).Holds p place content :=
  ⟨locate_of_keeps (keeps_put hnode node) h.locate,
    (node?_put (ne_root hnode) node place).trans ((if_neg (Ne.symm hne)).trans h.node)⟩

theorem drop {place' : List String} (h : d.Holds p place content)
    (hnode : d.node? place' ≠ some .directory) (hne : place' ≠ place) :
    (d.drop place').Holds p place content :=
  ⟨locate_of_keeps (alike_drop hnode).keeps h.locate,
    (node?_drop (ne_root hnode) place).trans ((if_neg (Ne.symm hne)).trans h.node)⟩

theorem write {content' : ByteArray} (h : d.Holds p place content)
    (hwrite : d.write q content' = .ok d') (hne : q.place d.here ≠ place) :
    d'.Holds p place content := by
  obtain ⟨place', hlocate, hnode, -, rfl⟩ := write_eq_ok_iff.1 hwrite
  exact h.put hnode (place_of_locate hlocate ▸ hne) _

theorem rename {source target : Path} (h : d.Holds p place content)
    (hrename : d.rename source target = .ok d') (hsource : source.place d.here ≠ place)
    (htarget : target.place d.here ≠ place) : d'.Holds p place content := by
  obtain ⟨place₁, place₂, moved, hholds, hlocate, hnode, rfl⟩ := rename_eq_ok_iff.1 hrename
  have hfile : d.node? place₁ ≠ some .directory := by
    rw [hholds.node]
    exact nofun
  have hdropped := h.drop hfile (place_of_locate hholds.locate ▸ hsource)
  exact hdropped.put (mt ((alike_drop hfile).directory place₂).1 hnode)
    (place_of_locate hlocate ▸ htarget) _

end Holds

end Disk

end BatteryMonitor
