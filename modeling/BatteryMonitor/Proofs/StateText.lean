import BatteryMonitor.Proofs.Json.Canonical
import BatteryMonitor.Proofs.Mirror

/-!
# The text of a state file depends on what it says

Records are put and dropped in some order, and the order in which their keys first came is the order of
the table in memory; so are the members of each record.  None of this is seen in the file.

* `Store.keeps_happening` : whatever happens, the records stay exact (`Store.Exact`), also when a call
  fails or the disk is changed from outside.
* `Store.Exact.exists_print` : a file that was replaced has the text of all that the store holds then.
* `Store.bytes_eq_iff_agree` : so two stores, after a call that replaced the file of each, have the same bytes in
  their files iff their tables agree as JSON values.
-/

namespace BatteryMonitor

namespace Store

open Effect

variable {s s' t : Store} {p q : Path}

/-! ### Exact stores -/

/-- The store is carried by a file, and its records are exact. -/
structure Exact (p : Path) (s : Store) : Prop where
  backing : s.backing = some p
  values : (Value.object s.values).isExact = true

theorem Exact.insert {key : Text} {record : Table Value} (hs : s.Exact p)
    (hrecord : (Value.object record).isExact = true) :
    Exact p { s with values := s.values.insert (.text key) (.object record) } := by
  obtain ⟨hdistinct, hmembers⟩ := Value.isExact_object_iff.1 hs.values
  exact ⟨hs.backing, Value.isExact_object_iff.2 ⟨hdistinct.insert _ _,
    Table.forall_insert (T := (·.isText = true)) (Q := fun v : Value => v.isExact = true)
      hmembers rfl hrecord⟩⟩

theorem Exact.erase (hs : s.Exact p) (k : Key) : Exact p { s with values := s.values.erase k } := by
  obtain ⟨hdistinct, hmembers⟩ := Value.isExact_object_iff.1 hs.values
  exact ⟨hs.backing, Value.isExact_object_iff.2
    ⟨hdistinct.erase k, fun m hm => hmembers m (Table.mem_of_mem_erase hm)⟩⟩

theorem lasting_exact (p : Path) : Lasting (Exact p) where
  save := keeps_save fun _ _ hs => ⟨hs.backing, hs.values⟩
  join _ _ _ _ _ _ hs := ⟨hs.backing, hs.values⟩
  erase _ k hs := hs.erase k

theorem exact_onFile {d : Disk} (h : onFile d p = .ok s)
    (hfree : (Value.object s.values).isDoubleFree = true) : s.Exact p :=
  have hcarried := carried_onFile h hfree
  ⟨hcarried.backing, Value.isExact_of_isPortable _ hcarried.portable⟩

/-! ### Histories -/

/-- What happens to a store: a call, or a change of the disk from outside. -/
inductive Happening where
  | call (c : Call)
  | files (change : Disk → Disk)

/-- The record that a call puts under a key is exact. -/
def Call.isExact : Call → Bool
  | put _ record => (Value.object record).isExact
  | drop _ => true

namespace Happening

/-- What is done then. -/
def act : Happening → M Unit
  | call c => c.act
  | files change => modify fun s => { s with disk := change s.disk }

/-- Calls only put exact records. -/
def isExact : Happening → Bool
  | call c => c.isExact
  | files _ => true

end Happening

theorem keeps_exact_change {c : Call} (hc : c.isExact = true) : Keeps (Exact p) c.change := by
  refine keeps_change_of_lasting (lasting_exact p) (fun s n hs => ⟨hs.backing, hs.values⟩)
    fun s key record heq hs => ?_
  subst heq
  exact hs.insert hc

/-- **Whatever happens, the records stay exact.** -/
theorem keeps_happening {e : Happening} (he : e.isExact = true) : Keeps (Exact p) e.act := by
  cases e with
  | call c =>
    change Keeps (Exact p) c.act
    rw [Call.act_eq]
    exact keeps_bind (keeps_exact_change he) fun _ => (lasting_exact p).save
  | files change => exact keeps_modify fun s hs => ⟨hs.backing, hs.values⟩

/-- The store is what a history leaves of one that was loaded from a file without doubles, and the
last of the calls has replaced the file. -/
inductive Saved (p : Path) : Store → Prop
  | intro {d : Disk} {fresh s : Store} {subscribers : List Subscriber} {past : List Happening}
      {last : Call} (loaded : onFile d p = .ok fresh)
      (doubleFree : (Value.object fresh.values).isDoubleFree = true)
      (earlier : ∀ e ∈ past, e.isExact = true) (exact : last.isExact = true)
      (written : Completes last.observe
        (afterAll Happening.act { fresh with subscribers } past) true s) : Saved p s

/-- **A file that was replaced has the text of what the store holds**, which is exact. -/
theorem Saved.exists_print (h : Saved p s) : (Value.object s.values).isExact = true ∧
    ∃ text, Json.print (.object s.values) = .ok text ∧ s.disk.read p = .ok text.toUTF8 := by
  obtain @⟨d, fresh, _, subscribers, past, last, hloaded, hfree, hearlier, hlast, hwritten⟩ := h
  have hfresh := exact_onFile hloaded hfree
  have hstart : Exact p { fresh with subscribers } := ⟨hfresh.backing, hfresh.values⟩
  have hbefore := afterAll_induction hstart (fun e he => keeps_happening he) hearlier
  -- the last call changes the table first, and then the file
  obtain ⟨_, t, hchange, hsaving⟩ := completes_bind.1 hwritten
  have ht := hchange.keeps (keeps_exact_change hlast) hbefore
  obtain ⟨text, place, disk, hprint, rfl, hholds⟩ := completes_saving ht.backing hsaving
  exact ⟨ht.values, text, hprint, hholds.read⟩

theorem ready_of_takes (hbacking : s.backing = some p)
    (hlegible : (Value.object s.values).isLegible Json.nestingLimit = true)
    (htakes : s.disk.Takes p) : s.Ready p := by
  obtain ⟨hdistinct, hmembers⟩ := Value.isLegible_object_iff.1 hlegible
  exact ⟨⟨hbacking, hdistinct, hmembers⟩, htakes⟩

/-- A history ends with a file that was replaced if the store is ready when its last change is made. -/
theorem saved_of_ready {d : Disk} {fresh : Store} (hfresh : onFile d p = .ok fresh)
    (hfree : (Value.object fresh.values).isDoubleFree = true) (past : List Happening)
    (hpast : ∀ e ∈ past, e.isExact = true) (c : Call) (hc : c.isExact = true)
    (hchange : isClean c.change (afterAll Happening.act fresh past) = true)
    (hready : (after c.change (afterAll Happening.act fresh past)).Ready p) :
    ∃ s, Saved p s ∧ s.values = (after c.change (afterAll Happening.act fresh past)).values := by
  obtain ⟨u, hchange⟩ := completes_of_isClean hchange
  obtain ⟨disk, hsaving, -⟩ := hready.exists_saving
  exact ⟨_, @Saved.intro p d fresh _ fresh.subscribers past c hfresh hfree hpast hc
    (completes_bind.2 ⟨u, _, hchange, hsaving⟩), rfl⟩

/-- **The text of the file depends on what it says, and on nothing else.** Two stores, each after a
history of calls of which the last one replaced its file, have the same bytes in their files iff what
they hold is equal as JSON values are. -/
theorem bytes_eq_iff_agree (hs : Saved p s) (ht : Saved q t) :
    ∃ x y, s.disk.read p = .ok x ∧ t.disk.read q = .ok y ∧
      (x = y ↔ (Value.object s.values).agree (.object t.values) = true) := by
  obtain ⟨hexact, text, hprint, hread⟩ := hs.exists_print
  obtain ⟨hexact', text', hprint', hread'⟩ := ht.exists_print
  refine ⟨_, _, hread, hread', ?_⟩
  rw [← Json.print_eq_iff hexact hexact' hprint hprint']
  exact String.toByteArray_inj

/-- The record on the shelf is put there. -/
def settled : Call := .put "a" [(.text "n", .list [.int (-7), .object [], .text "é"])]

/-- A record is put beside it. -/
def forwards (v : Value) : Call := .put "b" [(.text "p", .list []), (.text "q", .object [(.text "r", v)])]

/-- The same, from the last member to the first. -/
def backwards (v : Value) : Call := .put "b" [(.text "q", .object [(.text "r", v)]), (.text "p", .list [])]

/-- There is no file yet. -/
def unshelved : Store where
  backing := some shelf

/-- The record beside is put while there is no space, which there is later on. -/
def crowded (v : Value) : List Happening :=
  [.files fun d => { d with full := false }, .call (forwards v), .files fun d => { d with full := true }]

/-- What is on the shelf when two records have come to it, the one that was there first. -/
def upTo (v : Value) : Table Value :=
  (after (backwards v).change onShelf).values

/-- And when they have come the other way round. -/
def downTo (v : Value) : Table Value :=
  (after settled.change (afterAll Happening.act unshelved (crowded v))).values

/-- Two records come to one file and, the other way round, to another one, and the files are the same;
where one of them has `1` for `true` they are not. -/
theorem bytes_eq_iff_agree_crowded : upTo (.bool true) ≠ downTo (.bool true) ∧ ∃ s t u : Store,
    (Saved shelf s ∧ s.values = upTo (.bool true)) ∧
    (Saved shelf t ∧ t.values = downTo (.bool true)) ∧
    (Saved shelf u ∧ u.values = upTo (.int 1)) ∧
    s.disk.read shelf = t.disk.read shelf ∧ u.disk.read shelf ≠ t.disk.read shelf := by
  have hparse : Json.parse shelved = .ok (.object onShelf.values) :=
    eq_ok_of_toOption (by decide +kernel)
  have hholds : onShelf.disk.Holds shelf ["state.json"] shelved.toUTF8 := ⟨rfl, rfl⟩
  have honShelf : onFile onShelf.disk shelf = .ok onShelf := by
    rw [onFile, loadState_of_holds hholds hparse]
    rfl
  have hunshelved : onFile {} shelf = .ok unshelved := rfl
  obtain ⟨s, hs, hvalues⟩ := saved_of_ready honShelf rfl [] (List.forall_mem_nil _)
    (backwards (.bool true)) (by decide +kernel) (by decide +kernel)
    (ready_of_takes rfl (by decide +kernel) (exists_ok_of_toOption (by decide +kernel)))
  obtain ⟨u, hu, huvalues⟩ := saved_of_ready honShelf rfl [] (List.forall_mem_nil _)
    (backwards (.int 1)) (by decide +kernel) (by decide +kernel)
    (ready_of_takes rfl (by decide +kernel) (exists_ok_of_toOption (by decide +kernel)))
  obtain ⟨t, ht, htvalues⟩ := saved_of_ready hunshelved rfl (crowded (.bool true))
    (by decide +kernel) settled (by decide +kernel) (by decide +kernel)
    (ready_of_takes rfl (by decide +kernel) (exists_ok_of_toOption (by decide +kernel)))
  refine ⟨by decide +kernel, s, t, u, ⟨hs, hvalues⟩, ⟨ht, htvalues⟩, ⟨hu, huvalues⟩, ?_,
    fun heq => ?_⟩
  · obtain ⟨x, y, hx, hy, hiff⟩ := bytes_eq_iff_agree hs ht
    rw [hvalues, htvalues] at hiff
    obtain rfl := hiff.2 (by decide +kernel)
    exact hx.trans hy.symm
  · obtain ⟨x, y, hx, hy, hiff⟩ := bytes_eq_iff_agree hu ht
    rw [huvalues, htvalues] at hiff
    obtain rfl := Except.ok.inj (hx.symm.trans (heq.trans hy))
    exact absurd (hiff.1 rfl) (by decide +kernel)

end Store

end BatteryMonitor
