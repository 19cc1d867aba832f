import BatteryMonitor.Proofs.Effect
import BatteryMonitor.Proofs.Json.RoundTrip

/-!
# One text for each value

Members come in some order, at every level of a value, but in its text they are in the order of their
keys.  So a text says nothing of how a value came about, and it says everything else.

* `Value.agree` : two values are equal as far as JSON goes: of one kind each, so that `true` is not `1`,
  and objects whatever the order of their members.
* `Value.isExact` : no key comes twice in an object, and there are no doubles, which need not be equal to
  themselves.  Such a value is portable as soon as it has a text (`Json.isPortable_levels`).
* `Value.sorted_eq_iff` : of such values those agree that are one and the same when their members are in
  order, since a list of distinct keys is sorted in one way only (`Value.inOrder_eq_iff`).
* `Json.printValue_sorted` : the text is the one of the value in order.
* `Json.sorted_eq_of_printValue` : and no two values in order have the same text, since a text is read as
  the one that it was written for, at whatever depth it nests.
* `Json.print_eq_iff` : so two values that have texts have the same one iff they agree.
-/

namespace BatteryMonitor

namespace Value

/-! ### Values that agree -/

mutual

/-- The values are equal, kind by kind, and their objects in any order of the members. -/
def agree : Value → Value → Bool
  | .null, .null => true
  | .bool b, .bool c => b == c
  | .int m, .int n => m == n
  | .float x, .float y => x = y
  | .text s, .text t => s == t
  | .list xs, .list ys => agreeItems xs ys
  | .object xs, .object ys => xs.length == ys.length && agreeMembers xs ys
  | _, _ => false

/-- Two lists agree item by item. -/
def agreeItems : List Value → List Value → Bool
  | [], [] => true
  | x :: xs, y :: ys => agree x y && agreeItems xs ys
  | _, _ => false

/-- Every member of the first object agrees with the one of its key in the second. -/
def agreeMembers : List (Key × Value) → Table Value → Bool
  | [], _ => true
  | (k, x) :: xs, ys =>
    (match ys.find? k with
      | some y => agree x y
      | none => false) && agreeMembers xs ys

end

theorem agreeMembers_iff {xs : List (Key × Value)} {ys : Table Value} : agreeMembers xs ys = true ↔
    ∀ p ∈ xs, ∃ y, ys.find? p.1 = some y ∧ p.2.agree y = true := by
  induction xs with
  | nil => simp [agreeMembers]
  | cons p xs ih =>
    obtain ⟨k, x⟩ := p
    rw [agreeMembers, Bool.and_eq_true, ih, List.forall_mem_cons]
    refine and_congr_left fun _ => ?_
    cases ys.find? k <;> simp

/-! ### Exact values -/

/-- The keys of every object are texts, none of which comes twice, and there are no doubles. -/
def isExact (v : Value) : Bool :=
  v.all (!·.isDouble) fun t => t.Named

variable {v w : Value} {items : List Value} {members : Table Value} {depth : Nat}

theorem isExact_list_iff : (list items).isExact = true ↔ ∀ v ∈ items, v.isExact = true :=
  all_list_iff

theorem isExact_object_iff : (object members).isExact = true ↔
    members.Distinct ∧ ∀ p ∈ members, p.1.isText = true ∧ p.2.isExact = true := by
  rw [isExact, all_object_iff, decide_eq_true_iff, Table.named_iff]
  simp only [isExact, imp_and, forall_and, and_assoc]

theorem isDoubleFree_of_isExact (h : v.isExact = true) : v.isDoubleFree = true :=
  all_imp (fun _ h => h) (fun _ _ => rfl) v h

theorem isExact_of_isPortable (v : Value) {depth : Nat} (h : v.isPortable depth = true) :
    v.isExact = true := by
  induction v generalizing depth with
  | null | bool | int | text => rfl
  | float x => exact absurd (isPortable_iff.1 h).2 Bool.false_ne_true
  | list items ih =>
    obtain ⟨below, rfl⟩ := exists_depth (isPortable_iff.1 h).1 (Nat.succ_pos _)
    exact isExact_list_iff.2 fun v hv => ih v hv (isPortable_list_iff.1 h v hv)
  | object members ih =>
    obtain ⟨below, rfl⟩ := exists_depth (isPortable_iff.1 h).1 (Nat.succ_pos _)
    obtain ⟨hdistinct, hmembers⟩ := isPortable_object_iff.1 h
    exact isExact_object_iff.2
      ⟨hdistinct, fun p hp => (hmembers p hp).imp_right (ih p hp)⟩

/-! ### Members in order -/

/-- Members whose keys are different texts are put in order in one way only. -/
theorem inOrder_eq_iff {xs ys : Table Value} (hdistinct : xs.Distinct)
    (htext : ∀ p ∈ xs, p.1.isText = true) : inOrder xs = inOrder ys ↔ xs.Perm ys := by
  constructor
  · intro heq
    exact (perm_inOrder xs).symm.trans (heq ▸ perm_inOrder ys)
  · intro hperm
    refine List.Perm.eq_of_pairwise (fun p q hp hq hpq hqp => ?_)
      (Table.pairwise_mergeSort_keys xs) (Table.pairwise_mergeSort_keys ys)
      (((perm_inOrder xs).trans hperm).trans (perm_inOrder ys).symm)
    rw [(perm_inOrder xs).mem_iff] at hp
    rw [((perm_inOrder ys).trans hperm.symm).mem_iff] at hq
    obtain ⟨k, v⟩ := p
    obtain ⟨l, w⟩ := q
    obtain ⟨name, rfl⟩ := Key.exists_text (htext _ hp)
    obtain ⟨name', rfl⟩ := Key.exists_text (htext _ hq)
    -- they come under one key, and there is only one value under it
    obtain rfl : name = name' := Text.le_antisymm (of_decide_eq_true hpq) (of_decide_eq_true hqp)
    have hvw := (Table.find?_of_mem hdistinct hp).symm.trans (Table.find?_of_mem hdistinct hq)
    rw [Option.some.inj hvw]

theorem isText_sortedMembers (h : ∀ p ∈ members, p.1.isText = true) :
    ∀ p ∈ sortedMembers members, p.1.isText = true := by
  intro p hp
  rw [sortedMembers_eq] at hp
  obtain ⟨q, hq, rfl⟩ := List.mem_map.1 hp
  exact h q hq

/-- Two tables have the same members up to order, each in order by itself, iff they have as many and
every member of the first is found in the second. -/
theorem perm_sortedMembers_iff {xs ys : Table Value} (hxs : xs.Distinct) (hys : ys.Distinct)
    (htext : ∀ p ∈ xs, p.1.isText = true) :
    (sortedMembers xs).Perm (sortedMembers ys) ↔ xs.length = ys.length ∧
      ∀ p ∈ xs, ∃ y, ys.find? p.1 = some y ∧ p.2.sorted = y.sorted := by
  rw [sortedMembers_eq xs, sortedMembers_eq ys]
  constructor
  · intro hperm
    refine ⟨by simpa using hperm.length_eq, fun p hp => ?_⟩
    have hmem := hperm.subset (List.mem_map.2 ⟨p, hp, rfl⟩)
    obtain ⟨⟨l, y⟩, hy, heq⟩ := List.mem_map.1 hmem
    obtain ⟨rfl, hsorted⟩ := Prod.mk.inj heq
    exact ⟨y, Table.find?_of_mem hys hy, hsorted.symm⟩
  · rintro ⟨hlength, hfound⟩
    have hnodup : (xs.map fun p => (p.1, p.2.sorted)).Nodup := by
      have hdistinct := distinct_sortedMembers hxs
      rw [sortedMembers_eq] at hdistinct
      exact List.Nodup.of_map _ hdistinct
    refine (List.subperm_of_subset hnodup fun q hq => ?_).perm_of_length_le (by simp [hlength])
    obtain ⟨p, hp, rfl⟩ := List.mem_map.1 hq
    obtain ⟨y, hfind, hsorted⟩ := hfound p hp
    obtain ⟨name, hname⟩ := Key.exists_text (htext p hp)
    obtain ⟨l, hl, hy⟩ := (Table.find?_eq_some_iff hys).1 hfind
    rw [hname] at hl
    rw [Key.eq_text_of_entry hl, ← hname] at hy
    exact List.mem_map.2 ⟨_, hy, by rw [hsorted]⟩

theorem sortedItems_eq_iff {xs ys : List Value} (hys : ∀ w ∈ ys, w.isExact = true)
    (h : ∀ v ∈ xs, ∀ w, w.isExact = true → (v.sorted = w.sorted ↔ v.agree w = true)) :
    sortedItems xs = sortedItems ys ↔ agreeItems xs ys = true := by
  induction xs generalizing ys with
  | nil => cases ys <;> simp [sortedItems, agreeItems]
  | cons x xs ih =>
    cases ys with
    | nil => simp [sortedItems, agreeItems]
    | cons y ys =>
      obtain ⟨hy, hys⟩ := List.forall_mem_cons.1 hys
      obtain ⟨hx, hxs⟩ := List.forall_mem_cons.1 h
      rw [sortedItems, sortedItems, agreeItems, List.cons.injEq, Bool.and_eq_true, hx y hy,
        ih hys hxs]

/-- **Exact values agree iff they are one and the same in order.** -/
theorem sorted_eq_iff (v : Value) {w : Value} (hv : v.isExact = true) (hw : w.isExact = true) :
    v.sorted = w.sorted ↔ v.agree w = true := by
  induction v generalizing w with
  | float x => exact absurd hv Bool.false_ne_true
  | null | bool | int | text => cases w <;> simp [sorted, agree]
  | list xs ih =>
    cases w with
    | list ys =>
      have hxs := isExact_list_iff.1 hv
      rw [sorted, sorted, agree, list.injEq]
      exact sortedItems_eq_iff (isExact_list_iff.1 hw) fun v hv w hw => ih v hv (hxs v hv) hw
    | null | bool | int | float | text | object => simp [sorted, agree]
  | object xs ih =>
    cases w with
    | object ys =>
      obtain ⟨hxs, hxs'⟩ := isExact_object_iff.1 hv
      obtain ⟨hys, hys'⟩ := isExact_object_iff.1 hw
      have htext := fun p hp => (hxs' p hp).1
      rw [sorted, sorted, agree, object.injEq,
        inOrder_eq_iff (distinct_sortedMembers hxs) (isText_sortedMembers htext),
        perm_sortedMembers_iff hxs hys htext, Bool.and_eq_true, beq_iff_eq, agreeMembers_iff]
      refine and_congr_right fun _ => forall₂_congr fun p hp => exists_congr fun y =>
        and_congr_right fun hfind => ?_
      obtain ⟨l, -, hy⟩ := (Table.find?_eq_some_iff hys).1 hfind
      exact ih p hp (hxs' p hp).2 (hys' _ hy).2
    | null | bool | int | float | text | list => simp [sorted, agree]

end Value

namespace Json

variable {v w : Value} {level : Nat}

/-! ### The text of a value in order -/

theorem printMembers_eq (level : Nat) (members : Table Value) :
    printMembers level members = members.map fun p => (p.1, printValue level p.2) := by
  induction members with
  | nil => rfl
  | cons p members ih =>
    obtain ⟨k, v⟩ := p
    rw [printMembers, List.map_cons, ih]

/-- Members that are put in order before they are printed are in the same order as those that are
printed first. -/
theorem sortMembers_printMembers_inOrder {members : Table Value}
    (h : ∀ p ∈ members, p.1.isText = true) :
    sortMembers (printMembers level (Value.inOrder members)) =
      sortMembers (printMembers level members) := by
  have htext {zs : Table Value} (hzs : ∀ p ∈ zs, p.1.isText = true) :
      ∀ p ∈ zs.map (fun p => (p.1, printValue level p.2)), p.1.isText = true := by
    intro p hp
    obtain ⟨q, hq, rfl⟩ := List.mem_map.1 hp
    exact hzs q hq
  have hinOrder : ∀ p ∈ Value.inOrder members, p.1.isText = true :=
    fun p hp => h p ((Value.perm_inOrder members).mem_iff.1 hp)
  have hmap : (Value.inOrder members).map (fun p => (p.1, printValue level p.2)) =
      (members.map fun p => (p.1, printValue level p.2)).mergeSort
        fun a b => decide (keyString a.1 ≤ keyString b.1) :=
    List.map_mergeSort fun _ _ _ _ => rfl
  rw [printMembers_eq, printMembers_eq, sortMembers_of_texts (htext hinOrder),
    sortMembers_of_texts (htext h), hmap,
    List.mergeSort_of_pairwise (Table.pairwise_mergeSort_keys _)]

theorem printItems_sortedItems {items : List Value}
    (h : ∀ v ∈ items, printValue level v.sorted = printValue level v) :
    printItems level (Value.sortedItems items) = printItems level items := by
  induction items with
  | nil => rfl
  | cons v items ih =>
    obtain ⟨hv, hitems⟩ := List.forall_mem_cons.1 h
    rw [Value.sortedItems, printItems, printItems, hv, ih hitems]

theorem printMembers_sortedMembers {members : Table Value}
    (h : ∀ p ∈ members, printValue level p.2.sorted = printValue level p.2) :
    printMembers level (Value.sortedMembers members) = printMembers level members := by
  rw [printMembers_eq, printMembers_eq, Value.sortedMembers_eq, List.map_map]
  exact List.map_congr_left fun p hp => congrArg (Prod.mk p.1) (h p hp)

/-- **A value is printed as it is printed in order.** -/
theorem printValue_sorted (v : Value) (level : Nat) (h : v.isExact = true) :
    printValue level v.sorted = printValue level v := by
  induction v generalizing level with
  | null | bool | int | float | text => rfl
  | list items ih =>
    have hitems := Value.isExact_list_iff.1 h
    rw [Value.sorted, printValue, printValue,
      printItems_sortedItems fun v hv => ih v hv (level + 1) (hitems v hv)]
  | object members ih =>
    obtain ⟨-, hmembers⟩ := Value.isExact_object_iff.1 h
    have htext := Value.isText_sortedMembers fun p hp => (hmembers p hp).1
    rw [Value.sorted, printValue, printValue, sortMembers_printMembers_inOrder htext,
      printMembers_sortedMembers fun p hp => ih p hp (level + 1) (hmembers p hp).2]

/-! ### A text is read as one value -/

theorem exists_text_of_joinMembers : ∀ {members : Table (Except Fault (List Char))}
    {parts : List (List Char)}, joinMembers members = .ok parts → ∀ p ∈ members, ∃ cs, p.2 = .ok cs
  | [], _, _ => List.forall_mem_nil _
  | (k, text) :: rest, _, h => by
    obtain ⟨key, -, h⟩ := bind_eq_ok.1 h
    obtain ⟨cs, hcs, h⟩ := bind_eq_ok.1 h
    obtain ⟨parts, hparts, -⟩ := bind_eq_ok.1 h
    exact List.forall_mem_cons.2 ⟨⟨cs, hcs⟩, exists_text_of_joinMembers hparts⟩

theorem exists_text_of_printItems : ∀ {items : List Value} {parts : List (List Char)},
    printItems level items = .ok parts → ∀ v ∈ items, ∃ cs, printValue level v = .ok cs
  | [], _, _ => List.forall_mem_nil _
  | v :: items, _, h => by
    rw [printItems] at h
    obtain ⟨part, hpart, h⟩ := bind_eq_ok.1 h
    obtain ⟨parts, hparts, -⟩ := bind_eq_ok.1 h
    exact List.forall_mem_cons.2 ⟨⟨part, hpart⟩, exists_text_of_printItems hparts⟩

theorem exists_text_of_printObject {members : Table Value} {cs : List Char}
    (htext : ∀ p ∈ members, p.1.isText = true) (h : printValue level (.object members) = .ok cs) :
    ∀ p ∈ members, ∃ cs, printValue (level + 1) p.2 = .ok cs := by
  rw [printValue] at h
  obtain ⟨ordered, hordered, h⟩ := bind_eq_ok.1 h
  obtain ⟨parts, hparts, -⟩ := bind_eq_ok.1 h
  have hperm : ordered.Perm (members.map fun p => (p.1, printValue (level + 1) p.2)) := by
    rw [printMembers_eq, sortMembers_of_texts fun p hp => ?_] at hordered
    · rw [← Except.ok.inj hordered]
      exact List.mergeSort_perm _ _
    · obtain ⟨q, hq, rfl⟩ := List.mem_map.1 hp
      exact htext q hq
  intro p hp
  exact exists_text_of_joinMembers hparts _ (hperm.mem_iff.2 (List.mem_map.2 ⟨p, hp, rfl⟩))

theorem all_isSpelled_of_printValue (v : Value) {level : Nat} {cs : List Char}
    (h : v.isExact = true) (hprint : printValue level v = .ok cs) :
    v.all Value.isSpelled (fun t => t.Named) = true := by
  induction v generalizing level cs with
  | null | bool | text => rfl
  | float x => exact absurd h Bool.false_ne_true
  | int n =>
    rw [printValue, printInteger] at hprint
    split at hprint
    · rename_i hlimit
      simp only [Value.all, Value.isSpelled, hlimit]
    · cases hprint
  | list items ih =>
    have hitems := Value.isExact_list_iff.1 h
    rw [printValue] at hprint
    obtain ⟨parts, hparts, -⟩ := bind_eq_ok.1 hprint
    refine Value.all_list_iff.2 fun v hv => ?_
    obtain ⟨cs, hcs⟩ := exists_text_of_printItems hparts v hv
    exact ih v hv (hitems v hv) hcs
  | object members ih =>
    obtain ⟨hdistinct, hmembers⟩ := Value.isExact_object_iff.1 h
    have htext := fun p hp => (hmembers p hp).1
    refine Value.all_object_iff.2 ⟨decide_eq_true ⟨hdistinct, htext⟩, fun p hp => ?_⟩
    obtain ⟨cs, hcs⟩ := exists_text_of_printObject htext hprint p hp
    exact ih p hp (hmembers p hp).2 hcs

/-- **An exact value that has a text is portable**, in as many levels as it takes. -/
theorem isPortable_levels {cs : List Char} (h : v.isExact = true)
    (hprint : printValue level v = .ok cs) : v.isPortable v.levels = true :=
  Value.isPortable_iff.2 ⟨Value.isLegible_iff.2 ⟨all_isSpelled_of_printValue v h hprint, le_rfl⟩,
    Value.isDoubleFree_of_isExact h⟩

/-- **Values with the same text are one and the same in order**: the text is read as both of them, with
room for the deeper one. -/
theorem sorted_eq_of_printValue {cs : List Char} (hv : v.isExact = true) (hw : w.isExact = true)
    (hprint : printValue level v = .ok cs) (hprint' : printValue level w = .ok cs) :
    v.sorted = w.sorted := by
  have hreads {u : Value} (hu : u.isPortable (max v.levels w.levels) = true)
      (hprint : printValue level u = .ok cs) : Reads (max v.levels w.levels) cs u.sorted := by
    obtain ⟨cs', hcs', hreads⟩ :=
      exists_printValue level u _ (Value.isLegible_of_isPortable hu)
    obtain rfl := Except.ok.inj (hprint.symm.trans hcs')
    exact hreads
  have hread := (hreads (Value.isPortable_mono v (Nat.le_max_left ..)
    (isPortable_levels hv hprint)) hprint).read (2 * cs.length) [] le_rfl ends_nil
  have hread' := (hreads (Value.isPortable_mono w (Nat.le_max_right ..)
    (isPortable_levels hw hprint')) hprint').read (2 * cs.length) [] le_rfl ends_nil
  exact (Prod.mk.inj (Except.ok.inj (hread.symm.trans hread'))).1

/-- **Exact values have the same text iff they agree.** -/
theorem print_eq_iff {x y : String} (hv : v.isExact = true) (hw : w.isExact = true)
    (hx : print v = .ok x) (hy : print w = .ok y) : x = y ↔ v.agree w = true := by
  rw [← Value.sorted_eq_iff v hv hw]
  obtain ⟨cs, hcs, hx⟩ := bind_eq_ok.1 hx
  obtain ⟨cs', hcs', hy⟩ := bind_eq_ok.1 hy
  obtain rfl := Except.ok.inj hx
  obtain rfl := Except.ok.inj hy
  constructor
  · intro heq
    obtain rfl := String.ofList_injective heq
    exact sorted_eq_of_printValue hv hw hcs hcs'
  · intro heq
    rw [← printValue_sorted v 0 hv, heq, printValue_sorted w 0 hw] at hcs
    rw [Except.ok.inj (hcs.symm.trans hcs')]

end Json

end BatteryMonitor
