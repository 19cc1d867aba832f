import BatteryMonitor.Json.Printer
import BatteryMonitor.Proofs.Text
import BatteryMonitor.Proofs.Value

/-!
# Values that JSON text carries

What a value is made of is tested by one predicate (`Value.all`), which asks something of every leaf of
the value and something else of the table of every object in it.

JSON text carries a value if there are no integers in it that are too long, no keys but texts, and not
too many levels (`Value.isLegible`).  All of it comes back but the order of the members of objects,
which are printed in the order of their keys (`Value.sorted`).  To the program that is the same value
(`Value.same_sorted`), under every key (`Value.find?_inOrder`).

A value is portable if there are no doubles in it either (`Value.isPortable`): then what comes back
also equals it wherever it is compared (`Value.equal_sorted`), which no double does that is no number.
-/

namespace BatteryMonitor

/-- The key is a text. -/
def Key.isText : Key → Bool
  | .text _ => true
  | .null | .bool _ | .int _ | .float _ => false

theorem Key.exists_text {k : Key} (h : k.isText = true) : ∃ s, k = .text s := by
  cases k with
  | text s => exact ⟨s, rfl⟩
  | null | bool | int | float => exact absurd h Bool.false_ne_true

namespace Table

variable {α : Type} {t : Table α}

/-- The keys are texts, and no text comes twice. -/
structure Named (t : Table α) : Prop where
  distinct : t.Distinct
  text : ∀ q ∈ t, q.1.isText = true

theorem named_iff : t.Named ↔ t.Distinct ∧ ∀ q ∈ t, q.1.isText = true :=
  ⟨fun h => ⟨h.distinct, h.text⟩, fun h => ⟨h.1, h.2⟩⟩

instance (t : Table α) : Decidable t.Named := decidable_of_iff' _ named_iff

end Table

/-- The double is a number, or the one that is none and that a text can spell. -/
def Binary64.isSpelled : Binary64 → Bool
  | .finite .. | .infinite _ => true
  | .nan tag => tag == 0

namespace Value

/-! ### Tests on the parts of a value -/

mutual

/-- All leaves of the value pass a test, and the tables of all objects in it pass another one. -/
def all (ofLeaf : Value → Bool) (ofTable : Table Value → Bool) : Value → Bool
  | .list items => allItems ofLeaf ofTable items
  | .object members => ofTable members && allMembers ofLeaf ofTable members
  | v => ofLeaf v

/-- The parts of the items of a list do. -/
def allItems (ofLeaf : Value → Bool) (ofTable : Table Value → Bool) : List Value → Bool
  | [] => true
  | v :: rest => all ofLeaf ofTable v && allItems ofLeaf ofTable rest

/-- The parts of the members of an object do. -/
def allMembers (ofLeaf : Value → Bool) (ofTable : Table Value → Bool) : List (Key × Value) → Bool
  | [] => true
  | (_, v) :: rest => all ofLeaf ofTable v && allMembers ofLeaf ofTable rest

end

mutual

/-- How many lists and objects there are inside of each other. -/
def levels : Value → Nat
  | .list items => levelsOfItems items + 1
  | .object members => levelsOfMembers members + 1
  | _ => 0

/-- The most levels of an item. -/
def levelsOfItems : List Value → Nat
  | [] => 0
  | v :: rest => max (levels v) (levelsOfItems rest)

/-- The most levels of a member. -/
def levelsOfMembers : List (Key × Value) → Nat
  | [] => 0
  | (_, v) :: rest => max (levels v) (levelsOfMembers rest)

end

section All

variable {ofLeaf ofLeaf' : Value → Bool} {ofTable ofTable' : Table Value → Bool}
  {items : List Value} {members : Table Value} {depth : Nat}

theorem all_list_iff : (list items).all ofLeaf ofTable = true ↔
    ∀ v ∈ items, v.all ofLeaf ofTable = true := by
  rw [all]
  induction items with
  | nil => simp [allItems]
  | cons v items ih => rw [allItems, Bool.and_eq_true, ih, List.forall_mem_cons]

theorem all_object_iff : (object members).all ofLeaf ofTable = true ↔
    ofTable members = true ∧ ∀ p ∈ members, p.2.all ofLeaf ofTable = true := by
  have hmembers (members : List (Key × Value)) : allMembers ofLeaf ofTable members = true ↔
      ∀ p ∈ members, p.2.all ofLeaf ofTable = true := by
    induction members with
    | nil => simp [allMembers]
    | cons p members ih =>
      obtain ⟨k, v⟩ := p
      rw [allMembers, Bool.and_eq_true, ih, List.forall_mem_cons]
  rw [all, Bool.and_eq_true, hmembers]

theorem all_imp (hleaf : ∀ v, ofLeaf v = true → ofLeaf' v = true)
    (htable : ∀ t, ofTable t = true → ofTable' t = true) (v : Value)
    (h : v.all ofLeaf ofTable = true) : v.all ofLeaf' ofTable' = true := by
  induction v with
  | null | bool | int | float | text => exact hleaf _ h
  | list items ih => exact all_list_iff.2 fun v hv => ih v hv (all_list_iff.1 h v hv)
  | object members ih =>
    obtain ⟨ht, hmembers⟩ := all_object_iff.1 h
    exact all_object_iff.2 ⟨htable _ ht, fun p hp => ih p hp (hmembers p hp)⟩

theorem levels_list_le_iff : (list items).levels ≤ depth + 1 ↔ ∀ v ∈ items, v.levels ≤ depth := by
  rw [levels, Nat.add_le_add_iff_right]
  induction items with
  | nil => simp [levelsOfItems]
  | cons v items ih => rw [levelsOfItems, Nat.max_le, ih, List.forall_mem_cons]

theorem levels_object_le_iff :
    (object members).levels ≤ depth + 1 ↔ ∀ p ∈ members, p.2.levels ≤ depth := by
  rw [levels, Nat.add_le_add_iff_right]
  induction members with
  | nil => simp [levelsOfMembers]
  | cons p members ih =>
    obtain ⟨k, v⟩ := p
    rw [levelsOfMembers, Nat.max_le, ih, List.forall_mem_cons]

end All

/-! ### Legible and portable values -/

/-- A text can spell the leaf: an integer is within the limit. -/
def isSpelled : Value → Bool
  | .int n => Decimal.withinLimit n
  | .float x => x.isSpelled
  | _ => true

/-- The value is a double. -/
def isDouble : Value → Bool
  | .float _ => true
  | _ => false

/-- The value can be carried in at most `depth` levels: integers are within the limit, and the keys of
every object are texts, none of which comes twice. -/
def isLegible (v : Value) (depth : Nat) : Bool :=
  v.all isSpelled (fun t => t.Named) && v.levels ≤ depth

/-- There are no doubles in the value. -/
def isDoubleFree (v : Value) : Bool :=
  v.all (!·.isDouble) fun _ => true

/-- The value can be carried in at most `depth` levels, and there are no doubles in it. -/
def isPortable (v : Value) (depth : Nat) : Bool :=
  v.isLegible depth && v.isDoubleFree

variable {v : Value} {items : List Value} {members : Table Value} {depth : Nat}

theorem isLegible_iff : v.isLegible depth = true ↔
    v.all isSpelled (fun t => t.Named) = true ∧ v.levels ≤ depth := by
  rw [isLegible, Bool.and_eq_true, decide_eq_true_iff]

theorem isPortable_iff :
    v.isPortable depth = true ↔ v.isLegible depth = true ∧ v.isDoubleFree = true := by
  rw [isPortable, Bool.and_eq_true]

theorem isLegible_null : null.isLegible depth = true :=
  isLegible_iff.2 ⟨rfl, Nat.zero_le _⟩

theorem isLegible_bool (b : Bool) : (bool b).isLegible depth = true :=
  isLegible_iff.2 ⟨rfl, Nat.zero_le _⟩

theorem isLegible_text (s : Text) : (text s).isLegible depth = true :=
  isLegible_iff.2 ⟨rfl, Nat.zero_le _⟩

theorem isLegible_int_iff {n : Int} :
    (int n).isLegible depth = true ↔ Decimal.withinLimit n = true := by
  simp only [isLegible_iff, all, isSpelled, levels, Nat.zero_le, and_true]

theorem isLegible_float_iff {x : Binary64} :
    (float x).isLegible depth = true ↔ x.isSpelled = true := by
  simp only [isLegible_iff, all, isSpelled, levels, Nat.zero_le, and_true]

theorem isLegible_list_iff : (list items).isLegible (depth + 1) = true ↔
    ∀ v ∈ items, v.isLegible depth = true := by
  simp only [isLegible_iff, all_list_iff, levels_list_le_iff, imp_and, forall_and]

theorem isLegible_object_iff : (object members).isLegible (depth + 1) = true ↔
    members.Distinct ∧
      ∀ p ∈ members, p.1.isText = true ∧ p.2.isLegible depth = true := by
  rw [isLegible_iff, all_object_iff, levels_object_le_iff, decide_eq_true_iff, Table.named_iff]
  simp only [isLegible_iff, imp_and, forall_and, and_assoc]

theorem levels_eq_zero (h : v.isLegible 0 = true) : v.levels = 0 :=
  Nat.le_zero.1 (isLegible_iff.1 h).2

theorem exists_depth (h : v.isLegible depth = true) (hv : 0 < v.levels) :
    ∃ below, depth = below + 1 :=
  Nat.exists_eq_add_one.2 (Nat.lt_of_lt_of_le hv (isLegible_iff.1 h).2)

theorem isPortable_list_iff : (list items).isPortable (depth + 1) = true ↔
    ∀ v ∈ items, v.isPortable depth = true := by
  simp only [isPortable_iff, isLegible_list_iff, isDoubleFree, all_list_iff, imp_and, forall_and]

theorem isPortable_object_iff : (object members).isPortable (depth + 1) = true ↔
    members.Distinct ∧
      ∀ p ∈ members, p.1.isText = true ∧ p.2.isPortable depth = true := by
  simp only [isPortable_iff, isLegible_object_iff, isDoubleFree, all_object_iff, true_and,
    imp_and, forall_and, and_assoc]

theorem isLegible_mono (v : Value) {depth depth' : Nat} (hle : depth ≤ depth')
    (h : v.isLegible depth = true) : v.isLegible depth' = true := by
  rw [isLegible_iff] at h ⊢
  exact ⟨h.1, Nat.le_trans h.2 hle⟩

theorem isLegible_of_isPortable (h : v.isPortable depth = true) : v.isLegible depth = true :=
  (isPortable_iff.1 h).1

theorem isPortable_mono (v : Value) {depth depth' : Nat} (hle : depth ≤ depth')
    (h : v.isPortable depth = true) : v.isPortable depth' = true :=
  isPortable_iff.2 ((isPortable_iff.1 h).imp_left (isLegible_mono v hle))

/-! ### The order of members -/

end Value

theorem Json.sortMembers_of_texts {α : Type} {members : Table α}
    (h : ∀ p ∈ members, p.1.isText = true) : sortMembers members =
      .ok (members.mergeSort fun a b => decide (keyString a.1 ≤ keyString b.1)) := by
  rw [sortMembers, if_pos]
  refine List.all_eq_true.2 fun p hp => ?_
  obtain ⟨k, a⟩ := p
  obtain ⟨name, rfl⟩ := Key.exists_text (h _ hp)
  rfl

theorem Table.pairwise_mergeSort_keys {α : Type} (t : Table α) :
    (t.mergeSort fun a b => decide (Json.keyString a.1 ≤ Json.keyString b.1)).Pairwise
      fun p q => decide (Json.keyString p.1 ≤ Json.keyString q.1) = true :=
  List.pairwise_mergeSort (fun p q r => by simpa using Text.le_trans)
    (fun p q => by simpa using Text.le_total _ _) t

namespace Value

variable {v : Value} {items : List Value} {members : Table Value} {depth : Nat}

/-- The members in the order of their keys. -/
def inOrder (members : Table Value) : Table Value :=
  members.mergeSort fun a b => decide (Json.keyString a.1 ≤ Json.keyString b.1)

theorem perm_inOrder (members : Table Value) : (inOrder members).Perm members :=
  List.mergeSort_perm members _

mutual

/-- The value with the members of every object in the order of their keys. -/
def sorted : Value → Value
  | .null => .null
  | .bool b => .bool b
  | .int n => .int n
  | .float x => .float x
  | .text s => .text s
  | .list items => .list (sortedItems items)
  | .object members => .object (inOrder (sortedMembers members))

/-- The items, sorted each by itself. -/
def sortedItems : List Value → List Value
  | [] => []
  | v :: rest => sorted v :: sortedItems rest

/-- The members as they come, each value sorted by itself. -/
def sortedMembers : List (Key × Value) → List (Key × Value)
  | [] => []
  | (k, v) :: rest => (k, sorted v) :: sortedMembers rest

end

theorem sortedMembers_eq (members : List (Key × Value)) :
    sortedMembers members = members.map fun p => (p.1, p.2.sorted) := by
  induction members with
  | nil => rfl
  | cons p members ih =>
    obtain ⟨k, v⟩ := p
    rw [sortedMembers, List.map_cons, ih]

theorem distinct_sortedMembers (h : members.Distinct) :
    Table.Distinct (sortedMembers members) := by
  have hkeys : (sortedMembers members).map (·.1.entry) = members.map (·.1.entry) := by
    rw [sortedMembers_eq, List.map_map]
    rfl
  rw [Table.Distinct, hkeys]
  exact h

theorem find?_sortedMembers (members : Table Value) (k : Key) :
    Table.find? (sortedMembers members) k = (members.find? k).map sorted := by
  induction members with
  | nil => rfl
  | cons p members ih =>
    obtain ⟨l, v⟩ := p
    rw [sortedMembers, Table.find?_cons, Table.find?_cons, ih]
    split <;> rfl

/-- **The order of the members does not matter to any key.** -/
theorem find?_inOrder (h : members.Distinct) (k : Key) :
    (inOrder (sortedMembers members)).find? k = (members.find? k).map sorted := by
  rw [← Table.find?_perm (distinct_sortedMembers h) (perm_inOrder _).symm, find?_sortedMembers]

theorem sameMembers_iff {xs : List (Key × Value)} {ys : Table Value} :
    sameMembers xs ys = true ↔ ∀ p ∈ xs, ∃ y, ys.find? p.1 = some y ∧ p.2.same y = true := by
  induction xs with
  | nil => simp [sameMembers]
  | cons p xs ih =>
    obtain ⟨k, x⟩ := p
    rw [sameMembers, Bool.and_eq_true, ih, List.forall_mem_cons]
    refine and_congr_left fun _ => ?_
    cases ys.find? k <;> simp

theorem same_float (x : Binary64) : (float x).same (.float x) = true := by
  cases x with
  | finite negative m e h =>
    simp [same, equalNumbers, number?, Number.value, Binary64.value, Extended.eq]
  | infinite negative => cases negative <;> rfl
  | nan tag => simp [same]

theorem sameItems_sortedItems (h : ∀ v ∈ items, v.sorted.same v = true) :
    sameItems (sortedItems items) items = true := by
  induction items with
  | nil => rfl
  | cons v items ih =>
    obtain ⟨hv, hitems⟩ := List.forall_mem_cons.1 h
    rw [sortedItems, sameItems, hv, ih hitems]
    rfl

theorem same_object_sorted (hdistinct : members.Distinct)
    (h : ∀ p ∈ members, p.2.sorted.same p.2 = true) :
    (object members).sorted.same (object members) = true := by
  have hlength : (inOrder (sortedMembers members)).length = members.length := by
    rw [(perm_inOrder _).length_eq, sortedMembers_eq, List.length_map]
  rw [sorted, same, hlength, beq_self_eq_true, Bool.true_and, sameMembers_iff]
  intro p hp
  rw [(perm_inOrder _).mem_iff, sortedMembers_eq] at hp
  obtain ⟨⟨k, v⟩, hkv, rfl⟩ := List.mem_map.1 hp
  exact ⟨v, Table.find?_of_mem hdistinct hkv, h _ hkv⟩

/-- **A legible value is the same with its members in order.** -/
theorem same_sorted (v : Value) {depth : Nat} (h : v.isLegible depth = true) :
    v.sorted.same v = true := by
  induction v generalizing depth with
  | null => rfl
  | bool b => exact same_self (show isOptional .bool (.bool b) = true from rfl)
  | int n => exact same_self (show isOptional .int (.int n) = true from rfl)
  | float x => exact same_float x
  | text s => exact same_self (show isOptional .text (.text s) = true from rfl)
  | list items ih =>
    obtain ⟨below, rfl⟩ := exists_depth h (Nat.succ_pos _)
    exact sameItems_sortedItems fun v hv => ih v hv (isLegible_list_iff.1 h v hv)
  | object members ih =>
    obtain ⟨below, rfl⟩ := exists_depth h (Nat.succ_pos _)
    obtain ⟨hdistinct, hmembers⟩ := isLegible_object_iff.1 h
    exact same_object_sorted hdistinct fun p hp => ih p hp (hmembers p hp).2

theorem equal_sorted (h : v.isPortable depth = true) : v.sorted.equal v = true := by
  have hsame := same_sorted v (isLegible_of_isPortable h)
  cases v with
  | float x => exact absurd (isPortable_iff.1 h).2 Bool.false_ne_true
  | null | bool | int | text | list | object => exact hsame

theorem rel_inOrder (h : (object members).isPortable (depth + 1) = true) (k : Key) :
    Option.Rel (fun v w => v = w.sorted ∧ v.equal w = true)
      ((inOrder (sortedMembers members)).find? k) (members.find? k) := by
  obtain ⟨hdistinct, hmembers⟩ := isPortable_object_iff.1 h
  rw [find?_inOrder hdistinct]
  cases hfind : members.find? k with
  | none => exact .none
  | some w =>
    obtain ⟨l, -, hmem⟩ := (Table.find?_eq_some_iff hdistinct).1 hfind
    exact .some ⟨rfl, equal_sorted (hmembers _ hmem).2⟩

end Value

end BatteryMonitor
