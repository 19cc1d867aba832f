import BatteryMonitor.Proofs.Table

/-!
# Kinds of values

The values of a field are meant to be of one kind (`Value.isKind`).  Values of one kind that count
as the same are equal (`Value.eq_of_same`), which values of different kinds need not be: `1` and
`true` count as the same.

Equality itself can be decided (`Value.beq_iff`), item by item and member by member.  What is said of a
value is mostly shown by induction on it, with the items of a list and the members of an object at
hand (`Value.induction`).
-/

namespace BatteryMonitor

namespace Value

/-- Induction on a value whose items, or members, have the property. -/
@[elab_as_elim, induction_eliminator]
theorem induction {motive : Value → Prop} (null : motive .null) (bool : ∀ b, motive (.bool b))
    (int : ∀ n, motive (.int n)) (float : ∀ x, motive (.float x)) (text : ∀ s, motive (.text s))
    (list : ∀ items, (∀ v ∈ items, motive v) → motive (.list items))
    (object : ∀ members, (∀ p ∈ members, motive p.2) → motive (.object members)) (v : Value) :
    motive v :=
  @Value.rec motive (fun items => ∀ v ∈ items, motive v) (fun members => ∀ p ∈ members, motive p.2)
    (fun p => motive p.2) null bool int float text list object
    (List.forall_mem_nil _) (fun _ _ hv hitems => List.forall_mem_cons.2 ⟨hv, hitems⟩)
    (List.forall_mem_nil _) (fun _ _ hp hmembers => List.forall_mem_cons.2 ⟨hp, hmembers⟩)
    (fun _ _ h => h) v

/-! ### Equality -/

mutual

/-- Two values are equal. -/
def beq : Value → Value → Bool
  | .null, .null => true
  | .bool b, .bool c => b == c
  | .int m, .int n => m == n
  | .float x, .float y => x = y
  | .text s, .text t => s == t
  | .list xs, .list ys => beqItems xs ys
  | .object xs, .object ys => beqMembers xs ys
  | _, _ => false

/-- Two lists are equal item by item. -/
def beqItems : List Value → List Value → Bool
  | [], [] => true
  | x :: xs, y :: ys => beq x y && beqItems xs ys
  | _, _ => false

/-- Two objects are equal member by member. -/
def beqMembers : List (Key × Value) → List (Key × Value) → Bool
  | [], [] => true
  | (k, x) :: xs, (l, y) :: ys => k = l && beq x y && beqMembers xs ys
  | _, _ => false

end

mutual

theorem beq_iff (v w : Value) : beq v w = true ↔ v = w := by
  cases v with
  | list xs => cases w <;> simp [beq, beqItems_iff xs]
  | object xs => cases w <;> simp [beq, beqMembers_iff xs]
  | null | bool | int | float | text => cases w <;> simp [beq]

theorem beqItems_iff (xs ys : List Value) : beqItems xs ys = true ↔ xs = ys := by
  match xs, ys with
  | [], [] | [], _ :: _ | _ :: _, [] => simp [beqItems]
  | x :: xs, y :: ys => simp [beqItems, beq_iff x, beqItems_iff xs]

theorem beqMembers_iff (xs ys : List (Key × Value)) : beqMembers xs ys = true ↔ xs = ys := by
  match xs, ys with
  | [], [] | [], _ :: _ | _ :: _, [] => simp [beqMembers]
  | (k, x) :: xs, (l, y) :: ys => simp [beqMembers, beq_iff x, beqMembers_iff xs]

end

instance : DecidableEq Value := fun v w => decidable_of_iff _ (beq_iff v w)

end Value

/-! ### Keys and kinds of values -/

/-- The kinds of values that fields are meant to hold. -/
inductive Kind where
  | bool
  | int
  | text
  deriving DecidableEq

namespace Value

/-- Two values are keys of one entry. -/
def sameKey (v w : Value) : Bool :=
  match v.key?, w.key? with
  | some k, some l => k.same l
  | _, _ => false

theorem sameKey_iff {v w : Value} :
    v.sameKey w = true ↔ v.entryOf? = w.entryOf? ∧ v.entryOf?.isSome := by
  unfold sameKey entryOf?
  cases v.key? <;> cases w.key? <;> simp [Key.same_iff]

/-- The value is of a kind. -/
def isKind : Kind → Value → Bool
  | .bool, .bool _ | .int, .int _ | .text, .text _ => true
  | _, _ => false

/-- The value is of a kind, or nothing. -/
def isOptional (kind : Kind) (v : Value) : Bool :=
  v.isNull || v.isKind kind

theorem exists_bool {v : Value} (h : v.isKind .bool = true) : ∃ b, v = .bool b := by
  cases v with
  | bool b => exact ⟨b, rfl⟩
  | null | int | float | text | list | object => exact absurd h Bool.false_ne_true

theorem exists_text {v : Value} (h : v.isKind .text = true) : ∃ s, v = .text s := by
  cases v with
  | text s => exact ⟨s, rfl⟩
  | null | bool | int | float | list | object => exact absurd h Bool.false_ne_true

/-- The value is an integer, or a truth value, which counts as one. -/
def isInteger (v : Value) : Bool :=
  v.isKind .int || v.isKind .bool

theorem eq_of_same {kind : Kind} {v w : Value} (h : v.same w = true)
    (hv : v.isOptional kind = true) (hw : w.isOptional kind = true) : v = w := by
  cases kind <;> cases v <;> simp [isOptional, isKind, isNull] at hv <;>
    cases w <;> simp [isOptional, isKind, isNull] at hw <;>
      simp [same, equalNumbers, number?, Number.value, Extended.eq_iff] at h ⊢
  -- truth values are compared as numbers, the other kinds as what they hold
  · rename_i b c
    cases b <;> cases c <;> simp at h ⊢
  · exact h
  · exact h

theorem eq_of_same_text {v w : Value} (h : v.same w = true) (hw : w.isOptional .text = true) :
    v = w := by
  unfold same at h
  split at h
  · cases hw
  · rw [eq_of_beq h]
  · rfl
  · cases hw
  · cases hw
  -- what is left are numbers, and `w` is none
  · unfold equalNumbers at h
    split at h
    · rename_i hnumber
      cases w with
      | null | text => cases hnumber
      | bool | int | float | list | object => cases hw
    · cases h

theorem isOptional_of_isKind {kind : Kind} {v : Value} (h : v.isKind kind = true) :
    v.isOptional kind = true := by
  rw [isOptional, h, Bool.or_true]

theorem same_self {kind : Kind} {v : Value} (h : v.isOptional kind = true) : v.same v = true := by
  cases kind <;> cases v <;> simp [isOptional, isKind, isNull] at h <;>
    simp [same, equalNumbers, number?, Number.value, Extended.eq_iff]

theorem equal_self {kind : Kind} {v : Value} (h : v.isKind kind = true) : v.equal v = true := by
  have hsame : v.same v = true := same_self (isOptional_of_isKind h)
  unfold equal
  split
  · cases kind <;> exact absurd h Bool.false_ne_true
  · exact hsame

theorem equal_text (s : Text) : (text s).equal (.text s) = true :=
  equal_self (show isKind .text (.text s) = true from rfl)

theorem truth_of_number? {v : Value} {n : Number} (h : v.number? = some n) :
    v.truth = !n.value.isZero := by
  cases v with
  | bool b => cases h; cases b <;> simp [truth, Number.value, Extended.isZero, Extended.eq]
  | int k =>
    cases h
    rw [Bool.eq_iff_iff]
    simp [truth, Number.value, Extended.isZero, Extended.eq]
  | float x => cases h; rfl
  | null | text _ | list _ | object _ => cases h

theorem truth_eq_of_equalNumbers {v w : Value} (h : v.equalNumbers w = true) :
    v.truth = w.truth := by
  unfold equalNumbers at h
  split at h
  · rename_i m n hv hw
    rw [truth_of_number? hv, truth_of_number? hw, (Extended.eq_iff.1 h).1]
  · exact absurd h Bool.false_ne_true

theorem truth_eq_of_same {v w : Value} (h : v.same w = true) : v.truth = w.truth := by
  unfold same at h
  split at h
  · rfl
  · rw [eq_of_beq h]
  · rfl
  · rename_i xs ys
    cases xs <;> cases ys <;> simp [sameItems, truth] at h ⊢
  · rename_i xs ys
    rw [Bool.and_eq_true, beq_iff_eq] at h
    cases xs <;> cases ys <;> simp [truth] at h ⊢
  · exact truth_eq_of_equalNumbers h

end Value

end BatteryMonitor
