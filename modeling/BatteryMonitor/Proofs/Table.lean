import BatteryMonitor.Value.Equality

/-!
# Keys and tables

Which keys name the same entry (`Key.same`) is a matter of what they denote: nothing, a text, the
exact value of a number, or a number that is none and is told apart by its tag.  This is
`Key.entry`, and two keys are the same iff their entries are equal (`Key.same_iff`), so that
sameness is an equivalence and a look-up only depends on the entry (`Table.find?_congr`).

With that a table is a partial function on entries: writing and erasing change it at one entry and
leave all others alone (`Table.find?_insert`, `Table.find?_erase`).  Erasing drops the first entry
of a key only, so it takes that no key comes twice (`Table.Distinct`), which both operations keep.
Such a table is the set of its pairs (`Table.find?_eq_some_iff`), in whatever order they come
(`Table.find?_perm`).
-/

namespace BatteryMonitor

/-! ### Keys -/

/-- What a key denotes. -/
inductive Entry where
  | null
  | text (s : Text)
  | undefined (tag : Nat)
  | number (v : Extended)
  deriving DecidableEq

/-- The entry that a key names. -/
def Key.entry : Key → Entry
  | .null => .null
  | .bool b => .number (.real (if b then 1 else 0 : Int))
  | .int n => .number (.real n)
  | .float (.nan tag) => .undefined tag
  | .float x => .number x.value
  | .text s => .text s

theorem Extended.eq_iff {a b : Extended} : a.eq b = true ↔ a = b ∧ a ≠ .undefined := by
  cases a <;> cases b <;> simp [Extended.eq]

/-- **Two keys are the same iff they name the same entry.** -/
theorem Key.same_iff {a b : Key} : a.same b = true ↔ a.entry = b.entry := by
  -- a number that is none is the only one that is not compared by its value
  rcases a with _ | c | m | (⟨_, _, _, _⟩ | (_ | _) | tag) | s <;>
    rcases b with _ | d | n | (⟨_, _, _, _⟩ | (_ | _) | tag') | t <;>
      simp [Key.same, Key.entry, Key.number?, Number.value, Extended.eq_iff, Binary64.value]

theorem Key.eq_text_of_entry {k : Key} {name : Text} (h : k.entry = (Key.text name).entry) :
    k = .text name := by
  rcases k with _ | c | m | (_ | _ | tag) | s <;> cases h
  rfl

/-- The entry that a value names, if it is a key. -/
def Value.entryOf? (v : Value) : Option Entry := v.key?.map Key.entry

theorem Value.entryOf?_text_ne {key key' : Text} (h : key' ≠ key) :
    (Value.text key').entryOf? ≠ (Value.text key).entryOf? :=
  fun heq => h (Entry.text.inj (Option.some.inj heq))

theorem Value.entryOf?_eq_of_equal {v w : Value} (h : v.equal w = true) (hv : v.entryOf?.isSome) :
    v.entryOf? = w.entryOf? := by
  revert h
  rcases v with _ | c | m | (⟨_, _, _, _⟩ | (_ | _) | tag) | s | _ | _ <;>
    rcases w with _ | d | n | (⟨_, _, _, _⟩ | (_ | _) | tag') | t | _ | _ <;>
      simp [Value.equal, Value.same, Value.equalNumbers, Value.number?, Value.entryOf?, Value.key?,
        Key.entry, Number.value, Extended.eq_iff, Binary64.value] at hv ⊢

namespace Table

variable {α : Type} {t : Table α} {k l : Key}

/-! ### Tables as partial functions -/

/-- No entry is there twice. -/
def Distinct (t : Table α) : Prop := (t.map (·.1.entry)).Nodup

theorem find?_cons {a : α} :
    find? ((k, a) :: t) l = if k.entry = l.entry then some a else find? t l := by
  simp only [find?, Key.same_iff]

theorem find?_append (t u : Table α) (k : Key) : (t ++ u).find? k = (t.find? k).or (u.find? k) := by
  induction t with
  | nil => rfl
  | cons p t ih =>
    obtain ⟨l, a⟩ := p
    rw [List.cons_append, find?_cons, find?_cons, ih]
    split <;> rfl

theorem find?_congr (h : k.entry = l.entry) (t : Table α) : t.find? k = t.find? l := by
  induction t with
  | nil => rfl
  | cons p t ih => obtain ⟨k', a⟩ := p; rw [find?_cons, find?_cons, h, ih]

theorem find?_eq_none_iff : t.find? l = none ↔ l.entry ∉ t.map (·.1.entry) := by
  induction t with
  | nil => simp [find?]
  | cons p t ih =>
    obtain ⟨k, a⟩ := p
    rw [find?_cons]
    by_cases h : k.entry = l.entry
    · simp [h]
    · simp [h, ih, Ne.symm h]

/-- **Writing changes a table at one entry.** -/
theorem find?_insert (t : Table α) (k l : Key) (a : α) :
    (t.insert k a).find? l = if k.entry = l.entry then some a else t.find? l := by
  induction t with
  | nil => simp only [insert, find?_cons]
  | cons p t ih =>
    obtain ⟨k', b⟩ := p
    simp only [insert, Key.same_iff]
    by_cases hk : k'.entry = k.entry
    · simp only [hk, if_true, find?_cons]
      by_cases hl : k.entry = l.entry <;> simp [hl]
    · simp only [hk, if_false, find?_cons, ih]
      by_cases hl : k'.entry = l.entry
      · have hkl : k.entry ≠ l.entry := fun h => hk (hl.trans h.symm)
        simp [hl, hkl]
      · simp [hl]

theorem map_entry_insert (t : Table α) (k : Key) (a : α) :
    (t.insert k a).map (·.1.entry) =
      if k.entry ∈ t.map (·.1.entry) then t.map (·.1.entry)
      else t.map (·.1.entry) ++ [k.entry] := by
  induction t with
  | nil => simp [insert]
  | cons p t ih =>
    obtain ⟨k', b⟩ := p
    simp only [insert, Key.same_iff]
    by_cases hk : k'.entry = k.entry
    · simp [hk]
    · simp only [hk, if_false, List.map_cons, ih, List.mem_cons, Ne.symm hk, false_or]
      split <;> rfl

theorem map_entry_erase (t : Table α) (k : Key) :
    (t.erase k).map (·.1.entry) = (t.map (·.1.entry)).erase k.entry := by
  induction t with
  | nil => rfl
  | cons p t ih =>
    obtain ⟨k', b⟩ := p
    simp only [erase, Key.same_iff, List.map_cons, List.erase_cons, beq_iff_eq]
    by_cases hk : k'.entry = k.entry
    · simp only [hk, if_true]
    · simp only [hk, if_false, List.map_cons, ih]

theorem Distinct.insert (h : t.Distinct) (k : Key) (a : α) : (t.insert k a).Distinct := by
  unfold Distinct at h ⊢
  rw [map_entry_insert]
  split
  · exact h
  · rename_i hk
    rw [List.nodup_append]
    refine ⟨h, by simp, fun e he e' he' => ?_⟩
    rw [List.mem_singleton.1 he']
    rintro rfl
    exact hk he

theorem Distinct.erase (h : t.Distinct) (k : Key) : (t.erase k).Distinct := by
  unfold Distinct at h ⊢
  rw [map_entry_erase]
  exact h.erase _

/-- **Erasing changes a table at one entry**, as long as no entry is there twice. -/
theorem find?_erase (h : t.Distinct) (k l : Key) :
    (t.erase k).find? l = if k.entry = l.entry then none else t.find? l := by
  induction t with
  | nil => simp [Table.erase, find?]
  | cons p t ih =>
    obtain ⟨k', b⟩ := p
    obtain ⟨hk', ht⟩ := List.nodup_cons.1 h
    simp only [Table.erase, Key.same_iff]
    by_cases hk : k'.entry = k.entry
    · simp only [hk, if_true, find?_cons]
      by_cases hl : k.entry = l.entry
      · simp only [hl, if_true]
        -- the first entry of the key has gone, and there is no second one
        rw [find?_eq_none_iff, ← hl, ← hk]
        exact hk'
      · simp [hl]
    · simp only [hk, if_false, find?_cons, ih ht]
      by_cases hl : k'.entry = l.entry
      · have hkl : k.entry ≠ l.entry := fun h => hk (hl.trans h.symm)
        simp [hl, hkl]
      · simp [hl]

/-! ### Tables of pairs -/

instance (t : Table α) : Decidable t.Distinct :=
  inferInstanceAs (Decidable (List.Nodup _))

theorem insert_of_not_mem {t : Table α} {k : Key} (a : α) (h : k.entry ∉ t.map (·.1.entry)) :
    t.insert k a = t ++ [(k, a)] := by
  induction t with
  | nil => rfl
  | cons p t ih =>
    obtain ⟨l, b⟩ := p
    rw [List.map_cons, List.mem_cons, not_or] at h
    rw [insert, if_neg fun hsame => h.1 (Key.same_iff.1 hsame).symm, ih h.2]
    rfl

theorem ofPairs_of_distinct {t : Table α} (h : t.Distinct) : ofPairs t = t := by
  suffices hfold : ∀ (t u : Table α), (u ++ t).Distinct →
      t.foldl (fun t p => insert t p.1 p.2) u = u ++ t from hfold t [] h
  intro t
  induction t with
  | nil => exact fun u _ => (List.append_nil u).symm
  | cons p t ih =>
    intro u hu
    obtain ⟨k, a⟩ := p
    have hnew : k.entry ∉ u.map (·.1.entry) := by
      unfold Distinct at hu
      rw [List.map_append, List.map_cons] at hu
      exact fun hmem => (List.nodup_append.1 hu).2.2 _ hmem _ List.mem_cons_self rfl
    have happend : u ++ (k, a) :: t = u ++ [(k, a)] ++ t := by simp
    rw [List.foldl_cons, insert_of_not_mem a hnew, ih _ (happend ▸ hu), happend]

theorem Distinct.perm {t u : Table α} (h : t.Distinct) (hperm : t.Perm u) : u.Distinct :=
  (hperm.map _).nodup h

/-- **A table of distinct keys is the set of its pairs.** -/
theorem find?_eq_some_iff (h : t.Distinct) {a : α} :
    t.find? k = some a ↔ ∃ l, l.entry = k.entry ∧ (l, a) ∈ t := by
  induction t with
  | nil => simp [find?]
  | cons p t ih =>
    obtain ⟨l, b⟩ := p
    obtain ⟨hl, ht⟩ := List.nodup_cons.1 h
    rw [find?_cons]
    split
    · rename_i hlk
      constructor
      · intro hb
        exact ⟨l, hlk, by rw [Option.some.inj hb]; exact List.mem_cons_self⟩
      · rintro ⟨l', hl', hmem⟩
        rcases List.mem_cons.1 hmem with heq | hmem
        · rw [(Prod.mk.inj heq).2]
        -- no other pair has the entry of the first one
        · exact absurd (List.mem_map.2 ⟨_, hmem, hl'.trans hlk.symm⟩) hl
    · rename_i hlk
      rw [ih ht]
      refine exists_congr fun l' => and_congr_right fun hl' => ?_
      refine ⟨List.mem_cons_of_mem _, fun hmem => (List.mem_cons.1 hmem).resolve_left fun heq => ?_⟩
      exact hlk ((Prod.mk.inj heq).1 ▸ hl')

theorem find?_of_mem (h : t.Distinct) {a : α} (hmem : (k, a) ∈ t) : t.find? k = some a :=
  (find?_eq_some_iff h).2 ⟨k, rfl, hmem⟩

theorem find?_perm {u : Table α} (h : t.Distinct) (hperm : t.Perm u) (k : Key) :
    t.find? k = u.find? k := by
  refine Option.ext fun a => ?_
  rw [find?_eq_some_iff h, find?_eq_some_iff (h.perm hperm)]
  exact exists_congr fun l => and_congr_right fun _ => hperm.mem_iff

theorem forall_insert {T : Key → Prop} {Q : α → Prop} {a : α} (ht : ∀ p ∈ t, T p.1 ∧ Q p.2)
    (hk : T k) (ha : Q a) : ∀ p ∈ t.insert k a, T p.1 ∧ Q p.2 := by
  induction t with
  | nil =>
    intro p hp
    rw [List.mem_singleton.1 hp]
    exact ⟨hk, ha⟩
  | cons q t ih =>
    obtain ⟨l, b⟩ := q
    obtain ⟨hq, ht⟩ := List.forall_mem_cons.1 ht
    rw [insert]
    split
    · exact List.forall_mem_cons.2 ⟨⟨hq.1, ha⟩, ht⟩
    · exact List.forall_mem_cons.2 ⟨hq, ih ht⟩

theorem mem_of_mem_erase {p : Key × α} (h : p ∈ t.erase k) : p ∈ t := by
  induction t with
  | nil => exact h
  | cons q t ih =>
    obtain ⟨l, b⟩ := q
    rw [Table.erase] at h
    split at h
    · exact List.mem_cons_of_mem _ h
    · exact (List.mem_cons.1 h).elim (fun heq => heq ▸ List.mem_cons_self)
        fun hmem => List.mem_cons_of_mem _ (ih hmem)

theorem distinct_ofPairs (pairs : List (Key × α)) : (ofPairs pairs).Distinct :=
  List.foldlRecOn (motive := Distinct) pairs _ List.nodup_nil
    fun _ ht p _ => ht.insert p.1 p.2

theorem forall_ofPairs {T : Key → Prop} {Q : α → Prop} {pairs : List (Key × α)}
    (h : ∀ p ∈ pairs, T p.1 ∧ Q p.2) : ∀ p ∈ ofPairs pairs, T p.1 ∧ Q p.2 :=
  List.foldlRecOn (motive := fun t : Table α => ∀ p ∈ t, T p.1 ∧ Q p.2) pairs _
    (List.forall_mem_nil _) fun _ ht p hp => forall_insert ht (h p hp).1 (h p hp).2

end Table

end BatteryMonitor
