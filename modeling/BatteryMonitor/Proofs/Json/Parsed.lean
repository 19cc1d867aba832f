import BatteryMonitor.Proofs.Effect
import BatteryMonitor.Proofs.Json.Integer
import BatteryMonitor.Proofs.Json.Portable
import Mathlib.Data.List.Induction

/-!
# What is parsed can be printed

A text is read as a value of bounded depth whose integers are within the limit and whose keys are
texts, none of which comes twice, so that another text can carry it (`Json.isLegible_of_parseBytes`).
Only doubles keep it from being portable (`Json.isPortable_of_parseBytes`).
-/

namespace BatteryMonitor

namespace Value

theorem isLegible_ofPairs {members : List (Key × Value)} {depth : Nat}
    (h : ∀ p ∈ members, p.1.isText = true ∧ p.2.isLegible depth = true) :
    (object (Table.ofPairs members)).isLegible (depth + 1) = true :=
  isLegible_object_iff.2 ⟨Table.distinct_ofPairs members,
    Table.forall_ofPairs (T := (·.isText = true)) (Q := fun v : Value => v.isLegible depth = true) h⟩

end Value

namespace Decimal

theorem digitValue?_lt {c : Char} {d : Nat} (h : digitValue? c = some d) : d < 10 := by
  unfold digitValue? at h
  split at h
  · rename_i hc
    obtain rfl := Option.some.inj h
    have hle : c.toNat ≤ '9'.toNat := hc.2
    have hnine : '9'.toNat = 57 := rfl
    have hzero : '0'.toNat = 48 := rfl
    omega
  · cases h

theorem ofDigits_lt {ds : List Nat} {k : Nat} (h : ∀ d ∈ ds, d < 10) (hk : ds.length ≤ k) :
    ofDigits ds < Nat.pow 10 k := by
  refine Nat.lt_of_lt_of_le ?_ (Nat.pow_le_pow_right (by decide) hk)
  clear hk
  induction ds using List.reverseRecOn with
  | nil => decide
  | append_singleton ds d ih =>
    obtain ⟨hds, hd⟩ := List.forall_mem_append.1 h
    have hlt := ih hds
    have hlast := hd d (List.mem_singleton_self d)
    rw [ofDigits_concat, List.length_append, List.length_singleton, Nat.pow_succ]
    omega

theorem withinLimit_signed {n : Nat} (negative : Bool) (h : n < Nat.pow 10 digitLimit) :
    withinLimit (if negative then -n else n) = true := by
  have habs : (if negative then -(n : Int) else n).natAbs = n := by
    cases negative <;> simp
  rw [withinLimit, decide_eq_true_iff, habs]
  exact h

end Decimal

theorem Numeral.splitDigits_lt : ∀ (cs : List Char), ∀ d ∈ (splitDigits cs).1, d < 10
  | [], _, hd => absurd hd List.not_mem_nil
  | c :: cs, d, hd => by
    rw [splitDigits] at hd
    split at hd
    · rename_i e he
      rcases List.mem_cons.1 hd with rfl | hd
      · exact Decimal.digitValue?_lt he
      · exact splitDigits_lt cs d hd
    · exact absurd hd List.not_mem_nil

namespace Json

/-! ### Words and numbers -/

theorem splitWhole_lt (cs : List Char) : ∀ d ∈ (splitWhole cs).1, d < 10 := by
  unfold splitWhole
  split
  · exact fun d hd => by rw [List.mem_singleton.1 hd]; decide
  · exact Numeral.splitDigits_lt _

theorem isSpelled_zero (negative : Bool) : (Binary64.zero negative).isSpelled = true := rfl

theorem isSpelled_ofParts (negative : Bool) (m : Nat) (e : Int) :
    (Binary64.ofParts negative m e).isSpelled = true := by
  unfold Binary64.ofParts
  split <;> rfl

theorem isSpelled_toBinary64 (negative : Bool) (d : Decimal) :
    (d.toBinary64 negative).isSpelled = true := by
  simp only [Decimal.toBinary64, Binary64.ofRatio]
  repeat' split
  · exact isSpelled_zero negative
  · rfl
  · exact isSpelled_zero negative
  · exact isSpelled_ofParts ..
  · exact isSpelled_ofParts ..

theorem isLegible_readUnsigned {negative : Bool} {cs rest : List Char} {v : Value}
    (h : readUnsigned negative cs = .ok (v, rest)) (depth : Nat) : v.isLegible depth = true := by
  have hlt := splitWhole_lt cs
  unfold readUnsigned at h
  split at h
  · cases h
  · rename_i whole rest' hwhole
    rw [hwhole] at hlt
    split at h
    · split at h
      · rename_i hlength
        obtain ⟨rfl, -⟩ := Prod.mk.inj (Except.ok.inj h)
        exact Value.isLegible_int_iff.2
          (Decimal.withinLimit_signed negative (Decimal.ofDigits_lt hlt hlength))
      · cases h
    -- a fraction or an exponent makes it a double
    · obtain ⟨rfl, -⟩ := Prod.mk.inj (Except.ok.inj h)
      exact Value.isLegible_float_iff.2 (isSpelled_toBinary64 ..)

theorem isLegible_readScalar {cs rest : List Char} {v : Value}
    (h : readScalar cs = .ok (v, rest)) (depth : Nat) : v.isLegible depth = true := by
  unfold readScalar at h
  split at h
  · obtain rfl := Except.ok.inj h
    rename_i hword
    obtain ⟨⟨w, v'⟩, hmem, hw⟩ := List.exists_of_findSome?_eq_some hword
    obtain ⟨rest', -, heq⟩ := Option.map_eq_some_iff.1 hw
    obtain ⟨rfl, -⟩ := Prod.mk.inj heq
    have hwords : ∀ p ∈ words, p.2.isLegible 0 = true := by decide
    exact Value.isLegible_mono _ (Nat.zero_le depth) (hwords _ hmem)
  · unfold readNumber at h
    split at h
    · exact isLegible_readUnsigned h depth
    · exact isLegible_readUnsigned h depth

/-! ### Values -/

/-- What is read with so much fuel is legible. -/
structure ReadsFit (fuel : Nat) : Prop where
  value : ∀ {depth cs v rest}, readValue fuel depth cs = .ok (v, rest) → v.isLegible depth = true
  items : ∀ {depth cs vs rest}, readItems fuel depth cs = .ok (vs, rest) →
    ∀ v ∈ vs, v.isLegible depth = true
  members : ∀ {depth cs members rest}, readMembers fuel depth cs = .ok (members, rest) →
    ∀ p ∈ members, p.1.isText = true ∧ p.2.isLegible depth = true

section Step

variable {fuel depth : Nat} {cs rest : List Char}

theorem ReadsFit.value_succ (h : ReadsFit fuel) {v : Value}
    (hread : readValue (fuel + 1) depth cs = .ok (v, rest)) : v.isLegible depth = true := by
  unfold readValue at hread
  split at hread
  · obtain ⟨⟨s, rest'⟩, -, hread⟩ := bind_eq_ok.1 hread
    obtain ⟨rfl, -⟩ := Prod.mk.inj (Except.ok.inj hread)
    exact Value.isLegible_text s
  · split at hread
    · cases hread
    · split at hread
      · obtain ⟨rfl, -⟩ := Prod.mk.inj (Except.ok.inj hread)
        exact Value.isLegible_list_iff.2 (List.forall_mem_nil _)
      · obtain ⟨⟨items, rest'⟩, hitems, hread⟩ := bind_eq_ok.1 hread
        obtain ⟨rfl, -⟩ := Prod.mk.inj (Except.ok.inj hread)
        exact Value.isLegible_list_iff.2 (h.items hitems)
  · split at hread
    · cases hread
    · split at hread
      · obtain ⟨rfl, -⟩ := Prod.mk.inj (Except.ok.inj hread)
        exact Value.isLegible_object_iff.2 ⟨List.nodup_nil, List.forall_mem_nil _⟩
      · obtain ⟨⟨members, rest'⟩, hmembers, hread⟩ := bind_eq_ok.1 hread
        obtain ⟨rfl, -⟩ := Prod.mk.inj (Except.ok.inj hread)
        exact Value.isLegible_ofPairs (h.members hmembers)
  · exact isLegible_readScalar hread depth

theorem ReadsFit.items_succ (h : ReadsFit fuel) {vs : List Value}
    (hread : readItems (fuel + 1) depth cs = .ok (vs, rest)) : ∀ v ∈ vs, v.isLegible depth = true := by
  unfold readItems at hread
  obtain ⟨⟨v, rest'⟩, hv, hread⟩ := bind_eq_ok.1 hread
  dsimp only at hread
  split at hread
  · obtain ⟨rfl, -⟩ := Prod.mk.inj (Except.ok.inj hread)
    exact List.forall_mem_singleton.2 (h.value hv)
  · obtain ⟨⟨vs', rest''⟩, hvs, hread⟩ := bind_eq_ok.1 hread
    obtain ⟨rfl, -⟩ := Prod.mk.inj (Except.ok.inj hread)
    exact List.forall_mem_cons.2 ⟨h.value hv, h.items hvs⟩
  · cases hread

theorem ReadsFit.members_succ (h : ReadsFit fuel) {members : List (Key × Value)}
    (hread : readMembers (fuel + 1) depth cs = .ok (members, rest)) :
    ∀ p ∈ members, p.1.isText = true ∧ p.2.isLegible depth = true := by
  unfold readMembers at hread
  split at hread
  · obtain ⟨⟨key, rest'⟩, -, hread⟩ := bind_eq_ok.1 hread
    dsimp only at hread
    split at hread
    · obtain ⟨⟨v, rest''⟩, hv, hread⟩ := bind_eq_ok.1 hread
      dsimp only at hread
      split at hread
      · obtain ⟨rfl, -⟩ := Prod.mk.inj (Except.ok.inj hread)
        exact List.forall_mem_singleton.2 ⟨rfl, h.value hv⟩
      · obtain ⟨⟨members', rest3⟩, hmembers, hread⟩ := bind_eq_ok.1 hread
        obtain ⟨rfl, -⟩ := Prod.mk.inj (Except.ok.inj hread)
        exact List.forall_mem_cons.2 ⟨⟨rfl, h.value hv⟩, h.members hmembers⟩
      · cases hread
    · cases hread
  · cases hread

end Step

/-- **What is read is legible**: by induction on the fuel, for values, the items of lists and the
members of objects at once. -/
theorem readsFit (fuel : Nat) : ReadsFit fuel := by
  induction fuel with
  | zero => exact ⟨nofun, nofun, nofun⟩
  | succ fuel ih => exact ⟨ih.value_succ, ih.items_succ, ih.members_succ⟩

/-- **What is parsed can be printed.** -/
theorem isLegible_of_parseBytes {bytes : ByteArray} {v : Value} (h : parseBytes bytes = .ok v) :
    v.isLegible nestingLimit = true := by
  unfold parseBytes at h
  split at h
  · obtain ⟨⟨v', rest⟩, hread, h⟩ := bind_eq_ok.1 h
    dsimp only at h
    split at h
    · obtain rfl := Except.ok.inj h
      exact (readsFit _).value hread
    · cases h
  · cases h

/-- If there are no doubles in it, it is portable too. -/
theorem isPortable_of_parseBytes {bytes : ByteArray} {v : Value} (h : parseBytes bytes = .ok v)
    (hv : v.isDoubleFree = true) : v.isPortable nestingLimit = true :=
  Value.isPortable_iff.2 ⟨isLegible_of_parseBytes h, hv⟩

end Json

end BatteryMonitor
