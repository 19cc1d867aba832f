import BatteryMonitor.Json.Printer
import BatteryMonitor.Json.Reader

/-!
# An integer is read as it was written

The digits of a number are the places of its value (`Decimal.places`), and `Decimal.ofDigits` puts
them together again.  There are as many of them as the number has room for, and none of them but a
single one starts with a zero, so that what `Json.printInteger` writes is read as the same integer
(`Json.readScalar_printInteger`), provided that the text goes on with something that is no part of a
number (`Json.Ends`).
-/

namespace BatteryMonitor

namespace Decimal

variable {n : Nat}

/-! ### Places -/

/-- The values of the digits of `n`, the most significant first. -/
def places (n : Nat) : List Nat :=
  if n < 10 then [n] else places (n / 10) ++ [n % 10]
termination_by n

theorem digitsOnto_eq (n : Nat) (rest : List Char) :
    digitsOnto n rest = (places n).map digitChar ++ rest := by
  fun_induction digitsOnto n rest with
  | case1 n rest h => rw [places, if_pos h]; rfl
  | case2 n rest h ih => rw [places, if_neg h, ih, List.map_append, List.append_assoc]; rfl

theorem places_lt (n : Nat) : ∀ d ∈ places n, d < 10 := by
  fun_induction places n with
  | case1 n h => simpa using h
  | case2 n h ih =>
    intro d hd
    rcases List.mem_append.1 hd with hd | hd
    · exact ih d hd
    · rw [List.mem_singleton.1 hd]
      omega

theorem digits_eq (n : Nat) : digits n = (places n).map digitChar := by
  rw [digits, digitsOnto_eq, List.append_nil]

theorem ofDigits_concat (ds : List Nat) (d : Nat) :
    ofDigits (ds ++ [d]) = 10 * ofDigits ds + d := by
  rw [ofDigits, List.foldl_append]
  rfl

/-- **The places of a number make up the number.** -/
theorem ofDigits_places (n : Nat) : ofDigits (places n) = n := by
  fun_induction places n with
  | case1 n h => simp [ofDigits]
  | case2 n h ih => rw [ofDigits_concat, ih]; omega

theorem places_ne_nil (n : Nat) : places n ≠ [] := by
  unfold places
  split <;> simp

theorem places_head (h : n ≠ 0) : ∃ d ds, places n = d :: ds ∧ d ≠ 0 := by
  fun_induction places n with
  | case1 n hn => exact ⟨n, [], rfl, h⟩
  | case2 n hn ih =>
    obtain ⟨d, ds, heq, hd⟩ := ih (by omega)
    exact ⟨d, ds ++ [n % 10], by rw [heq]; rfl, hd⟩

theorem length_places_le {k : Nat} (hk : 0 < k) (h : n < Nat.pow 10 k) :
    (places n).length ≤ k := by
  induction k generalizing n with
  | zero => exact absurd hk (Nat.lt_irrefl 0)
  | succ k ih =>
    have hpow : Nat.pow 10 (k + 1) = Nat.pow 10 k * 10 := rfl
    rw [places]
    split
    · exact Nat.le_add_left 1 k
    · rename_i hn
      cases k with
      | zero => exact absurd h (by omega)
      | succ k =>
        rw [List.length_append]
        exact Nat.succ_le_succ (ih (Nat.succ_pos k) (by omega))

theorem withinLimit_of_le {n : Int} {k : Nat} (hk : k ≤ 1024) (h : n.natAbs ≤ Nat.pow 2 k) :
    withinLimit n = true := by
  have hlimit : k < digitLimit := Nat.lt_of_le_of_lt hk (by decide)
  unfold withinLimit
  generalize digitLimit = limit at hlimit
  have hpow : Nat.pow 2 k < Nat.pow 10 limit :=
    Nat.lt_of_le_of_lt (Nat.pow_le_pow_left (by decide) k)
      (Nat.pow_lt_pow_right (by decide) hlimit)
  exact decide_eq_true (Nat.lt_of_le_of_lt h hpow)

theorem digitValue?_digitChar {d : Nat} (h : d < 10) : digitValue? (digitChar d) = some d :=
  (by decide : ∀ d : Fin 10, digitValue? (digitChar d) = some d.val) ⟨d, h⟩

end Decimal

theorem Numeral.splitDigits_map {ds : List Nat} {rest : List Char} (hds : ∀ d ∈ ds, d < 10)
    (hrest : ∀ c ∈ rest.head?, Decimal.digitValue? c = none) :
    splitDigits (ds.map Decimal.digitChar ++ rest) = (ds, rest) := by
  induction ds with
  | nil =>
    cases rest with
    | nil => rfl
    | cons c rest => simp [splitDigits, hrest c rfl]
  | cons d ds ih =>
    simp only [List.map_cons, List.cons_append, splitDigits,
      Decimal.digitValue?_digitChar (hds d List.mem_cons_self),
      ih fun e he => hds e (List.mem_cons_of_mem _ he)]

namespace Json

open Decimal

variable {n : Int} {rest : List Char}

/-- Nothing follows that could belong to a number: the text is over, or goes on with a comma or a
new line. -/
def Ends (rest : List Char) : Prop := ∀ c ∈ rest.head?, c = ',' ∨ c = '\n'

theorem ends_nil : Ends [] := nofun

theorem ends_cons {c : Char} (h : c = ',' ∨ c = '\n') : Ends (c :: rest) :=
  fun _ hc => by cases hc; exact h

theorem Ends.digitValue? (h : Ends rest) : ∀ c ∈ rest.head?, Decimal.digitValue? c = none := by
  intro c hc
  rcases h c hc with rfl | rfl <;> decide

theorem Ends.split (h : Ends rest) : splitFraction? rest = none ∧ splitExponent? rest = none := by
  cases rest with
  | nil => exact ⟨rfl, rfl⟩
  | cons c rest => rcases h c rfl with rfl | rfl <;> exact ⟨rfl, rfl⟩

/-- Digits that may stand before a point: a zero alone, or digits that start with none. -/
structure IsWhole (ds : List Nat) : Prop where
  lt : ∀ d ∈ ds, d < 10
  head : ds = [0] ∨ ∃ d es, ds = d :: es ∧ d ≠ 0

theorem IsWhole.exists_cons {ds : List Nat} (h : IsWhole ds) : ∃ d es, ds = d :: es ∧ d < 10 := by
  rcases h.head with rfl | ⟨d, es, rfl, -⟩
  · exact ⟨0, [], rfl, by decide⟩
  · exact ⟨d, es, rfl, h.lt d List.mem_cons_self⟩

theorem isWhole_places (n : Nat) : IsWhole (places n) := by
  refine ⟨places_lt n, ?_⟩
  by_cases hn : n = 0
  · subst hn
    exact .inl (by rw [places]; rfl)
  · exact .inr (places_head hn)

theorem IsWhole.splitWhole {ds : List Nat} (h : IsWhole ds)
    (hrest : ∀ c ∈ rest.head?, Decimal.digitValue? c = none) :
    splitWhole (ds.map digitChar ++ rest) = (ds, rest) := by
  rcases h.head with rfl | ⟨d, es, rfl, hd⟩
  · rfl
  · have hzero : digitChar d ≠ '0' :=
      (by decide : ∀ d : Fin 10, d.val ≠ 0 → digitChar d ≠ '0') ⟨d, h.lt d List.mem_cons_self⟩ hd
    rw [← Numeral.splitDigits_map h.lt hrest, List.map_cons, List.cons_append, Json.splitWhole]
    exact fun _ hcons => hzero (List.head_eq_of_cons_eq hcons)

theorem readUnsigned_digits (negative : Bool) {n : Nat} (hn : (places n).length ≤ digitLimit)
    (h : Ends rest) : readUnsigned negative (digits n ++ rest) =
      .ok (.int (if negative then -n else n), rest) := by
  rw [readUnsigned, digits_eq, (isWhole_places n).splitWhole h.digitValue?]
  cases hplaces : places n with
  | nil => exact absurd hplaces (places_ne_nil n)
  | cons d ds =>
    rw [hplaces] at hn
    simp only [h.split.1, Option.map_none, Option.getD_none, h.split.2, if_pos hn]
    rw [← hplaces, ofDigits_places]

theorem exists_digits_cons (n : Nat) : ∃ d cs, d < 10 ∧ digits n = digitChar d :: cs := by
  obtain ⟨d, es, hplaces, hd⟩ := (isWhole_places n).exists_cons
  exact ⟨d, es.map digitChar, hd, by rw [digits_eq, hplaces]; rfl⟩

theorem readWord?_digit {d : Nat} (hd : d < 10) (cs : List Char) :
    readWord? (digitChar d :: cs) = none ∧ readWord? ('-' :: digitChar d :: cs) = none := by
  have hletter : ∀ d : Fin 10, 'n' ≠ digitChar d ∧ 't' ≠ digitChar d ∧ 'f' ≠ digitChar d ∧
      'N' ≠ digitChar d ∧ 'I' ≠ digitChar d ∧ '-' ≠ digitChar d := by decide
  obtain ⟨hn, ht, hf, hN, hI, hminus⟩ := hletter ⟨d, hd⟩
  constructor <;> simp [readWord?, words, word?, hn, ht, hf, hN, hI, hminus]

theorem readScalar_signed (negative : Bool) {cs : List Char}
    (hcs : ∃ d cs', d < 10 ∧ cs = digitChar d :: cs') :
    readScalar (if negative then '-' :: cs else cs) = readUnsigned negative cs := by
  obtain ⟨d, cs, hd, rfl⟩ := hcs
  obtain ⟨hword, hword'⟩ := readWord?_digit hd cs
  cases negative with
  | true =>
    rw [if_pos rfl, readScalar, hword']
    rfl
  | false =>
    have hminus : digitChar d ≠ '-' :=
      (by decide : ∀ d : Fin 10, digitChar d ≠ '-') ⟨d, hd⟩
    rw [if_neg Bool.false_ne_true, readScalar, hword]
    dsimp only
    rw [readNumber]
    exact fun _ hcons => hminus (List.head_eq_of_cons_eq hcons)

/-- **An integer is read as it was written.** -/
theorem readScalar_printInteger {cs : List Char} (hprint : printInteger n = .ok cs)
    (h : Ends rest) : readScalar (cs ++ rest) = .ok (.int n, rest) := by
  unfold printInteger at hprint
  split at hprint
  · rename_i hlimit
    obtain rfl := Except.ok.inj hprint
    have hlength : (places n.natAbs).length ≤ digitLimit :=
      length_places_le (by decide) (of_decide_eq_true hlimit)
    have hdigit : ∃ d cs', d < 10 ∧ digits n.natAbs ++ rest = digitChar d :: cs' := by
      obtain ⟨d, cs, hd, hdigits⟩ := exists_digits_cons n.natAbs
      exact ⟨d, cs ++ rest, hd, by rw [hdigits]; rfl⟩
    have hread := (readScalar_signed (decide (n < 0)) hdigit).trans
      (readUnsigned_digits _ hlength h)
    have hn : (if decide (n < 0) = true then -(n.natAbs : Int) else n.natAbs) = n := by
      split
      · rename_i hneg
        have := of_decide_eq_true hneg
        omega
      · rename_i hpos
        have := of_decide_eq_false (Bool.eq_false_iff.2 hpos)
        omega
    rw [hn] at hread
    rw [← hread, signedDigits]
    simp only [decide_eq_true_eq]
    split <;> rfl
  · cases hprint

end Json

end BatteryMonitor
