import BatteryMonitor.Proofs.Decimal
import BatteryMonitor.Proofs.Json.Integer
import BatteryMonitor.Proofs.Json.Portable

/-!
# A double is read as it was written

The digits of a decimal are written with a point among them, or behind the first of them with the
place of it following.  Either text is read as a decimal of the same value
(`Json.spells_positional`, `Json.spells_withExponent`), which is therefore the same double
(`Json.readScalar_render`).
-/

namespace BatteryMonitor

namespace Decimal

/-! ### Digits put together -/

theorem ofDigits_append (ds es : List Nat) :
    ofDigits (ds ++ es) = ofDigits ds * 10 ^ es.length + ofDigits es := by
  induction es using List.reverseRecOn with
  | nil => simp [ofDigits]
  | append_singleton es e ih =>
    rw [← List.append_assoc, ofDigits_concat, ofDigits_concat, ih, List.length_append,
      List.length_singleton, pow_succ]
    ring

theorem ofDigits_zeros (k : Nat) (ds : List Nat) : ofDigits (List.replicate k 0 ++ ds) = ofDigits ds := by
  induction k with
  | zero => rfl
  | succ k ih => exact ih

theorem ofDigits_zero : ofDigits [0] = 0 := rfl

theorem zeros_lt (k : Nat) : ∀ d ∈ List.replicate k 0, d < 10 := fun d hd => by
  rw [List.eq_of_mem_replicate hd]
  decide

theorem zeros_eq (k : Int) : zeros k = (List.replicate k.toNat 0).map digitChar := by
  rw [List.map_replicate]
  rfl

end Decimal

namespace Json

open Decimal

variable {x : Decimal} {cs rest rest' : List Char} {whole fraction ds : List Nat} {place : Int}

/-! ### The parts of a number -/

theorem splitFraction?_map (hds : ∀ d ∈ ds, d < 10) (hne : ds ≠ [])
    (hrest : ∀ c ∈ rest.head?, Decimal.digitValue? c = none) :
    splitFraction? ('.' :: ds.map digitChar ++ rest) = some (ds, rest) := by
  rw [List.cons_append, splitFraction?, Numeral.splitDigits_map hds hrest]
  cases ds with
  | nil => exact absurd rfl hne
  | cons d ds => rfl

theorem splitExponent?_map (negative : Bool) (hds : ∀ d ∈ ds, d < 10) (hne : ds ≠ [])
    (hrest : ∀ c ∈ rest.head?, Decimal.digitValue? c = none) :
    splitExponent? ('e' :: (if negative then '-' else '+') :: (ds.map digitChar ++ rest)) =
      some (if negative then -(ofDigits ds : Int) else ofDigits ds, rest) := by
  have hsign : Numeral.splitSign ((if negative then '-' else '+') :: (ds.map digitChar ++ rest)) =
      (negative, ds.map digitChar ++ rest) := by cases negative <;> rfl
  rw [splitExponent?, if_pos (.inl rfl), hsign]
  dsimp only
  rw [Numeral.splitDigits_map hds hrest]
  cases ds with
  | nil => exact absurd rfl hne
  | cons d ds => rfl

theorem readUnsigned_fraction (negative : Bool) (hwhole : splitWhole cs = (whole, rest))
    (hne : whole ≠ []) (hfraction : splitFraction? rest = some (fraction, rest')) :
    readUnsigned negative cs =
      .ok (.float ((Numeral.decimalOf whole fraction ((splitExponent? rest').getD (0, rest')).1).toBinary64
        negative), ((splitExponent? rest').getD (0, rest')).2) := by
  rw [readUnsigned, hwhole]
  cases whole with
  | nil => exact absurd rfl hne
  | cons d ds => simp [hfraction]

theorem readUnsigned_exponent (negative : Bool) (hwhole : splitWhole cs = (whole, rest))
    (hne : whole ≠ []) (hfraction : splitFraction? rest = none)
    (hexponent : splitExponent? rest = some (place, rest')) :
    readUnsigned negative cs =
      .ok (.float ((Numeral.decimalOf whole [] place).toBinary64 negative), rest') := by
  rw [readUnsigned, hwhole]
  cases whole with
  | nil => exact absurd rfl hne
  | cons d ds => simp [hfraction, hexponent]

/-! ### A decimal -/

/-- The text of a decimal: it starts with a digit, and is read as the double nearest to the decimal. -/
structure Spells (cs : List Char) (x : Decimal) : Prop where
  head : ∃ d cs', d < 10 ∧ cs = digitChar d :: cs'
  read : ∀ negative rest, Ends rest →
    readUnsigned negative (cs ++ rest) = .ok (.float (x.toBinary64 negative), rest)

theorem Spells.point (hwhole : IsWhole whole) (hlt : ∀ d ∈ fraction, d < 10) (hne : fraction ≠ [])
    (hvalue : (Numeral.decimalOf whole fraction 0).value = x.value) :
    Spells (whole.map digitChar ++ '.' :: fraction.map digitChar) x := by
  obtain ⟨d, es, hcons, hd⟩ := hwhole.exists_cons
  refine ⟨⟨d, _, hd, by rw [hcons]; rfl⟩, fun negative rest h => ?_⟩
  have hpoint : ∀ c ∈ ('.' :: fraction.map digitChar ++ rest).head?,
      Decimal.digitValue? c = none := by rintro c ⟨⟩; decide
  have hsplit := hwhole.splitWhole hpoint
  rw [← List.append_assoc] at hsplit
  rw [readUnsigned_fraction negative hsplit (by rw [hcons]; exact List.cons_ne_nil d es)
    (splitFraction?_map hlt hne h.digitValue?), h.split.2, Option.getD_none,
    toBinary64_congr negative hvalue]

theorem Spells.exponent {d : Nat} {ps : List Nat} (below : Bool) (hd : d ≠ 0) (hd10 : d < 10)
    (hlt : ∀ e ∈ ds, e < 10) (hps : ∀ p ∈ ps, p < 10) (hne : ps ≠ [])
    (hvalue : (Numeral.decimalOf [d] ds (if below then -(ofDigits ps : Int) else ofDigits ps)).value =
      x.value) :
    Spells (digitChar d :: (if ds = [] then [] else '.' :: ds.map digitChar) ++
      'e' :: (if below then '-' else '+') :: ps.map digitChar) x := by
  have hwhole : IsWhole [d] := ⟨by simpa using hd10, .inr ⟨d, [], rfl, hd⟩⟩
  refine ⟨⟨d, _, hd10, rfl⟩, fun negative rest h => ?_⟩
  have hexponent := splitExponent?_map below hps hne h.digitValue?
  by_cases hds : ds = []
  · subst hds
    have hletter : ∀ c ∈ ('e' :: (if below then '-' else '+') ::
        (ps.map digitChar ++ rest)).head?, Decimal.digitValue? c = none := by rintro c ⟨⟩; decide
    have hsplit := hwhole.splitWhole hletter
    rw [← toBinary64_congr negative hvalue]
    exact readUnsigned_exponent negative hsplit (List.cons_ne_nil d []) rfl hexponent
  · have hpoint : ∀ c ∈ ('.' :: ds.map digitChar ++ 'e' :: (if below then '-' else '+') ::
        (ps.map digitChar ++ rest)).head?, Decimal.digitValue? c = none := by rintro c ⟨⟩; decide
    have hsplit := hwhole.splitWhole hpoint
    have hread := readUnsigned_fraction negative hsplit (List.cons_ne_nil d [])
      (splitFraction?_map hlt hds (by rintro c ⟨⟩; decide))
    rw [hexponent, Option.getD_some, toBinary64_congr negative hvalue] at hread
    rw [← hread, if_neg hds]
    simp

theorem value_decimalOf {place : Int} (hdigits : ofDigits (whole ++ fraction) = x.significand)
    (hplace : place - fraction.length = x.exponent) :
    (Numeral.decimalOf whole fraction place).value = x.value := by
  rw [Numeral.decimalOf, hdigits, hplace]

theorem spells_zerosBehind (hx : x.significand ≠ 0) (hexponent : 0 ≤ x.exponent) :
    Spells (digits x.significand ++ zeros x.exponent ++ ['.', '0']) x := by
  obtain ⟨k, hk⟩ := Int.eq_ofNat_of_zero_le hexponent
  obtain ⟨d, ds, hplaces, hd⟩ := places_head hx
  have hwhole : IsWhole (places x.significand ++ List.replicate k 0) :=
    ⟨List.forall_mem_append.2 ⟨places_lt _, zeros_lt k⟩,
      .inr ⟨d, ds ++ List.replicate k 0, by rw [hplaces]; rfl, hd⟩⟩
  have hvalue : (Numeral.decimalOf (places x.significand ++ List.replicate k 0) [0] 0).value =
      x.value := by
    rw [Numeral.decimalOf, List.append_assoc, ofDigits_append, ofDigits_zeros, ofDigits_places, value,
      value, hk]
    simp [ofDigits, pow_succ, mul_assoc]
  have hspells := Spells.point hwhole (by decide) (by decide) hvalue
  rw [List.map_append] at hspells
  rw [digits_eq, zeros_eq, hk]
  exact hspells

theorem spells_pointAmong (hx : x.significand ≠ 0) {w : Nat}
    (hw : x.exponent + (places x.significand).length = w) (hpos : 0 < w)
    (hlt : w < (places x.significand).length) :
    Spells ((digits x.significand).take w ++ '.' :: (digits x.significand).drop w) x := by
  obtain ⟨d, ds, hplaces, hd⟩ := places_head hx
  have hwhole : IsWhole ((places x.significand).take w) := by
    refine ⟨fun d hd => places_lt _ d (List.mem_of_mem_take hd), .inr ⟨d, ds.take (w - 1), ?_, hd⟩⟩
    rw [hplaces, List.take_cons hpos]
  have hfraction : ∀ d ∈ (places x.significand).drop w, d < 10 := fun d hd =>
    places_lt _ d (List.mem_of_mem_drop hd)
  have hne : (places x.significand).drop w ≠ [] := by
    rw [Ne, List.drop_eq_nil_iff]
    omega
  rw [digits_eq, ← List.map_take, ← List.map_drop]
  refine Spells.point hwhole hfraction hne (value_decimalOf ?_ ?_)
  · rw [List.take_append_drop, ofDigits_places]
  · rw [List.length_drop]
    omega

theorem spells_zerosBefore {k : Nat} (hk : x.exponent + (places x.significand).length = -k) :
    Spells ('0' :: '.' :: (zeros k ++ digits x.significand)) x := by
  have hzero : IsWhole [0] := ⟨by decide, .inl rfl⟩
  have hfraction : ∀ d ∈ List.replicate k 0 ++ places x.significand, d < 10 :=
    List.forall_mem_append.2 ⟨zeros_lt k, places_lt _⟩
  have hne : List.replicate k 0 ++ places x.significand ≠ [] :=
    List.append_ne_nil_of_right_ne_nil _ (places_ne_nil x.significand)
  have hspells := Spells.point (x := x) hzero hfraction hne (value_decimalOf ?_ ?_)
  · rw [List.map_append] at hspells
    rw [digits_eq, zeros_eq]
    exact hspells
  · rw [ofDigits_append, ofDigits_zeros, ofDigits_places, ofDigits_zero, Nat.zero_mul, Nat.zero_add]
  · rw [List.length_append, List.length_replicate]
    omega

/-- **A decimal written around a point is read as what it stands for.** -/
theorem spells_positional (hx : x.significand ≠ 0) : Spells (positional x) x := by
  have hlength : (digits x.significand).length = (places x.significand).length := by
    rw [digits_eq, List.length_map]
  unfold positional
  dsimp only
  rw [hlength]
  split
  · exact spells_zerosBehind hx ‹_›
  · split
    · obtain ⟨w, hw⟩ := Int.eq_ofNat_of_zero_le (Int.le_of_lt ‹_›)
      rw [hw, Int.toNat_natCast]
      exact spells_pointAmong hx hw (by omega) (by omega)
    · obtain ⟨k, hk⟩ := Int.eq_ofNat_of_zero_le (a := -(x.exponent + (places x.significand).length))
        (by omega)
      rw [hk]
      exact spells_zerosBefore (by omega)

/-- **A decimal written with an exponent is read as what it stands for.** -/
theorem spells_withExponent (hx : x.significand ≠ 0) : Spells (withExponent x) x := by
  have hlt := places_lt x.significand
  have hofDigits := ofDigits_places x.significand
  obtain ⟨d, ds, hplaces, hd⟩ := places_head hx
  rw [hplaces] at hlt hofDigits
  unfold withExponent
  simp only [digits_eq, zeros_eq, List.length_map, hplaces]
  generalize hplace : x.exponent + ((d :: ds).length : Int) - 1 = place
  have hps : ofDigits (List.replicate (2 - ((places place.natAbs).length : Int)).toNat 0 ++
      places place.natAbs) = place.natAbs := by rw [ofDigits_zeros, ofDigits_places]
  generalize hks : (2 - ((places place.natAbs).length : Int)).toNat = k at hps ⊢
  have hpadded : ∀ e ∈ List.replicate k 0 ++ places place.natAbs, e < 10 :=
    List.forall_mem_append.2 ⟨zeros_lt k, places_lt _⟩
  have hspells := Spells.exponent (x := x) (decide (place < 0)) hd (hlt d List.mem_cons_self)
    (fun e he => hlt e (List.mem_cons_of_mem d he)) hpadded
    (List.append_ne_nil_of_right_ne_nil _ (places_ne_nil _)) (value_decimalOf hofDigits ?_)
  · cases ds with
    | nil => simpa using hspells
    | cons e es => simpa using hspells
  · rw [hps]
    simp only [decide_eq_true_eq, List.length_cons] at hplace ⊢
    split <;> omega

theorem spells_decimal (style : Style) (hx : x.significand ≠ 0) : Spells (style.decimal x) x := by
  unfold Style.decimal
  dsimp only
  split
  · exact spells_positional hx
  · exact spells_withExponent hx

/-! ### Doubles -/

theorem exists_spells {m : Nat} {e : Int} (hcanonical : Binary64.Canonical m e) :
    ∃ cs x, Spells cs x ∧ ∀ negative, x.toBinary64 negative = .finite negative m e hcanonical ∧
      (doubleStyle.render (.finite negative m e hcanonical)).toList =
        if negative then '-' :: cs else cs := by
  by_cases hm : m = 0
  · subst hm
    obtain rfl : e = -1074 := hcanonical.2.2.2.resolve_left (by decide)
    have hzero : IsWhole [0] := ⟨by decide, .inl rfl⟩
    have hfraction : ∀ d ∈ [0], d < 10 := by decide
    have hspells : Spells ['0', '.', '0'] ⟨0, -1⟩ :=
      Spells.point hzero hfraction (List.cons_ne_nil 0 []) rfl
    refine ⟨_, _, hspells, fun negative => ⟨rfl, ?_⟩⟩
    rw [Style.render, if_pos rfl, String.toList_ofList]
  · have hread (negative : Bool) := toBinary64_shortest negative hcanonical hm
    have hsignificand : (shortest (m * Nat.pow 2 e.toNat) (Nat.pow 2 (-e).toNat)).significand ≠ 0 :=
      significand_ne_zero hm (hread false)
    refine ⟨_, _, spells_decimal doubleStyle hsignificand, fun negative => ⟨hread negative, ?_⟩⟩
    rw [Style.render]
    simp only [if_neg hm, String.toList_ofList]

/-- **A double is read as it was written.** -/
theorem readScalar_render {x : Binary64} (hx : x.isSpelled = true) (h : Ends rest) :
    readScalar ((doubleStyle.render x).toList ++ rest) = .ok (.float x, rest) := by
  cases x with
  | finite negative m e hcanonical =>
    obtain ⟨cs, x, hspells, hread⟩ := exists_spells hcanonical
    obtain ⟨hdouble, htext⟩ := hread negative
    have hhead : ∃ d cs', d < 10 ∧ cs ++ rest = digitChar d :: cs' := by
      obtain ⟨d, cs', hd, rfl⟩ := hspells.head
      exact ⟨d, cs' ++ rest, hd, rfl⟩
    have hscalar := readScalar_signed negative hhead
    rw [hspells.read negative rest h, hdouble] at hscalar
    rw [htext, ← hscalar]
    split <;> rfl
  | infinite negative => cases negative <;> rfl
  | nan tag =>
    obtain rfl : tag = 0 := eq_of_beq hx
    rfl

theorem exists_render_cons (x : Binary64) : ∃ c cs, (doubleStyle.render x).toList = c :: cs ∧
    (c = '-' ∨ c = 'I' ∨ c = 'N' ∨ ∃ d < 10, c = digitChar d) := by
  cases x with
  | finite negative m e hcanonical =>
    obtain ⟨cs, x, hspells, hread⟩ := exists_spells hcanonical
    obtain ⟨d, cs', hd, rfl⟩ := hspells.head
    rw [(hread negative).2]
    cases negative with
    | true => exact ⟨'-', _, rfl, .inl rfl⟩
    | false => exact ⟨_, cs', rfl, .inr (.inr (.inr ⟨d, hd, rfl⟩))⟩
  | infinite negative =>
    cases negative with
    | true => exact ⟨'-', _, rfl, .inl rfl⟩
    | false => exact ⟨'I', _, rfl, .inr (.inl rfl)⟩
  | nan tag => exact ⟨'N', ['a', 'N'], by rw [Style.render]; rfl, .inr (.inr (.inl rfl))⟩

end Json

end BatteryMonitor
