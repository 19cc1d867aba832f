import BatteryMonitor.Json.Escape
import BatteryMonitor.Proofs.Text

/-!
# A string is read as it was written

`Json.encode` escapes every character that is not a plain one, and those beyond `0xffff` by two
halves.  What stands for a code point is read as its code units (`Json.pointUnits`), one of them or
two (`Json.codePoints?_encodePoint`), and the units of the code points of a text are joined to the
same code points again (`Json.joinHalves_flatMap`): a character is never half of a pair itself, and
the halves of a pair are not side by side in a text, so that two halves side by side always belong
together.  Hence `Json.decode_encode`, for any text whatever.
-/

namespace BatteryMonitor.Json

variable {n : Nat} {c : Char}

/-! ### Hexadecimal digits -/

theorem hexValue?_hexDigit {d : Nat} (h : d < 16) : hexValue? (Text.hexDigit d) = some d :=
  (by decide : ∀ d : Fin 16, hexValue? (Text.hexDigit d) = some d.val) ⟨d, h⟩

theorem hexValues?_hexDigits (h : n < 0x10000) : ∃ a b c d,
    Text.hexDigits 4 n = [a, b, c, d] ∧ hexValues? a b c d = some n := by
  refine ⟨_, _, _, _, rfl, ?_⟩
  have hlast (m : Nat) : hexValue? (Text.hexDigit (m % 16)) = some (m % 16) :=
    hexValue?_hexDigit (Nat.mod_lt m (by decide))
  simp only [hexValues?, hlast, Option.bind_eq_bind, Option.bind_some, Option.pure_def,
    Option.some.injEq]
  omega

/-! ### One character -/

theorem toNat_valid (c : Char) : c.toNat < 0xd800 ∨ 0xdfff < c.toNat ∧ c.toNat < 0x110000 :=
  c.valid

/-- The code units of a character: itself, or the two halves of a pair. -/
def units (c : Char) : List Nat :=
  if c.toNat < 0x10000 then [c.toNat]
  else [0xd800 + (c.toNat - 0x10000) / 0x400, 0xdc00 + (c.toNat - 0x10000) % 0x400]

/-- The code units of a code point. -/
def pointUnits : CodePoint → List Nat
  | .char c => units c
  | .half index => [(CodePoint.half index).toNat]

theorem codePoints?_unicodeEscape (h : n < 0x10000) (tail : List Char) :
    codePoints? (unicodeEscape n ++ tail) =
      (codePoints? tail).map fun (ns, rest) => (n :: ns, rest) := by
  obtain ⟨a, b, c, d, hdigits, hvalue⟩ := hexValues?_hexDigits h
  simp only [unicodeEscape, hdigits, List.cons_append, List.nil_append, codePoints?, hvalue,
    Option.bind_eq_bind, Option.bind_some]
  cases codePoints? tail <;> rfl

theorem codePoints?_short {e : Char} (hu : c ≠ 'u') (he : shortEscape? c = some e)
    (tail : List Char) : codePoints? ('\\' :: c :: tail) =
      (codePoints? tail).map fun (ns, rest) => (e.toNat :: ns, rest) := by
  rw [codePoints?]
  · simp only [he, Option.bind_eq_bind, Option.bind_some]
    cases codePoints? tail <;> rfl
  · intro a b c' d rest heq _
    exact hu heq

theorem codePoints?_plain (hquote : c ≠ '"') (hslash : c ≠ '\\') (hlow : 0x20 ≤ c.toNat)
    (tail : List Char) : codePoints? (c :: tail) =
      (codePoints? tail).map fun (ns, rest) => (c.toNat :: ns, rest) := by
  rw [codePoints?]
  · rw [if_neg (not_or.2 ⟨hslash, Nat.not_lt.2 hlow⟩)]
    cases codePoints? tail <;> rfl
  · exact fun h => hquote h
  · exact fun _ _ _ _ _ h _ => hslash h
  · exact fun _ _ h _ => hslash h

/-- **What stands for a character is read as its units.** -/
theorem codePoints?_encodeChar (c : Char) (tail : List Char) :
    codePoints? (encodeChar c ++ tail) =
      (codePoints? tail).map fun (ns, rest) => (units c ++ ns, rest) := by
  have hunits (h : c.toNat < 0x10000) : units c = [c.toNat] := if_pos h
  unfold encodeChar
  split
  · subst c; exact codePoints?_short (by decide) (by decide) tail
  rename_i hquote
  split
  · subst c; exact codePoints?_short (by decide) (by decide) tail
  rename_i hslash
  split
  · subst c; exact codePoints?_short (by decide) (by decide) tail
  split
  · subst c; exact codePoints?_short (by decide) (by decide) tail
  split
  · subst c; exact codePoints?_short (by decide) (by decide) tail
  split
  · subst c; exact codePoints?_short (by decide) (by decide) tail
  split
  · subst c; exact codePoints?_short (by decide) (by decide) tail
  split
  · rename_i hplain
    rw [hunits (by omega)]
    exact codePoints?_plain hquote hslash hplain.1 tail
  split
  · rename_i hone
    rw [hunits hone]
    exact codePoints?_unicodeEscape hone tail
  · rename_i htwo
    have hvalid := toNat_valid c
    rw [units, if_neg htwo, List.append_assoc, codePoints?_unicodeEscape (by omega),
      codePoints?_unicodeEscape (by omega), Option.map_map]
    rfl

theorem codePoints?_encodePoint (p : CodePoint) (tail : List Char) :
    codePoints? (encodePoint p ++ tail) =
      (codePoints? tail).map fun (ns, rest) => (pointUnits p ++ ns, rest) := by
  cases p with
  | char c => exact codePoints?_encodeChar c tail
  | half index =>
    have hindex := index.isLt
    exact codePoints?_unicodeEscape (by rw [CodePoint.toNat]; omega) tail

/-! ### Joining the halves -/

theorem not_half (c : Char) : isHighHalf c.toNat = false ∧ isLowHalf c.toNat = false := by
  have hvalid := toNat_valid c
  simp only [isHighHalf, isLowHalf, Bool.and_eq_false_iff, decide_eq_false_iff_not]
  omega

theorem pointOf_toNat (p : CodePoint) : pointOf p.toNat = p := by
  cases p with
  | char c =>
    have hvalid := toNat_valid c
    rw [pointOf, dif_neg (by rw [CodePoint.toNat]; omega)]
    exact congrArg CodePoint.char (Char.ofNat_toNat c)
  | half index =>
    have hindex := index.isLt
    rw [pointOf, dif_pos (by rw [CodePoint.toNat]; omega)]
    exact congrArg CodePoint.half (Fin.ext (Nat.add_sub_cancel_left ..))

/-- **The units of a character are joined to the character.** -/
theorem joinHalves_units (c : Char) (ns : List Nat) :
    joinHalves (units c ++ ns) = .char c :: joinHalves ns := by
  unfold units
  split
  · have hpoint : pointOf c.toNat = .char c := pointOf_toNat (.char c)
    cases ns with
    | nil => rw [List.append_nil, joinHalves, hpoint]; rfl
    | cons m ns =>
      rw [List.singleton_append, joinHalves, (not_half c).1, Bool.false_and]
      exact congrArg (· :: _) hpoint
  · rename_i htwo
    have hvalid := toNat_valid c
    have hhigh : isHighHalf (0xd800 + (c.toNat - 0x10000) / 0x400) = true := by
      simp only [isHighHalf, Bool.and_eq_true, decide_eq_true_eq]
      omega
    have hlow : isLowHalf (0xdc00 + (c.toNat - 0x10000) % 0x400) = true := by
      simp only [isLowHalf, Bool.and_eq_true, decide_eq_true_eq]
      omega
    have hpair : charOfPair (0xd800 + (c.toNat - 0x10000) / 0x400)
        (0xdc00 + (c.toNat - 0x10000) % 0x400) = c := by
      rw [charOfPair, show 0x10000 + (0xd800 + (c.toNat - 0x10000) / 0x400 - 0xd800) * 0x400 +
        (0xdc00 + (c.toNat - 0x10000) % 0x400 - 0xdc00) = c.toNat by omega]
      exact Char.ofNat_toNat c
    rw [List.cons_append, List.singleton_append, joinHalves, hhigh, hlow, hpair]
    rfl

theorem exists_pointUnits (p : CodePoint) : ∃ n ns, pointUnits p = n :: ns ∧
    (isLowHalf n = true → ∃ index : Fin 0x800, p = .half index ∧ 0x400 ≤ index.val) := by
  cases p with
  | char c =>
    rw [pointUnits, units]
    split
    · refine ⟨_, _, rfl, fun hlow => ?_⟩
      rw [(not_half c).2] at hlow
      cases hlow
    · refine ⟨_, _, rfl, fun hlow => ?_⟩
      have hvalid := toNat_valid c
      simp only [isLowHalf, Bool.and_eq_true, decide_eq_true_eq] at hlow
      omega
  | half index =>
    refine ⟨_, _, rfl, fun hlow => ⟨index, rfl, ?_⟩⟩
    simp only [isLowHalf, Bool.and_eq_true, decide_eq_true_eq] at hlow
    rw [CodePoint.toNat] at hlow
    omega

/-- A half that does not make a pair with what follows is kept. -/
theorem joinHalves_half {index : Fin 0x800} {p : CodePoint}
    (h : CodePoint.arePair (.half index) p = false) (ns : List Nat) :
    joinHalves ((CodePoint.half index).toNat :: (pointUnits p ++ ns)) =
      .half index :: joinHalves (pointUnits p ++ ns) := by
  obtain ⟨n, tail, hunits, hlow⟩ := exists_pointUnits p
  have hpair : (isHighHalf (CodePoint.half index).toNat && isLowHalf n) = false := by
    rw [Bool.eq_false_iff]
    intro htrue
    obtain ⟨hhigh, hn⟩ := (Bool.and_eq_true _ _).mp htrue
    obtain ⟨low, rfl, hle⟩ := hlow hn
    simp only [isHighHalf, Bool.and_eq_true, decide_eq_true_eq] at hhigh
    simp only [CodePoint.arePair, Bool.and_eq_false_iff, decide_eq_false_iff_not] at h
    rw [CodePoint.toNat] at hhigh
    omega
  rw [hunits, List.cons_append, joinHalves, hpair, pointOf_toNat]
  rfl

/-! ### Texts -/

theorem codePoints?_flatMap (points : List CodePoint) (rest : List Char) :
    codePoints? (points.flatMap encodePoint ++ '"' :: rest) =
      some (points.flatMap pointUnits, rest) := by
  induction points with
  | nil => rfl
  | cons p points ih =>
    rw [List.flatMap_cons, List.append_assoc, codePoints?_encodePoint, ih]
    rfl

theorem joinHalves_flatMap {points : List CodePoint} (h : CodePoint.areJoined points = true) :
    joinHalves (points.flatMap pointUnits) = points := by
  induction points with
  | nil => rfl
  | cons p points ih =>
    cases p with
    | char c =>
      rw [CodePoint.areJoined_char_cons] at h
      rw [List.flatMap_cons, pointUnits, joinHalves_units, ih h]
    | half index =>
      cases points with
      | nil => exact congrArg (fun p => [p]) (pointOf_toNat (.half index))
      | cons p points =>
        rw [CodePoint.areJoined, Bool.and_eq_true, Bool.not_eq_true'] at h
        rw [List.flatMap_cons, List.flatMap_cons, pointUnits, List.singleton_append,
          joinHalves_half h.1, ← List.flatMap_cons, ih h.2]

/-- **A text is read as it was written**: behind the opening quote, up to the closing one. -/
theorem decode_encode (t : Text) (rest : List Char) :
    decode (t.points.flatMap encodePoint ++ '"' :: rest) = some (t, rest) := by
  rw [decode, codePoints?_flatMap, Option.map_some]
  refine congrArg (fun t => some (t, rest)) (Text.ofPoints_eq ?_)
  exact joinHalves_flatMap t.areJoined_points

end BatteryMonitor.Json
