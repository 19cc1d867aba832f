import BatteryMonitor.Decimal.Numeral
import BatteryMonitor.Proofs.Json.Integer

/-!
# A numeral is read as the integer it was made of

A reader of numerals puts up with blanks around them, with signs, with scores between digits and with
the digits of any script.  The digits that an integer is written with are none of these but themselves
(`Numeral.signedDigits_plain`), so that the integer is read back (`Numeral.integer?_signedDigits`).
-/

namespace BatteryMonitor

theorem Text.trimBy_eq_self {class? : Char → Bool} {cs : List Char}
    (h : ∀ c ∈ cs, class? c = false) : trimBy class? cs = cs := by
  have hdrop (ds : List Char) (hds : ∀ c ∈ ds, c ∈ cs) : ds.dropWhile class? = ds := by
    cases ds with
    | nil => rfl
    | cons d ds => rw [List.dropWhile_cons_of_neg (by simp [h d (hds d List.mem_cons_self)])]
  rw [trimBy, hdrop cs fun _ => id, hdrop _ fun c => List.mem_reverse.1, List.reverse_reverse]

theorem Text.exists_trimBy_cons {class? : Char → Bool} {c : Char} (h : class? c = false)
    (cs : List Char) : ∃ rest, trimBy class? (c :: cs) = c :: rest := by
  have hback : ∃ front, (cs.reverse ++ [c]).dropWhile class? = front ++ [c] := by
    rw [List.dropWhile_append]
    split
    · exact ⟨[], List.dropWhile_cons_of_neg (by simp [h])⟩
    · exact ⟨_, rfl⟩
  obtain ⟨front, hfront⟩ := hback
  refine ⟨front.reverse, ?_⟩
  rw [trimBy, List.dropWhile_cons_of_neg (by simp [h]), List.reverse_cons, hfront,
    List.reverse_append, List.reverse_singleton, List.singleton_append]

namespace Numeral

theorem signedDigits_plain (n : Int) : ∀ c ∈ Decimal.signedDigits n,
    Text.isBlank c = false ∧ ∀ d, Text.digitValue? c = some d → Decimal.digitChar d = c := by
  have hdigit : ∀ d : Fin 10, Text.isBlank (Decimal.digitChar d) = false ∧
      Text.digitValue? (Decimal.digitChar d) = some d.val := by decide
  have hdigits : ∀ c ∈ Decimal.digits n.natAbs,
      Text.isBlank c = false ∧ ∀ d, Text.digitValue? c = some d → Decimal.digitChar d = c := by
    intro c hc
    rw [Decimal.digits_eq] at hc
    obtain ⟨d, hd, rfl⟩ := List.mem_map.1 hc
    obtain ⟨hblank, hvalue⟩ := hdigit ⟨d, Decimal.places_lt _ d hd⟩
    refine ⟨hblank, fun e he => ?_⟩
    rw [Option.some.inj (he.symm.trans hvalue)]
  intro c hc
  unfold Decimal.signedDigits at hc
  split at hc
  · rcases List.mem_cons.1 hc with rfl | hc
    · exact ⟨by decide, fun d hd => absurd hd (by decide +revert)⟩
    · exact hdigits c hc
  · exact hdigits c hc

theorem digitRun?_map {ds : List Nat} (hne : ds ≠ []) (hds : ∀ d ∈ ds, d < 10) :
    digitRun? (ds.map Decimal.digitChar) = some ds := by
  induction ds with
  | nil => exact absurd rfl hne
  | cons d ds ih =>
    have hd := Decimal.digitValue?_digitChar (hds d List.mem_cons_self)
    cases ds with
    | nil => simp [digitRun?, hd]
    | cons e es =>
      have hscore : Decimal.digitChar e ≠ '_' :=
        (by decide : ∀ e : Fin 10, Decimal.digitChar e ≠ '_') ⟨e, hds e (by simp)⟩
      have hrest := ih (by simp) fun x hx => hds x (List.mem_cons_of_mem _ hx)
      rw [List.map_cons] at hrest
      rw [List.map_cons, List.map_cons, digitRun?, hd, hrest]
      · rfl
      · simp
      · simpa using hscore

theorem characters_signedDigits (n : Int) :
    characters (Text.trim (String.ofList (Decimal.signedDigits n))) = Decimal.signedDigits n := by
  have hplain := signedDigits_plain n
  rw [Text.trim, String.toList_ofList, Text.trimBy_eq_self fun c hc => (hplain c hc).1, characters,
    String.toList_ofList, List.map_congr_left (g := id), List.map_id, Text.trimBy_eq_self]
  · intro c hc
    rw [Text.isMargin, (hplain c hc).1, Bool.false_and]
  · intro c hc
    cases hvalue : Text.digitValue? c with
    | none => rfl
    | some d => exact (hplain c hc).2 d hvalue

theorem splitSign_signedDigits (n : Int) :
    splitSign (Decimal.signedDigits n) = (decide (n < 0), Decimal.digits n.natAbs) := by
  obtain ⟨d, cs, hd, hdigits⟩ := Json.exists_digits_cons n.natAbs
  have hsign : ∀ d : Fin 10, Decimal.digitChar d ≠ '-' ∧ Decimal.digitChar d ≠ '+' := by decide
  obtain ⟨hminus, hplus⟩ := hsign ⟨d, hd⟩
  unfold Decimal.signedDigits
  split
  · rename_i hneg
    rw [decide_eq_true hneg]
    rfl
  · rename_i hpos
    rw [decide_eq_false hpos, hdigits, splitSign]
    · exact fun _ hcons => hminus (List.head_eq_of_cons_eq hcons)
    · exact fun _ hcons => hplus (List.head_eq_of_cons_eq hcons)

/-- **An integer is read as it was written.** -/
theorem integer?_signedDigits {n : Int} (h : Decimal.withinLimit n = true) :
    integer? (Text.trim (String.ofList (Decimal.signedDigits n))) = some n := by
  have hlength : (Decimal.places n.natAbs).length ≤ Decimal.digitLimit :=
    Decimal.length_places_le (by decide) (of_decide_eq_true h)
  have hsigned : (if decide (n < 0) = true then -(n.natAbs : Int) else n.natAbs) = n := by
    clear h
    simp only [decide_eq_true_eq]
    omega
  rw [integer?, characters_signedDigits, splitSign_signedDigits, Decimal.digits_eq]
  simp only [digitRun?_map (Decimal.places_ne_nil _) (Decimal.places_lt _), Option.bind_eq_bind,
    Option.bind_some]
  rw [if_pos hlength, Decimal.ofDigits_places, hsigned]
  rfl

theorem integer?_of_brace (cs : List Char) :
    integer? (Text.trim (String.ofList ('\x7b' :: cs))) = none := by
  obtain ⟨trimmed, htrim⟩ :=
    Text.exists_trimBy_cons (show Text.isBlank '\x7b' = false by decide) cs
  have hcharacters : ∃ rest, characters (String.ofList ('\x7b' :: trimmed)) = '\x7b' :: rest := by
    rw [characters, String.toList_ofList, List.map_cons]
    exact Text.exists_trimBy_cons (by decide) _
  obtain ⟨rest, hcharacters⟩ := hcharacters
  have hrun : digitRun? ('\x7b' :: rest) = none := by
    unfold digitRun?
    split
    · contradiction
    all_goals
      rename_i heq
      obtain ⟨rfl, -⟩ := List.cons.inj heq
      rfl
  have hsign : splitSign ('\x7b' :: rest) = (false, '\x7b' :: rest) := rfl
  rw [Text.trim, String.toList_ofList, htrim, integer?, hcharacters, hsign]
  dsimp only
  rw [hrun]
  rfl

end Numeral

end BatteryMonitor
