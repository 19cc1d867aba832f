import BatteryMonitor.Proofs.Json.Escape
import BatteryMonitor.Proofs.Json.Double
import BatteryMonitor.Proofs.Json.Portable
import Mathlib.Data.List.Forall2

/-!
# A value is read as it was written

The text of a value is read as the value itself, whatever stands behind it, unless that goes on with
a number (`Json.Reads`).  So a list is read item by item and an object member by member
(`Json.readItems_joined`, `Json.readMembers_joined`), and by induction on the value every legible
value comes back with its members in order (`Json.exists_printValue`, `Json.parse_print_sorted`).
-/

namespace BatteryMonitor

namespace Json

/-! ### Layout -/

variable {depth level : Nat} {rest : List Char}

theorem skipSpace_cons {c : Char} (h : isSpace c = false) : skipSpace (c :: rest) = c :: rest := by
  rw [skipSpace, List.dropWhile_cons, h]
  rfl

theorem skipSpace_newline {c : Char} (h : isSpace c = false) :
    skipSpace (newline level ++ c :: rest) = c :: rest := by
  rw [newline, List.cons_append, skipSpace, List.dropWhile_cons, if_pos (by decide),
    List.dropWhile_append_of_pos fun c hc => by rw [List.eq_of_mem_replicate hc]; decide]
  exact skipSpace_cons h

theorem ends_newline : Ends (newline level ++ rest) := ends_cons (.inr rfl)

/-- The text of a value, read as another one: it does not start with a blank or the end of a list or
an object, and it is read as the value, whatever follows, if nothing that follows belongs to it. -/
structure Reads (depth : Nat) (cs : List Char) (v : Value) : Prop where
  head : ∃ c rest, cs = c :: rest ∧ isSpace c = false ∧ c ≠ ']' ∧ c ≠ '\x7d'
  read : ∀ fuel rest, 2 * cs.length ≤ fuel → Ends rest →
    readValue fuel depth (cs ++ rest) = .ok (v, rest)

/-! ### Words, numbers and strings -/

theorem readValue_scalar {fuel : Nat} {c : Char} {cs : List Char} (hquote : c ≠ '"')
    (hlist : c ≠ '[') (hobject : c ≠ '\x7b') :
    readValue (fuel + 1) depth (c :: cs) = readScalar (c :: cs) := by
  rw [readValue]
  · exact fun _ h => hquote (List.head_eq_of_cons_eq h)
  · exact fun _ h => hlist (List.head_eq_of_cons_eq h)
  · exact fun _ h => hobject (List.head_eq_of_cons_eq h)

/-- The character belongs to a word or a number, and not to the layout or a string. -/
def isInScalar (c : Char) : Bool :=
  !isSpace c && c != ']' && c != '\x7d' && c != '"' && c != '[' && c != '\x7b'

theorem Reads.of_scalar {c : Char} {cs : List Char} {v : Value} (hc : isInScalar c = true)
    (h : ∀ rest, Ends rest → readScalar (c :: cs ++ rest) = .ok (v, rest)) :
    Reads depth (c :: cs) v := by
  simp only [isInScalar, Bool.and_eq_true, Bool.not_eq_true', bne_iff_ne] at hc
  obtain ⟨⟨⟨⟨⟨hspace, hend⟩, hend'⟩, hquote⟩, hlist⟩, hobject⟩ := hc
  refine ⟨⟨c, cs, rfl, hspace, hend, hend'⟩, fun fuel rest hfuel hrest => ?_⟩
  cases fuel with
  | zero => exact absurd hfuel (by simp)
  | succ fuel =>
    rw [List.cons_append, readValue_scalar hquote hlist hobject]
    exact h rest hrest

theorem reads_null : Reads depth printNull .null :=
  .of_scalar (by decide) fun _ _ => rfl

theorem reads_bool (b : Bool) : Reads depth (printBool b) (.bool b) := by
  cases b <;> exact .of_scalar (by decide) fun _ _ => rfl

theorem encode_append (t : Text) (rest : List Char) :
    encode t ++ rest = '"' :: (t.points.flatMap encodePoint ++ '"' :: rest) := by
  simp only [encode, List.cons_append, List.append_assoc, List.nil_append]

theorem readString_encode (t : Text) (rest : List Char) :
    readString (t.points.flatMap encodePoint ++ '"' :: rest) = .ok (t, rest) := by
  rw [readString, decode_encode]

theorem reads_text (t : Text) : Reads depth (encode t) (.text t) := by
  refine ⟨⟨'"', _, rfl, by decide⟩, fun fuel rest hfuel _ => ?_⟩
  cases fuel with
  | zero => exact absurd hfuel (by simp [encode])
  | succ fuel =>
    rw [encode_append, readValue, readString_encode]
    rfl

theorem reads_int {n : Int} {cs : List Char} (hprint : printInteger n = .ok cs) :
    Reads depth cs (.int n) := by
  have hread {rest : List Char} (h : Ends rest) := readScalar_printInteger hprint h
  obtain ⟨d, ds, hd, hdigits⟩ := exists_digits_cons n.natAbs
  have hdigit : ∀ d : Fin 10, isInScalar (Decimal.digitChar d) = true := by decide
  unfold printInteger at hprint
  split at hprint
  · obtain rfl := Except.ok.inj hprint
    unfold Decimal.signedDigits at hread ⊢
    split at hread
    · rename_i hneg
      rw [if_pos hneg]
      exact .of_scalar (by decide) fun _ h => hread h
    · rename_i hpos
      rw [if_neg hpos, hdigits]
      rw [hdigits] at hread
      exact .of_scalar (hdigit ⟨d, hd⟩) fun _ h => hread h
  · cases hprint

theorem reads_double {x : Binary64} (hx : x.isSpelled = true) :
    Reads depth (doubleStyle.render x).toList (.float x) := by
  obtain ⟨c, cs, hrender, hc⟩ := exists_render_cons x
  have hread {rest : List Char} (h : Ends rest) := readScalar_render hx h
  rw [hrender] at hread ⊢
  refine .of_scalar ?_ fun _ h => hread h
  rcases hc with rfl | rfl | rfl | ⟨d, hd, rfl⟩
  · decide
  · decide
  · decide
  · exact (by decide : ∀ d : Fin 10, isInScalar (Decimal.digitChar d) = true) ⟨d, hd⟩

/-! ### Lists -/

/-- Texts in a row, separated by commas, each on a line of its own. -/
def joined (level : Nat) (parts : List (List Char)) : List Char :=
  parts.flatMap fun p => ',' :: newline level ++ p

theorem bracket_cons (opening closing : Char) (level : Nat) (part : List Char)
    (parts : List (List Char)) (rest : List Char) :
    bracket opening closing level (part :: parts) ++ rest = opening :: (newline (level + 1) ++
      (part ++ joined (level + 1) parts ++ newline level ++ closing :: rest)) := by
  simp only [bracket, joined, List.cons_append, List.append_assoc, List.nil_append]

/-- **The items of a list** are read one after the other. -/
theorem readItems_joined : ∀ {part : List Char} {parts : List (List Char)} {v : Value}
    {vs : List Value}, Reads depth part v → List.Forall₂ (Reads depth) parts vs →
    ∀ {fuel : Nat}, 2 * (part.length + (joined (level + 1) parts).length) < fuel →
      readItems fuel depth (part ++ joined (level + 1) parts ++ newline level ++ ']' :: rest) =
        .ok (v :: vs, rest) := by
  intro part parts v vs hpart hparts
  induction hparts generalizing part v with
  | nil =>
    intro fuel hfuel
    cases fuel with
    | zero => exact absurd hfuel (Nat.not_lt_zero _)
    | succ fuel =>
      have hread := hpart.read fuel (newline level ++ ']' :: rest) (by
        simp only [joined, List.flatMap_nil, List.length_nil] at hfuel
        omega) ends_newline
      rw [joined, List.flatMap_nil, List.append_nil, List.append_assoc, readItems, hread]
      simp only [bind, Except.bind, skipSpace_newline (show isSpace ']' = false from rfl)]
      rfl
  | @cons part' v' parts vs hpart' hparts ih =>
    intro fuel hfuel
    cases fuel with
    | zero => exact absurd hfuel (Nat.not_lt_zero _)
    | succ fuel =>
      have hcomma : isSpace ',' = false := rfl
      rw [joined, List.flatMap_cons, ← joined] at hfuel ⊢
      simp only [List.length_append, List.length_cons] at hfuel
      obtain ⟨c, cs, hcs, hspace, -⟩ := hpart'.head
      have hfits : 2 * (part'.length + (joined (level + 1) parts).length) < fuel := by omega
      have hrest := ih hpart' hfits
      simp only [List.cons_append, List.append_assoc] at hrest ⊢
      rw [readItems, hpart.read fuel _ (by omega) (ends_cons (.inl rfl))]
      simp only [bind, Except.bind, skipSpace_cons hcomma]
      rw [hcs] at hrest ⊢
      simp only [List.cons_append, skipSpace_newline hspace] at hrest ⊢
      rw [hrest]
      rfl

theorem reads_list {parts : List (List Char)} {vs : List Value}
    (h : List.Forall₂ (Reads depth) parts vs) :
    Reads (depth + 1) (bracket '[' ']' level parts) (.list vs) := by
  cases h with
  | nil =>
    refine ⟨⟨'[', _, rfl, by decide⟩, fun fuel rest hfuel _ => ?_⟩
    cases fuel with
    | zero => exact absurd hfuel (by simp [bracket])
    | succ fuel => rfl
  | @cons part v parts vs hpart hparts =>
    refine ⟨⟨'[', _, rfl, by decide⟩, fun fuel rest hfuel _ => ?_⟩
    obtain ⟨c, cs, hcs, hspace, hend, -⟩ := hpart.head
    have hlength := congrArg List.length (bracket_cons '[' ']' level part parts [])
    simp only [List.append_nil, List.length_cons, List.length_append, List.length_nil] at hlength
    cases fuel with
    | zero => omega
    | succ fuel =>
      have hfits : 2 * (part.length + (joined (level + 1) parts).length) < fuel := by omega
      have hread := @readItems_joined depth level rest _ _ _ _ hpart hparts _ hfits
      rw [bracket_cons]
      rw [hcs] at hread ⊢
      simp only [List.cons_append] at hread ⊢
      rw [readValue, skipSpace_newline hspace]
      split
      · rename_i heq
        exact absurd (List.head_eq_of_cons_eq heq) hend
      · rw [hread]
        rfl

/-! ### Objects -/

/-- A member of an object with its text. -/
structure Member where
  key : Text
  text : List Char
  value : Value

namespace Member

/-- The line of the member. -/
def line (m : Member) : List Char := encode m.key ++ ':' :: ' ' :: m.text

/-- The member as it stands in the object. -/
def entry (m : Member) : Key × Value := (.text m.key, m.value)

end Member

theorem Member.line_append (m : Member) (rest : List Char) : m.line ++ rest =
    '"' :: (m.key.points.flatMap encodePoint ++ '"' :: ':' :: ' ' :: (m.text ++ rest)) := by
  rw [line, List.append_assoc, encode_append]
  rfl

theorem readMembers_line {m : Member} {fuel : Nat} (hm : Reads depth m.text m.value)
    (hfuel : 2 * m.line.length ≤ fuel) (hrest : Ends rest) :
    readMembers (fuel + 1) depth (m.line ++ rest) =
      match skipSpace rest with
      | '\x7d' :: rest => .ok ([m.entry], rest)
      | ',' :: rest => do
        let (members, rest) ← readMembers fuel depth (skipSpace rest)
        return (m.entry :: members, rest)
      | _ => .error .badValue := by
  obtain ⟨c, cs, hcs, hspace, -⟩ := hm.head
  have hlength : m.text.length ≤ m.line.length := by
    simp only [Member.line, List.length_append, List.length_cons]
    omega
  have hread := hm.read fuel rest (by omega) hrest
  have hcolon : isSpace ':' = false := rfl
  have hblank : skipSpace (' ' :: (m.text ++ rest)) = m.text ++ rest := by
    rw [hcs]
    exact skipSpace_cons hspace
  rw [Member.line_append, readMembers, readString_encode]
  simp only [bind, Except.bind, skipSpace_cons hcolon, hblank, hread]
  rfl

/-- **The members of an object** are read one after the other. -/
theorem readMembers_joined : ∀ {ms : List Member} {m : Member},
    (∀ x ∈ m :: ms, Reads depth x.text x.value) → ∀ {fuel : Nat},
      2 * (m.line.length + (joined (level + 1) (ms.map Member.line)).length) < fuel →
      readMembers fuel depth
        (m.line ++ joined (level + 1) (ms.map Member.line) ++ newline level ++ '\x7d' :: rest) =
          .ok ((m :: ms).map Member.entry, rest) := by
  intro ms
  induction ms with
  | nil =>
    intro m hms fuel hfuel
    cases fuel with
    | zero => exact absurd hfuel (Nat.not_lt_zero _)
    | succ fuel =>
      have hbrace : isSpace '\x7d' = false := rfl
      simp only [joined, List.map_nil, List.flatMap_nil, List.length_nil] at hfuel
      rw [joined, List.map_nil, List.flatMap_nil, List.append_nil, List.append_assoc,
        readMembers_line (hms m List.mem_cons_self) (by omega) ends_newline,
        skipSpace_newline hbrace]
      rfl
  | cons m' ms ih =>
    intro m hms fuel hfuel
    cases fuel with
    | zero => exact absurd hfuel (Nat.not_lt_zero _)
    | succ fuel =>
      have hcomma : isSpace ',' = false := rfl
      have hquote : isSpace '"' = false := rfl
      rw [List.map_cons, joined, List.flatMap_cons, ← joined] at hfuel ⊢
      simp only [List.length_append, List.length_cons] at hfuel
      have hfits : 2 * (m'.line.length + (joined (level + 1) (ms.map Member.line)).length) < fuel :=
        by omega
      have hrest := ih (fun x hx => hms x (List.mem_cons_of_mem _ hx)) hfits
      simp only [List.cons_append, List.append_assoc] at hrest ⊢
      rw [readMembers_line (hms m List.mem_cons_self) (by omega) (ends_cons (.inl rfl)),
        skipSpace_cons hcomma]
      rw [Member.line_append] at hrest ⊢
      simp only [skipSpace_newline hquote, hrest]
      rfl

theorem reads_object {ms : List Member} (h : ∀ x ∈ ms, Reads depth x.text x.value)
    (hdistinct : Table.Distinct (ms.map Member.entry)) :
    Reads (depth + 1) (bracket '\x7b' '\x7d' level (ms.map Member.line))
      (.object (ms.map Member.entry)) := by
  refine ⟨?_, fun fuel rest hfuel _ => ?_⟩
  · cases ms <;> exact ⟨'\x7b', _, rfl, by decide⟩
  cases ms with
  | nil =>
    cases fuel with
    | zero => exact absurd hfuel (by simp [bracket])
    | succ fuel => rfl
  | cons m ms =>
    rw [List.map_cons] at hfuel ⊢
    have hlength := congrArg List.length
      (bracket_cons '\x7b' '\x7d' level m.line (ms.map Member.line) [])
    simp only [List.append_nil, List.length_cons, List.length_append, List.length_nil] at hlength
    cases fuel with
    | zero => omega
    | succ fuel =>
      have hquote : isSpace '"' = false := rfl
      have hfits : 2 * (m.line.length + (joined (level + 1) (ms.map Member.line)).length) < fuel :=
        by omega
      have hread := @readMembers_joined depth level rest _ _ h _ hfits
      rw [bracket_cons]
      simp only [List.append_assoc] at hread ⊢
      rw [Member.line_append] at hread ⊢
      rw [readValue, skipSpace_newline hquote]
      split
      · rename_i heq
        exact absurd (List.head_eq_of_cons_eq heq) (by decide)
      · rw [hread]
        exact congrArg (fun t => Except.ok (Value.object t, rest))
          (Table.ofPairs_of_distinct hdistinct)

/-! ### Members in order -/

/-- The members in the order of their keys. -/
def Member.inOrder (ms : List Member) : List Member :=
  ms.mergeSort fun a b => decide (a.key ≤ b.key)

theorem Member.mergeSort_map {α : Type} {f : Member → Key × α} (hf : ∀ m, (f m).1 = .text m.key)
    (ms : List Member) : (ms.map f).mergeSort (fun a b => decide (keyString a.1 ≤ keyString b.1)) =
      (inOrder ms).map f := by
  refine (List.map_mergeSort fun a _ b _ => ?_).symm
  rw [hf, hf]
  rfl

/-- The members of an object have lines, which are read as the members with sorted values. -/
structure Lines (level depth : Nat) (members : List (Key × Value)) (ms : List Member) : Prop where
  printed : printMembers level members = ms.map fun m => (.text m.key, .ok m.text)
  sorted : Value.sortedMembers members = ms.map Member.entry
  reads : ∀ m ∈ ms, Reads depth m.text m.value

theorem joinMembers_map (ms : List Member) :
    joinMembers (ms.map fun m => (.text m.key, .ok m.text)) = .ok (ms.map Member.line) := by
  induction ms with
  | nil => rfl
  | cons m ms ih =>
    rw [List.map_cons, joinMembers, ih]
    rfl

namespace Lines

variable {members : List (Key × Value)} {ms : List Member}

theorem printValue (h : Lines (level + 1) depth members ms) : printValue level (.object members) =
    .ok (bracket '\x7b' '\x7d' level ((Member.inOrder ms).map Member.line)) := by
  have hsort : sortMembers (printMembers (level + 1) members) =
      .ok ((Member.inOrder ms).map fun m => (.text m.key, .ok m.text)) := by
    rw [h.printed, sortMembers_of_texts fun p hp => ?_]
    · exact congrArg Except.ok (Member.mergeSort_map (fun _ => rfl) ms)
    · obtain ⟨m, -, rfl⟩ := List.mem_map.1 hp
      rfl
  rw [Json.printValue, hsort]
  change (do
    let parts ← joinMembers _
    return bracket '\x7b' '\x7d' level parts) = _
  rw [joinMembers_map]
  rfl

theorem reads_sorted (h : Lines (level + 1) depth members ms) (hdistinct : Table.Distinct members) :
    Reads (depth + 1) (bracket '\x7b' '\x7d' level ((Member.inOrder ms).map Member.line))
      (Value.object members).sorted := by
  have hsorted : Value.inOrder (Value.sortedMembers members) =
      (Member.inOrder ms).map Member.entry := by
    rw [h.sorted]
    exact Member.mergeSort_map (fun _ => rfl) ms
  rw [Value.sorted, hsorted]
  refine reads_object (fun m hm => h.reads m (List.mem_mergeSort.1 hm)) ?_
  rw [← hsorted]
  exact (Value.distinct_sortedMembers hdistinct).perm (Value.perm_inOrder _).symm

end Lines

/-! ### Values -/

theorem exists_printInteger (n : Int) (h : Decimal.withinLimit n = true) :
    ∃ cs, printValue level (.int n) = .ok cs ∧ Reads depth cs (Value.int n).sorted := by
  have hprint : printInteger n = .ok (Decimal.signedDigits n) := by rw [printInteger, if_pos h]
  refine ⟨_, ?_, reads_int hprint⟩
  rw [printValue, hprint]

theorem exists_printItems (level : Nat) {items : List Value} (h : ∀ v ∈ items, ∃ cs,
    printValue level v = .ok cs ∧ Reads depth cs v.sorted) :
    ∃ parts, printItems level items = .ok parts ∧
      List.Forall₂ (Reads depth) parts (Value.sortedItems items) := by
  induction items with
  | nil => exact ⟨[], rfl, .nil⟩
  | cons v items ih =>
    obtain ⟨⟨part, hpart, hread⟩, hitems⟩ := List.forall_mem_cons.1 h
    obtain ⟨parts, hparts, hreads⟩ := ih hitems
    exact ⟨part :: parts, by rw [printItems, hpart, hparts]; rfl, .cons hread hreads⟩

theorem exists_lines (level : Nat) {members : List (Key × Value)}
    (h : ∀ p ∈ members, p.1.isText = true ∧
      ∃ cs, printValue level p.2 = .ok cs ∧ Reads depth cs p.2.sorted) :
    ∃ ms, Lines level depth members ms := by
  induction members with
  | nil => exact ⟨[], rfl, rfl, nofun⟩
  | cons p members ih =>
    obtain ⟨k, v⟩ := p
    obtain ⟨⟨hk, text, htext, hread⟩, hmembers⟩ := List.forall_mem_cons.1 h
    obtain ⟨key, rfl⟩ := Key.exists_text hk
    obtain ⟨ms, hprinted, hsorted, hreads⟩ := ih hmembers
    refine ⟨⟨key, text, v.sorted⟩ :: ms, ?_, ?_, List.forall_mem_cons.2 ⟨hread, hreads⟩⟩
    · rw [printMembers, htext, hprinted]
      rfl
    · rw [Value.sortedMembers, hsorted]
      rfl

/-- **A value is read as it was written**, but for the order of the members of its objects. -/
theorem exists_printValue (level : Nat) (v : Value) (depth : Nat) (h : v.isLegible depth = true) :
    ∃ cs, printValue level v = .ok cs ∧ Reads depth cs v.sorted := by
  induction v generalizing level depth with
  | null => exact ⟨_, rfl, reads_null⟩
  | bool b => exact ⟨_, rfl, reads_bool b⟩
  | int n => exact exists_printInteger n (Value.isLegible_int_iff.1 h)
  | float x => exact ⟨_, rfl, reads_double (Value.isLegible_float_iff.1 h)⟩
  | text s => exact ⟨_, rfl, reads_text s⟩
  | list items ih =>
    obtain ⟨below, rfl⟩ := Value.exists_depth h (Nat.succ_pos _)
    have hitems := Value.isLegible_list_iff.1 h
    obtain ⟨parts, hprint, hreads⟩ := exists_printItems (level + 1) fun v hv =>
      ih v hv (level + 1) below (hitems v hv)
    exact ⟨_, by rw [printValue, hprint]; rfl, reads_list hreads⟩
  | object members ih =>
    obtain ⟨below, rfl⟩ := Value.exists_depth h (Nat.succ_pos _)
    obtain ⟨hdistinct, hmembers⟩ := Value.isLegible_object_iff.1 h
    obtain ⟨ms, hlines⟩ := exists_lines (level + 1) fun p hp =>
      (hmembers p hp).imp_right (ih p hp (level + 1) below)
    exact ⟨_, hlines.printValue, hlines.reads_sorted hdistinct⟩

/-- **A text is parsed as the value that it was printed for**, with the members of its objects in
the order of their keys. -/
theorem parse_print_sorted {v : Value} (h : v.isLegible nestingLimit = true) :
    ∃ text, print v = .ok text ∧ parse text = .ok v.sorted := by
  obtain ⟨cs, hprint, hreads⟩ := exists_printValue 0 v nestingLimit h
  refine ⟨String.ofList cs, by rw [print, hprint]; rfl, ?_⟩
  obtain ⟨c, rest, hcs, hspace, -⟩ := hreads.head
  have hread := hreads.read (2 * cs.length + 2) [] (by omega) ends_nil
  have hskip : skipSpace cs = cs := by rw [hcs, skipSpace_cons hspace]
  rw [List.append_nil] at hread
  rw [parse, String.toList_ofList, hskip, hread]
  rfl

theorem parse_print {v : Value} (h : v.isPortable nestingLimit = true) :
    ∃ text, print v = .ok text ∧ parse text = .ok v.sorted :=
  parse_print_sorted (Value.isLegible_of_isPortable h)

theorem parseBytes_toUTF8 (text : String) : parseBytes text.toUTF8 = parse text := by
  have hbytes : String.fromUTF8? text.toUTF8 = some text := dif_pos text.isValidUTF8
  rw [parseBytes, hbytes]

end Json

end BatteryMonitor
