/-!
# Texts

A text is a row of code points.  Nearly always each of them is a character, and the text is a string
(`Text.whole`).  But the escapes of a JSON text can also spell a half of a surrogate pair that stands
alone.  A text with such a half in it is torn (`Text.torn`): it can be kept, compared and escaped
again, but nothing can encode it, so that it cannot be printed and no file bears it as its name.

Two halves of a pair side by side are one character, and so they never stand like that in a torn text
(`CodePoint.areJoined`).  A text is determined by its code points, which also order the texts.
-/

namespace BatteryMonitor

/-- A character, or a half of a surrogate pair that stands alone. -/
inductive CodePoint where
  | char (c : Char)
  /-- the halves that come first, and then those that come second -/
  | half (index : Fin 0x800)
  deriving DecidableEq

namespace CodePoint

/-- The number of a code point. -/
def toNat : CodePoint → Nat
  | char c => c.toNat
  | half index => 0xd800 + index

/-- The code point is no character. -/
def isHalf : CodePoint → Bool
  | char _ => false
  | half _ => true

/-- The character, if it is one. -/
def char? : CodePoint → Option Char
  | char c => some c
  | half _ => none

/-- The code points are the halves of one pair. -/
def arePair : CodePoint → CodePoint → Bool
  | half high, half low => decide (high.val < 0x400) && decide (0x400 ≤ low.val)
  | _, _ => false

/-- Nowhere are the halves of a pair side by side. -/
def areJoined : List CodePoint → Bool
  | a :: b :: rest => !arePair a b && areJoined (b :: rest)
  | _ => true

theorem areJoined_char_cons (c : Char) (points : List CodePoint) :
    areJoined (char c :: points) = areJoined points := by
  cases points <;> rfl

theorem areJoined_map_append (cs : List Char) (points : List CodePoint) :
    areJoined (cs.map char ++ points) = areJoined points := by
  induction cs with
  | nil => rfl
  | cons c cs ih => rw [List.map_cons, List.cons_append, areJoined_char_cons, ih]

theorem areJoined_append_map (points : List CodePoint) (cs : List Char) :
    areJoined (points ++ cs.map char) = areJoined points := by
  induction points with
  | nil =>
    have h := areJoined_map_append cs []
    rwa [List.append_nil] at h
  | cons a points ih =>
    cases points with
    | nil =>
      cases cs with
      | nil => rfl
      | cons c cs =>
        have hpair : arePair a (char c) = false := by cases a <;> rfl
        rw [List.nil_append] at ih
        rw [List.singleton_append, List.map_cons, areJoined, hpair, ← List.map_cons, ih]
        rfl
    | cons b points =>
      rw [List.cons_append] at ih ⊢
      rw [List.cons_append, areJoined, areJoined, ih]

end CodePoint

/-- The code points of a text that is no string. -/
structure Torn where
  points : List CodePoint
  isTorn : points.any CodePoint.isHalf = true
  isJoined : CodePoint.areJoined points = true
  deriving DecidableEq

/-- A row of code points. -/
inductive Text where
  | whole (s : String)
  | torn (t : Torn)
  deriving DecidableEq

instance : Coe String Text := ⟨.whole⟩

namespace Torn

/-- The text behind a string. -/
def prepend (front : String) (t : Torn) : Torn where
  points := front.toList.map .char ++ t.points
  isTorn := by rw [List.any_append, t.isTorn, Bool.or_true]
  isJoined := by rw [CodePoint.areJoined_map_append, t.isJoined]

/-- The text before a string. -/
def append (t : Torn) (ending : String) : Torn where
  points := t.points ++ ending.toList.map .char
  isTorn := by rw [List.any_append, t.isTorn, Bool.true_or]
  isJoined := by rw [CodePoint.areJoined_append_map, t.isJoined]

end Torn

namespace Text

/-- The code points of a text. -/
def points : Text → List CodePoint
  | whole s => s.toList.map .char
  | torn t => t.points

/-- The text of code points among which no pair is side by side. -/
def ofPoints (points : List CodePoint) (h : CodePoint.areJoined points = true) : Text :=
  if ht : points.any CodePoint.isHalf = true then torn ⟨points, ht, h⟩
  else whole (String.ofList (points.filterMap CodePoint.char?))

/-- The texts of the single code points of a text. -/
def letters (t : Text) : List Text :=
  t.points.map fun p => ofPoints [p] rfl

/-- The text behind a string. -/
def prepend (front : String) : Text → Text
  | whole s => whole (front ++ s)
  | torn t => torn (t.prepend front)

/-- The text before a string. -/
def append (t : Text) (ending : String) : Text :=
  match t with
  | whole s => whole (s ++ ending)
  | torn t => torn (t.append ending)

/-! ### Order -/

/-- The numbers of the code points. -/
def codes (t : Text) : List Nat :=
  t.points.map CodePoint.toNat

instance : LT Text := ⟨fun s t => List.Lex (· < ·) s.codes t.codes⟩

instance : LE Text := ⟨fun s t => ¬ t < s⟩

instance (s t : Text) : Decidable (s < t) := List.decidableLex (· < ·) s.codes t.codes

instance (s t : Text) : Decidable (s ≤ t) := inferInstanceAs (Decidable (¬ t < s))

end Text

end BatteryMonitor
