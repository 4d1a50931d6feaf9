/-!
# Reading from the front of a text

A pattern is read as a list of characters.  A reader looks at the front of the
characters it is given and answers with what it found there and how many of
them spell it, so that a position can move on by exactly that many.

The small readers of this module know nothing of patterns: a name up to a
closing mark, a run of hexadecimal digits, the character of a code point.
-/

namespace PatternTree

/-- What was read at the front of a text, with the number of characters that
spell it. -/
structure Span (α : Type) where
  value : α
  length : Nat
  deriving DecidableEq, Repr

/-- Change what was read and keep its extent. -/
def Span.map {α β : Type} (image : α → β) (span : Span α) : Span β :=
  ⟨image span.value, span.length⟩

namespace Text

/-- The characters before the first `stop`, provided that there are some and
that `stop` occurs. -/
def enclosed? (stop : Char) (text : List Char) : Option (List Char) :=
  match text.takeWhile (· != stop), text.dropWhile (· != stop) with
  | head :: tail, _ :: _ => some (head :: tail)
  | _, _ => none

theorem takeWhile_ne_append {stop : Char} {name : List Char}
    (absent : stop ∉ name) (rest : List Char) :
    (name ++ stop :: rest).takeWhile (· != stop) = name := by
  induction name with
  | nil => simp
  | cons head tail ih =>
      simp only [List.mem_cons, not_or] at absent
      simp [Ne.symm absent.1, ih absent.2]

theorem dropWhile_ne_append {stop : Char} {name : List Char}
    (absent : stop ∉ name) (rest : List Char) :
    (name ++ stop :: rest).dropWhile (· != stop) = stop :: rest := by
  induction name with
  | nil => simp
  | cons head tail ih =>
      simp only [List.mem_cons, not_or] at absent
      simp [Ne.symm absent.1, ih absent.2]

theorem not_mem_takeWhile_ne (stop : Char) (text : List Char) :
    stop ∉ text.takeWhile (· != stop) := by
  intro member
  have kept := List.all_eq_true.mp (List.all_takeWhile (l := text)) _ member
  simp at kept

theorem dropWhile_ne_eq_cons {stop head : Char} {text tail : List Char}
    (equal : text.dropWhile (· != stop) = head :: tail) : head = stop := by
  have fails := List.head?_dropWhile_not (· != stop) text
  rw [equal] at fails
  simpa using fails

/-- Both halves of the reading are visible in the text: the name in front, then
the mark that ends it. -/
theorem enclosed?_eq_some_iff {stop : Char} {text name : List Char} :
    enclosed? stop text = some name ↔
      name ≠ [] ∧ stop ∉ name ∧ ∃ rest, text = name ++ stop :: rest := by
  constructor
  · intro found
    simp only [enclosed?] at found
    split at found
    · next head tail mark rest taken dropped =>
        cases found
        have markEq := dropWhile_ne_eq_cons dropped
        subst markEq
        refine ⟨by simp, taken ▸ not_mem_takeWhile_ne mark text, rest, ?_⟩
        rw [← taken, ← dropped, List.takeWhile_append_dropWhile]
    · simp at found
  · rintro ⟨nonempty, absent, rest, rfl⟩
    rw [enclosed?]
    rw [takeWhile_ne_append absent, dropWhile_ne_append absent]
    cases name with
    | nil => exact absurd rfl nonempty
    | cons head tail => rfl

/-- A name and the mark after it lie inside the text. -/
theorem length_lt_of_enclosed? {stop : Char} {text name : List Char}
    (found : enclosed? stop text = some name) : name.length < text.length := by
  obtain ⟨_, _, rest, rfl⟩ := enclosed?_eq_some_iff.mp found
  simp

/-- The hexadecimal digits at the front of a text, at most `limit` of them. -/
def hexRun (limit : Nat) (text : List Char) : List Char :=
  (text.take limit).takeWhile Char.isHexDigit

/-- The value of a hexadecimal digit in either letter case. -/
def hexDigitValue (digit : Char) : Nat :=
  if digit.isDigit then digit.toNat - '0'.toNat
  else if 'a' ≤ digit then digit.toNat - 'a'.toNat + 10
  else digit.toNat - 'A'.toNat + 10

/-- The number that a run of hexadecimal digits writes. -/
def hexValue (digits : List Char) : Nat :=
  digits.foldl (fun value digit => 16 * value + hexDigitValue digit) 0

theorem length_hexRun_le (limit : Nat) (text : List Char) :
    (hexRun limit text).length ≤ min limit text.length := by
  have shorter := (List.takeWhile_prefix (l := text.take limit) Char.isHexDigit).length_le
  rwa [List.length_take] at shorter

/-- The character with the code point `value`.  Surrogates and numbers past the
last code point name no character. -/
def scalar? (value : Nat) : Option Char :=
  if value.isValidChar then some (Char.ofNat value) else none

theorem scalar?_eq_some_iff {value : Nat} {c : Char} :
    scalar? value = some c ↔ c.toNat = value := by
  rw [scalar?]
  split
  · next valid =>
      rw [Option.some.injEq]
      constructor
      · rintro rfl
        rw [Char.ofNat, dif_pos valid]
        rfl
      · rintro rfl
        exact Char.ofNat_toNat c
  · next invalid =>
      simp only [reduceCtorEq, false_iff]
      rintro rfl
      exact invalid c.valid

end Text

end PatternTree
