import PatternTree.Proofs.Escape
import PatternTree.Proofs.Quantifier.Writing

/-!
# Readers further on in a text

A reader is told its position so that a refusal can name it.  The position has no
other use, except that an anchor to the start of the pattern holds only there.  So a
reader that is moved on by one character finds the same, or refuses the same with its
position moved on as well.
-/

namespace PatternTree

/-- The refusal that blames the next position. -/
def ParseError.shift (error : ParseError) : ParseError :=
  { error with pos := error.pos + 1 }

namespace ParseError

variable {α : Type} {result : Except ParseError α}

@[simp] theorem mapError_ok (value : α) :
    (.ok value : Except ParseError α).mapError shift = .ok value := rfl

theorem mapError_of_ok {value : α} (found : result = .ok value) :
    result.mapError shift = .ok value := by
  rw [found]
  rfl

theorem mapError_of_error {error : ParseError} (failed : result = .error error) :
    result.mapError shift = .error error.shift := by
  rw [failed]
  rfl

end ParseError

/-- A text that does not begin with an anchor to the start of the pattern. -/
structure IsUnanchored (text : List Char) : Prop where
  noAnchor : ∀ c ∈ text.head?, c ∉ ['^', 'A']
  noEscapedAnchor : ¬['\\', 'A'] <+: text

/-- A text that is read in the same way behind a character that stands for itself: it
begins with no quantifier either. -/
structure IsDetached (text : List Char) : Prop extends IsUnanchored text where
  noQuantifier : Quantifier.Absent text

/-- Only the first character is looked at, so no search over all characters decides
this. -/
instance decidableHeadNotMem (text marks : List Char) :
    Decidable (∀ c ∈ text.head?, c ∉ marks) :=
  decidable_of_iff (text.head?.all (· ∉ marks) = true) (by cases text <;> simp)

instance (text : List Char) : Decidable (IsDetached text) :=
  decidable_of_iff ((∀ c ∈ text.head?, c ∉ ['^', 'A']) ∧ ¬['\\', 'A'] <+: text ∧
      ∀ c ∈ text.head?, c ∉ ['*', '+', '?', '\x7b'])
    ⟨fun holds => ⟨⟨holds.1, holds.2.1⟩, holds.2.2⟩,
      fun holds => ⟨holds.noAnchor, holds.noEscapedAnchor, holds.noQuantifier⟩⟩

variable {pos : Nat}

theorem Opening.read_succ (start number : Nat) (tail : List Char) :
    Opening.read (start + 1) number tail =
      (Opening.read start number tail).mapError .shift := by
  unfold Opening.read
  split
  · rfl
  · rfl
  · rfl
  · rfl
  · rfl
  · split <;> rfl
  · rfl
  · rfl
  · rfl

theorem Quantifier.read_succ (pos : Nat) (text : List Char) :
    Quantifier.read (pos + 1) text = (Quantifier.read pos text).mapError .shift := by
  unfold Quantifier.read
  split
  · rfl
  · rfl
  · rfl
  · split
    · rfl
    · split <;> rfl
  · rfl

theorem Piece.read_succ (atom : Atom) (pos : Nat) (text : List Char) :
    Piece.read atom (pos + 1) text = (Piece.read atom pos text).mapError .shift := by
  simp only [Piece.read, Quantifier.read_succ]
  cases Quantifier.read pos text with
  | error error => rfl
  | ok span =>
      cases span with
      | mk quantifier length =>
          cases quantifier with
          | once => rfl
          | star | plus | optional | braces =>
              simp only [ParseError.mapError_ok]
              split <;> rfl

theorem CharClass.read_succ (pos : Nat) (text : List Char) :
    CharClass.read (pos + 1) text = (CharClass.read pos text).mapError .shift := by
  unfold CharClass.read
  split
  · rfl
  · split <;> rfl

/-- Only an anchor to the start asks whether it stands there. -/
theorem Anchor.atom_succ {anchor : Anchor} {before after : Bool}
    (agree : anchor = .start → after = before) (pos : Nat) (atEnd : Bool) :
    anchor.atom (pos + 1) after atEnd = (anchor.atom pos before atEnd).mapError .shift := by
  cases anchor with
  | start =>
      cases agree rfl
      cases before <;> rfl
  | stop => cases atEnd <;> rfl
  | within => rfl

namespace Escape

theorem atom_succ {form : Escape} (positive : pos ≠ 0) (later : form = .anchor .start → pos ≠ 1)
    (atEnd : Bool) : form.atom (pos + 1) atEnd = (form.atom pos atEnd).mapError .shift := by
  cases form with
  | reference | shorthand | property | call | literal => rfl
  | code value =>
      simp only [Escape.atom]
      split <;> rfl
  | anchor place =>
      simp only [Escape.atom]
      apply Anchor.atom_succ
      rintro rfl
      have notOne := later rfl
      rw [Bool.eq_iff_iff, beq_iff_eq, beq_iff_eq]
      omega

theorem decode_succ {key : Char} {rest : List Char} (positive : pos ≠ 0)
    (later : key = 'A' → pos ≠ 1) :
    decode (pos + 1) key rest = (decode pos key rest).mapError .shift := by
  have laterForm (found : (read key rest).value = .anchor .start) : pos ≠ 1 := by
    have written := written_read key rest
    rw [found] at written
    cases written with
    | anchor marked =>
        apply later
        simpa using Anchor.mem_of_ofEscaped? marked
  simp only [decode, atom_succ positive laterForm]
  cases (read key rest).value.atom pos rest.isEmpty <;> rfl

end Escape

/-- Past the start of the pattern, and before a text that is no anchor to it, an atom is
read in the same way at the next position. -/
theorem Atom.read_succ {head : Char} {tail : List Char}
    (unanchored : pos = 0 → IsUnanchored (head :: tail)) :
    Atom.read (pos + 1) head tail = (Atom.read pos head tail).mapError .shift := by
  simp only [Atom.read]
  split
  · rfl
  · rw [CharClass.read_succ]
    cases CharClass.read pos tail <;> rfl
  · cases tail with
    | nil => rfl
    | cons key rest =>
        have later : key = 'A' → pos + 1 ≠ 1 := by
          rintro rfl first
          have start : pos = 0 := by omega
          exact (unanchored start).noEscapedAnchor (by simp)
        simp only [Escape.decode_succ (Nat.succ_ne_zero pos) later]
        cases Escape.decode (pos + 1) key rest <;> rfl
  · cases written : Anchor.ofChar? head with
    | none => rfl
    | some anchor =>
        have agree : anchor = .start → (pos + 1 == 0) = (pos == 0) := by
          rintro rfl
          have notFirst : pos ≠ 0 := by
            intro first
            apply (unanchored first).noAnchor head rfl
            simpa using Anchor.mem_of_ofChar? written
          simp [notFirst]
        simp only [Anchor.atom_succ agree]
        cases anchor.atom pos (pos == 0) tail.isEmpty <;> rfl

end PatternTree
