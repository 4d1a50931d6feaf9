import PatternTree.CharClass.Bracket
import PatternTree.Escape
import PatternTree.Quantifier.Reader

/-!
# Reading atoms and pieces

Some atoms stand complete in the text: a literal, a class, an escape.  The others
hold sequences, and are complete only when their last piece has been read.  Both
kinds become pieces in the same way, by the quantifier that follows them.
-/

namespace PatternTree

/-- Read the atom that begins with `head` at `pos` and holds no sequence.  The
length counts the characters of `tail`. -/
def Atom.read (pos : Nat) (head : Char) (tail : List Char) : Except ParseError (Span Atom) :=
  match head with
  | '.' => .ok ⟨.any, 0⟩
  | '[' => (CharClass.read pos tail).map (Span.map Atom.oneOf)
  | '\\' =>
      match tail with
      | [] => .error ⟨pos, .trailingBackslash⟩
      | key :: rest => (Escape.decode (pos + 1) key rest).map fun span =>
          { span with length := span.length + 1 }
  | _ =>
      match Anchor.ofChar? head with
      | some anchor => (anchor.atom pos (pos == 0) tail.isEmpty).map (⟨·, 0⟩)
      | none => .ok ⟨.literal head, 0⟩

/-- An atom lies inside the text. -/
theorem Atom.length_le_of_read {pos : Nat} {head : Char} {tail : List Char} {span : Span Atom}
    (found : Atom.read pos head tail = .ok span) : span.length ≤ tail.length := by
  simp only [Atom.read] at found
  split at found
  · cases found
    exact Nat.zero_le _
  · obtain ⟨cls, read, rfl⟩ := ParseError.exists_of_map_eq_ok found
    exact CharClass.length_le_of_read read
  · split at found
    · cases found
    · obtain ⟨escape, decoded, rfl⟩ := ParseError.exists_of_map_eq_ok found
      exact Nat.succ_le_succ (Escape.length_le_of_decode decoded)
  · split at found
    · obtain ⟨atom, _, rfl⟩ := ParseError.exists_of_map_eq_ok found
      exact Nat.zero_le _
    · cases found
      exact Nat.zero_le _

/-- Read the quantifier that follows `atom`, at `pos`.  A question mark after an
exact number makes the repeated atom optional; after any other quantifier it is
a marker and changes nothing. -/
def Piece.read (atom : Atom) (pos : Nat) (text : List Char) : Except ParseError (Span Piece) :=
  match Quantifier.read pos text with
  | .error error => .error error
  | .ok ⟨.once, length⟩ => .ok ⟨⟨.once, atom⟩, length⟩
  | .ok ⟨quantifier, length⟩ =>
      let rest := text.drop length
      if quantifier.isExact && rest.head? == some '?' then
        .ok ⟨⟨.optional, .group none [⟨quantifier, atom⟩]⟩,
          length + 1 + Quantifier.markerLength rest.tail⟩
      else
        .ok ⟨⟨quantifier, atom⟩, length + Quantifier.markerLength rest⟩

/-- The quantifier and marker of a piece lie inside the text. -/
theorem Piece.length_le_of_read {atom : Atom} {pos : Nat} {text : List Char}
    {span : Span Piece} (found : Piece.read atom pos text = .ok span) :
    span.length ≤ text.length := by
  simp only [Piece.read] at found
  split at found
  · cases found
  · next length read =>
      cases found
      exact Quantifier.length_le_of_read read
  · next quantifier length _ read =>
      have inside := Quantifier.length_le_of_read read
      have markerInside := Quantifier.markerLength_le (text.drop length)
      have tailInside := Quantifier.markerLength_le (text.drop length).tail
      rw [List.length_drop] at markerInside
      rw [List.length_tail, List.length_drop] at tailInside
      simp only at inside
      split at found
      · next asked =>
          cases found
          rw [Bool.and_eq_true, beq_iff_eq, List.head?_drop] at asked
          obtain ⟨before, _⟩ := List.getElem?_eq_some_iff.mp asked.2
          simp only
          omega
      · cases found
        simp only
        omega

end PatternTree
