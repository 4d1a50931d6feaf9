import PatternTree.Proofs.CharClass.Writing
import PatternTree.Proofs.Quantifier.Writing

/-!
# Writing trees

A tree is written piece by piece.  A literal and the opening of a group can be
written in more than one way, so a `Style` says how, and all else is written
alike.  In the `bare` style every literal is its own character and the opening
of a group shows only whether the group captures; in the `escaped` style what is
written can be read again.
-/

namespace PatternTree

/-- How literals and the openings of groups are written. -/
structure Style where
  literal : Char → List Char
  opening : Option String → List Char

mutual

/-- The text of a piece. -/
def Piece.write (style : Style) : Piece → List Char
  | ⟨quantifier, atom⟩ => atom.write style ++ quantifier.write

/-- The text of an atom.  A boundary takes none. -/
def Atom.write (style : Style) : Atom → List Char
  | .boundary => []
  | .literal c => style.literal c
  | .oneOf cls => cls.write
  | .any => ['.']
  | .group id body => style.opening id ++ (Sequence.write style body ++ [')'])
  | .either left right => Sequence.write style left ++ '|' :: Sequence.write style right
  | .backReference id => '\\' :: 'k' :: '<' :: (id.toList ++ ['>'])

/-- The texts of the pieces of a sequence, in order. -/
def Sequence.write (style : Style) : Sequence → List Char
  | [] => []
  | piece :: rest => piece.write style ++ Sequence.write style rest

end

namespace Style

/-- Characters as they are, and groups without their names. -/
def bare : Style where
  literal c := [c]
  opening
    | none => ['(', '?', ':']
    | some _ => ['(']

/-- Whether a backslash must stand before a literal. -/
def isSpecial (c : Char) : Bool :=
  c ∈ ['(', ')', '[', '.', '|', '\\', '^', '$', '*', '+', '?', '\x7b']

/-- Characters that mean something are escaped, and those that would mean
something after a backslash too are written by their code points. -/
def escaped : Style where
  literal
    | 'A' => ['\\', 'x', '4', '1']
    | 'z' => ['\\', 'x', '7', 'a']
    | 'Z' => ['\\', 'x', '5', 'a']
    | c => if isSpecial c then ['\\', c] else [c]
  opening
    | none => ['(', '?', ':']
    | some id => '(' :: '?' :: '<' :: (id.toList ++ ['>'])

end Style

namespace Sequence

variable (style : Style)

@[simp] theorem write_nil : write style [] = [] := by
  rw [write]

@[simp] theorem write_cons (piece : Piece) (rest : Sequence) :
    write style (piece :: rest) = piece.write style ++ write style rest := by
  rw [write]

@[simp] theorem write_append (first second : Sequence) :
    write style (first ++ second) = write style first ++ write style second := by
  induction first with
  | nil => simp
  | cons piece rest ih => simp [ih]

/-- The text of a choice alone in its sequence is that of its two sides. -/
theorem write_either (left right : Sequence) :
    write style [⟨.once, .either left right⟩] =
      write style left ++ '|' :: write style right := by
  simp [Piece.write, Atom.write, Quantifier.write]

end Sequence

end PatternTree
