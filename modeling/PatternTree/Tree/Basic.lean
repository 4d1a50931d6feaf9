import PatternTree.CharClass.Basic
import PatternTree.Quantifier.Basic

/-!
# The tree of a pattern

A pattern is a sequence of pieces, and a piece is an atom with its quantifier.
Groups and alternations are atoms that hold sequences of their own, so atoms and
pieces are defined together.

Two trees are equal when they agree piece by piece.  `Tree.same` decides that by
recursion on the trees, which gives pieces and atoms decidable equality.
-/

namespace PatternTree

mutual

/-- An atom and how often it repeats. -/
structure Piece where
  quantifier : Quantifier
  atom : Atom

/-- What a quantifier applies to. -/
inductive Atom where
  /-- An edge of the whole pattern, which takes no text. -/
  | boundary
  | literal (c : Char)
  | oneOf (cls : CharClass)
  | any
  /-- A parenthesized sequence.  Its number or name is the way that a back
  reference refers to it; without one it captures nothing. -/
  | group (id : Option String) (body : List Piece)
  /-- A choice between two sequences.  More alternatives nest on the right. -/
  | either (left right : List Piece)
  | backReference (id : String)

end

/-- Pieces that follow one another. -/
abbrev Sequence := List Piece

/-- Whether an atom is a group that a back reference can name. -/
def Atom.isCapturing : Atom → Bool
  | .group (some _) _ => true
  | _ => false

/-! ## Equality -/

namespace Tree

mutual

/-- Whether two pieces are equal. -/
def samePiece : Piece → Piece → Bool
  | ⟨leftQuantifier, leftAtom⟩, ⟨rightQuantifier, rightAtom⟩ =>
      decide (leftQuantifier = rightQuantifier) && sameAtom leftAtom rightAtom

/-- Whether two atoms are equal. -/
def sameAtom : Atom → Atom → Bool
  | .boundary, .boundary => true
  | .literal left, .literal right => decide (left = right)
  | .oneOf left, .oneOf right => decide (left = right)
  | .any, .any => true
  | .group leftId leftBody, .group rightId rightBody =>
      decide (leftId = rightId) && same leftBody rightBody
  | .either firstLeft firstRight, .either secondLeft secondRight =>
      same firstLeft secondLeft && same firstRight secondRight
  | .backReference left, .backReference right => decide (left = right)
  | _, _ => false

/-- Whether two sequences are equal. -/
def same : Sequence → Sequence → Bool
  | [], [] => true
  | left :: lefts, right :: rights => samePiece left right && same lefts rights
  | _, _ => false

end

mutual

theorem samePiece_self : (piece : Piece) → samePiece piece piece = true
  | ⟨_, atom⟩ => by simp [samePiece, sameAtom_self atom]

theorem sameAtom_self : (atom : Atom) → sameAtom atom atom = true
  | .boundary | .any => by simp [sameAtom]
  | .literal _ | .oneOf _ | .backReference _ => by simp [sameAtom]
  | .group _ body => by simp [sameAtom, same_self body]
  | .either left right => by simp [sameAtom, same_self left, same_self right]

theorem same_self : (sequence : Sequence) → same sequence sequence = true
  | [] => by simp [same]
  | piece :: rest => by simp [same, samePiece_self piece, same_self rest]

end

mutual

theorem eq_of_samePiece : {left right : Piece} → samePiece left right = true → left = right
  | ⟨_, leftAtom⟩, ⟨_, rightAtom⟩, equal => by
      simp only [samePiece, Bool.and_eq_true, decide_eq_true_eq] at equal
      have atomsEqual : leftAtom = rightAtom := eq_of_sameAtom equal.2
      rw [equal.1, atomsEqual]

theorem eq_of_sameAtom : {left right : Atom} → sameAtom left right = true → left = right
  | .boundary, right, equal => by
      cases right <;> simp [sameAtom] at equal
      rfl
  | .literal _, right, equal => by
      cases right <;> simp [sameAtom] at equal
      rw [equal]
  | .oneOf _, right, equal => by
      cases right <;> simp [sameAtom] at equal
      rw [equal]
  | .any, right, equal => by
      cases right <;> simp [sameAtom] at equal
      rfl
  | .group _ leftBody, right, equal => by
      cases right <;> simp [sameAtom] at equal
      rw [equal.1, eq_of_same equal.2]
  | .either _ _, right, equal => by
      cases right <;> simp [sameAtom] at equal
      rw [eq_of_same equal.1, eq_of_same equal.2]
  | .backReference _, right, equal => by
      cases right <;> simp [sameAtom] at equal
      rw [equal]

theorem eq_of_same : {left right : Sequence} → same left right = true → left = right
  | [], right, equal => by
      cases right <;> simp [same] at equal
      rfl
  | left :: lefts, right, equal => by
      cases right <;> simp [same] at equal
      rw [eq_of_samePiece equal.1, eq_of_same equal.2]

end

theorem samePiece_iff {left right : Piece} : samePiece left right = true ↔ left = right :=
  ⟨eq_of_samePiece, fun equal => equal ▸ samePiece_self left⟩

theorem sameAtom_iff {left right : Atom} : sameAtom left right = true ↔ left = right :=
  ⟨eq_of_sameAtom, fun equal => equal ▸ sameAtom_self left⟩

end Tree

instance : DecidableEq Piece := fun left right =>
  decidable_of_iff (Tree.samePiece left right = true) Tree.samePiece_iff

instance : DecidableEq Atom := fun left right =>
  decidable_of_iff (Tree.sameAtom left right = true) Tree.sameAtom_iff

end PatternTree
