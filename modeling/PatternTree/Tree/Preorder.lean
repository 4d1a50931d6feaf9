import PatternTree.Tree.Basic

/-!
# The pieces of a tree in pre-order

Every piece of a tree, at every depth, is visited once: a piece comes before
the pieces inside its atom, and the left side of a choice before the right.
-/

namespace PatternTree

/-- Which sequence of the tree a piece belongs to. -/
inductive Place where
  /-- The sequence of the whole pattern. -/
  | top
  /-- The body of a group. -/
  | body
  /-- The left side of a choice. -/
  | left
  /-- The right side of a choice. -/
  | right
  deriving DecidableEq, Repr

/-- A piece met on the way through a tree.  Its depth is the number of groups
and choices around it. -/
structure Visit where
  depth : Nat
  place : Place
  piece : Piece
  deriving DecidableEq

mutual

/-- The piece itself, then the pieces inside it. -/
def Piece.visits (depth : Nat) (place : Place) : Piece → List Visit
  | ⟨quantifier, atom⟩ => ⟨depth, place, ⟨quantifier, atom⟩⟩ :: atom.visits (depth + 1)

/-- The pieces inside an atom. -/
def Atom.visits (depth : Nat) : Atom → List Visit
  | .group _ body => Sequence.visits depth .body body
  | .either left right =>
      Sequence.visits depth .left left ++ Sequence.visits depth .right right
  | _ => []

/-- The pieces of a sequence, each followed by the pieces inside it. -/
def Sequence.visits (depth : Nat) (place : Place) : Sequence → List Visit
  | [] => []
  | piece :: rest => piece.visits depth place ++ Sequence.visits depth place rest

end

/-- The class of a piece that takes one character of a class. -/
def Piece.oneOf? (piece : Piece) : Option CharClass :=
  match piece.atom with
  | .oneOf cls => some cls
  | _ => none

end PatternTree
