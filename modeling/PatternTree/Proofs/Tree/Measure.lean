import PatternTree.Tree.Basic

/-!
# Measures of a tree

How many groups a tree has, how many boundaries, and how many groups and
alternatives are open at once while its text is read.
-/

namespace PatternTree

mutual

/-- The number of groups in a piece. -/
def Piece.groupCount : Piece → Nat
  | ⟨_, atom⟩ => atom.groupCount

/-- The number of groups in an atom, itself included. -/
def Atom.groupCount : Atom → Nat
  | .group _ body => Sequence.groupCount body + 1
  | .either left right => Sequence.groupCount left + Sequence.groupCount right
  | _ => 0

/-- The number of groups in a sequence. -/
def Sequence.groupCount : Sequence → Nat
  | [] => 0
  | piece :: rest => piece.groupCount + Sequence.groupCount rest

end

mutual

/-- The number of boundaries in a piece. -/
def Piece.boundaryCount : Piece → Nat
  | ⟨_, atom⟩ => atom.boundaryCount

/-- The number of boundaries in an atom, itself included. -/
def Atom.boundaryCount : Atom → Nat
  | .boundary => 1
  | .group _ body => Sequence.boundaryCount body
  | .either left right => Sequence.boundaryCount left + Sequence.boundaryCount right
  | _ => 0

/-- The number of boundaries in a sequence. -/
def Sequence.boundaryCount : Sequence → Nat
  | [] => 0
  | piece :: rest => piece.boundaryCount + Sequence.boundaryCount rest

end

mutual

/-- How deep the text of a piece nests. -/
def Piece.nesting : Piece → Nat
  | ⟨_, atom⟩ => atom.nesting

/-- How deep the text of an atom nests.  A group stays open for its body, and an
alternative for all that comes after its bar, but not for what comes before. -/
def Atom.nesting : Atom → Nat
  | .group _ body => Sequence.nesting body + 1
  | .either left right => max (Sequence.nesting left) (Sequence.nesting right + 1)
  | _ => 0

/-- How deep the text of a sequence nests. -/
def Sequence.nesting : Sequence → Nat
  | [] => 0
  | piece :: rest => max piece.nesting (Sequence.nesting rest)

end

end PatternTree
