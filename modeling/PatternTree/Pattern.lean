import PatternTree.Scan
import PatternTree.Tree.Preorder

/-!
# Patterns

A pattern is what a text says once it has been read: the tree of its pieces, how
many groups it opens, and the limits under which examples of it are sought.  The
limits come from the caller and never from the text.
-/

namespace PatternTree

/-- A pattern that has been read. -/
structure Pattern where
  pieces : Sequence := []
  /-- The number of parenthesized groups, capturing or not. -/
  groupCount : Nat := 0
  limits : Limits := {}
  deriving DecidableEq

namespace Pattern

/-- Read a pattern, or say why and where the text is refused. -/
def parse (options : LimitOptions) (text : String) : Except ParseError Pattern :=
  match Scan.run { unread := text.toList } with
  | .error error => .error error
  | .ok scan => scan.finish.map fun pieces =>
      { pieces, groupCount := scan.groupCount, limits := options.resolve }

/-- Every piece of the tree, in pre-order. -/
def visits (pattern : Pattern) : List Visit :=
  Sequence.visits 0 .top pattern.pieces

/-- Every class of the tree, in pre-order. -/
def classes (pattern : Pattern) : List CharClass :=
  pattern.visits.filterMap fun visit => visit.piece.oneOf?

end Pattern

/-- Two readings are equal when they succeed with one pattern or fail with one
refusal. -/
instance : DecidableEq (Except ParseError Pattern)
  | .ok left, .ok right => decidable_of_iff (left = right) (by simp)
  | .error left, .error right => decidable_of_iff (left = right) (by simp)
  | .ok _, .error _ => isFalse nofun
  | .error _, .ok _ => isFalse nofun

end PatternTree
