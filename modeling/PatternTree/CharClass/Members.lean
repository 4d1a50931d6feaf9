import PatternTree.CharClass.Shorthand

/-!
# The members of a bracket expression

The text between the brackets is read in two steps.  First escapes are
resolved, which leaves literals, dashes and whole sets.  Then the members become
items: a dash between two literals makes a range, and every other dash is a
character of its own.

Resolving first is what lets an escaped dash stand for itself, and lets an
escape such as a line feed bound a range.
-/

namespace PatternTree.CharClass

/-- A member of a bracket expression whose escape has been resolved. -/
inductive Member where
  | literal (c : Char)
  | dash
  | set (items : List Item)
  deriving DecidableEq, Repr

namespace Member

/-- The member that `key` stands for after a backslash.  A shorthand for just
one character is that character, and may bound a range. -/
def ofEscaped (key : Char) : Member :=
  match shorthand? key with
  | some [.single c] => .literal c
  | some items => .set items
  | none => .literal key

/-- Resolve the escapes of a text.  A backslash with nothing after it stands for
itself. -/
def resolve : List Char → List Member
  | [] => []
  | ['\\'] => [.literal '\\']
  | '\\' :: key :: rest => ofEscaped key :: resolve rest
  | '-' :: rest => .dash :: resolve rest
  | c :: rest => .literal c :: resolve rest

/-- Form items from the left.  A range uses up both of its bounds, so its last
character cannot begin another range. -/
def toItems : List Member → List Item
  | [] => []
  | .literal first :: .dash :: .literal last :: rest => .range first last :: toItems rest
  | .literal c :: rest => .single c :: toItems rest
  | .dash :: rest => .single '-' :: toItems rest
  | .set items :: rest => items ++ toItems rest

end Member

/-- The class that a text between brackets writes.  A leading `^` negates it. -/
def ofMembers : List Char → CharClass
  | '^' :: rest => { negated := true, items := Member.toItems (Member.resolve rest) }
  | text => { items := Member.toItems (Member.resolve text) }

end PatternTree.CharClass
