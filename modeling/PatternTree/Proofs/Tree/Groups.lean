import PatternTree.Proofs.Tree.Preorder
import PatternTree.Proofs.Tree.Reader

/-!
# The groups of a tree

The groups of a tree are listed in pre-order, as its pieces are.  Not every group
has a parenthesis in the text: one is made for an exact number that is optional,
as in `a{2}?`.  Such a group is implied, and `Counted` passes over any implied
groups of a list.  A group in parentheses can look just like an implied one, so
the list alone does not tell which of them to pass over.
-/

namespace PatternTree

/-- Whether a piece repeats a group. -/
def Piece.isGroup (piece : Piece) : Bool :=
  match piece.atom with
  | .group _ _ => true
  | _ => false

/-- The number or name of the group that a piece repeats. -/
def Piece.groupId? (piece : Piece) : Option String :=
  match piece.atom with
  | .group id _ => id
  | _ => none

/-- Whether an atom holds no sequence. -/
def Atom.isLeaf : Atom → Bool
  | .group _ _ | .either _ _ => false
  | _ => true

/-- What an exact number and a question mark make of an atom. -/
def Piece.optionalExactly (count : Count) (atom : Atom) : Piece :=
  ⟨.optional, .group none [⟨.braces ⟨some count, false, none⟩, atom⟩]⟩

/-- A group that may have no parenthesis. -/
def Piece.IsImplied (piece : Piece) : Prop :=
  ∃ count atom, piece = .optionalExactly count atom

namespace Sequence

/-- The groups of a sequence in pre-order, each with its quantifier. -/
def groups (sequence : Sequence) : List Piece :=
  ((visits 0 .top sequence).map Visit.piece).filter Piece.isGroup

/-- The numbers and names of the groups that have one, in pre-order. -/
def groupIds (sequence : Sequence) : List String :=
  (groups sequence).filterMap Piece.groupId?

end Sequence

/-! ## Listing groups -/

namespace Sequence

@[simp] theorem groups_nil : groups [] = [] := select_nil Piece.isGroup

theorem groups_append (first second : Sequence) :
    groups (first ++ second) = groups first ++ groups second :=
  select_append Piece.isGroup first second

theorem groups_leaf {quantifier : Quantifier} {atom : Atom} (leaf : atom.isLeaf = true) :
    groups [⟨quantifier, atom⟩] = [] := by
  cases atom with
  | group | either => cases leaf
  | boundary | literal | oneOf | any | backReference => rfl

theorem groups_group (quantifier : Quantifier) (id : Option String) (body : Sequence) :
    groups [⟨quantifier, .group id body⟩] = ⟨quantifier, .group id body⟩ :: groups body :=
  select_group Piece.isGroup quantifier id body

theorem groups_either (quantifier : Quantifier) (left right : Sequence) :
    groups [⟨quantifier, .either left right⟩] = groups left ++ groups right :=
  select_either Piece.isGroup quantifier left right

end Sequence

/-! ## Counting groups -/

/-- `counted` are the groups of a list, where implied groups may be passed over. -/
inductive Counted : List Piece → List Piece → Prop where
  | nil : Counted [] []
  | count (piece : Piece) {groups counted : List Piece} (rest : Counted groups counted) :
      Counted (piece :: groups) (piece :: counted)
  | pass {piece : Piece} (implied : piece.IsImplied) {groups counted : List Piece}
      (rest : Counted groups counted) : Counted (piece :: groups) counted

namespace Counted

variable {groups counted moreGroups moreCounted : List Piece}

theorem append (front : Counted groups counted) (back : Counted moreGroups moreCounted) :
    Counted (groups ++ moreGroups) (counted ++ moreCounted) := by
  induction front with
  | nil => exact back
  | count piece _ ih => exact .count piece ih
  | pass implied _ ih => exact .pass implied ih

/-- Only groups without a number or name are passed over. -/
theorem filterMap_groupId? (holds : Counted groups counted) :
    groups.filterMap Piece.groupId? = counted.filterMap Piece.groupId? := by
  induction holds with
  | nil => rfl
  | count piece _ ih => simp only [List.filterMap_cons, ih]
  | pass implied _ ih =>
      obtain ⟨count, atom, rfl⟩ := implied
      rw [List.filterMap_cons_none rfl, ih]

end Counted

/-! ## Readers -/

/-- An escape stands for an atom that holds no sequence. -/
theorem Escape.isLeaf_of_atom {form : Escape} {pos : Nat} {atEnd : Bool} {atom : Atom}
    (meant : form.atom pos atEnd = .ok atom) : atom.isLeaf = true := by
  cases form with
  | reference | shorthand | literal =>
      cases meant
      rfl
  | property | call => cases meant
  | code value =>
      simp only [Escape.atom] at meant
      split at meant <;> cases meant
      rfl
  | anchor place =>
      rw [Anchor.eq_boundary_of_atom meant]
      rfl

/-- An atom that is read at once holds no sequence. -/
theorem Atom.isLeaf_of_read {pos length : Nat} {head : Char} {tail : List Char} {atom : Atom}
    (found : Atom.read pos head tail = .ok ⟨atom, length⟩) : atom.isLeaf = true := by
  simp only [Atom.read] at found
  split at found
  · cases found
    rfl
  · obtain ⟨span, _, equal⟩ := ParseError.exists_of_map_eq_ok found
    cases equal
    rfl
  · split at found
    · cases found
    · obtain ⟨span, decoded, equal⟩ := ParseError.exists_of_map_eq_ok found
      cases equal
      simp only [Escape.decode] at decoded
      split at decoded
      · next meant =>
          cases decoded
          exact Escape.isLeaf_of_atom meant
      · cases decoded
  · split at found
    · obtain ⟨edge, anchored, equal⟩ := ParseError.exists_of_map_eq_ok found
      cases equal
      rw [Anchor.eq_boundary_of_atom anchored]
      rfl
    · cases found
      rfl

/-- A quantifier repeats the atom that is there, or the group that it implies. -/
theorem Piece.eq_of_read {atom : Atom} {pos length : Nat} {text : List Char} {piece : Piece}
    (found : Piece.read atom pos text = .ok ⟨piece, length⟩) :
    (∃ quantifier, piece = ⟨quantifier, atom⟩) ∨
      ∃ count, piece = .optionalExactly count atom := by
  simp only [Piece.read] at found
  split at found
  · cases found
  · cases found
    exact .inl ⟨.once, rfl⟩
  · next quantifier _ _ _ =>
      split at found
      · next asked =>
          cases found
          rw [Bool.and_eq_true] at asked
          obtain ⟨count, rfl⟩ : ∃ count, quantifier = .braces ⟨some count, false, none⟩ := by
            have exactly := asked.1
            unfold Quantifier.isExact at exactly
            split at exactly
            · exact ⟨_, rfl⟩
            · cases exactly
          exact .inr ⟨count, rfl⟩
      · cases found
        exact .inl ⟨quantifier, rfl⟩

end PatternTree
