import PatternTree.Proofs.Tree.Shape
import PatternTree.Tree.Preorder

/-!
# What holds of every piece of a tree

A demand that is made on a tree at every depth is made on each of its pieces.  The pieces
of one kind are selected from the pre-order of all, and the selection grows with the tree.
-/

namespace PatternTree

mutual

theorem Piece.wellShaped_of_mem_visits {depth : Nat} {place : Place} : {piece : Piece} →
    piece.WellShaped → ∀ visit ∈ piece.visits depth place, visit.piece.WellShaped
  | ⟨_, _⟩, shaped, visit, member => by
      simp only [Piece.visits, List.mem_cons] at member
      cases member with
      | inl equal => exact equal ▸ shaped
      | inr inside =>
          rw [Piece.WellShaped] at shaped
          exact Atom.wellShaped_of_mem_visits shaped.2 visit inside

theorem Atom.wellShaped_of_mem_visits {depth : Nat} : {atom : Atom} → atom.WellShaped →
    ∀ visit ∈ atom.visits depth, visit.piece.WellShaped
  | .boundary, _ | .literal _, _ | .any, _ | .oneOf _, _ | .backReference _, _ => by
      simp [Atom.visits]
  | .group _ _, shaped => by
      simp only [Atom.WellShaped] at shaped
      exact Sequence.wellShaped_of_mem_visits shaped.2.2
  | .either _ _, shaped => by
      simp only [Atom.WellShaped] at shaped
      intro visit member
      simp only [Atom.visits, List.mem_append] at member
      cases member with
      | inl onLeft => exact Sequence.wellShaped_of_mem_visits shaped.2.1 visit onLeft
      | inr onRight => exact Sequence.wellShaped_of_mem_visits shaped.2.2.2 visit onRight

theorem Sequence.wellShaped_of_mem_visits {depth : Nat} {place : Place} :
    {sequence : Sequence} → Sequence.AllWellShaped sequence →
      ∀ visit ∈ Sequence.visits depth place sequence, visit.piece.WellShaped
  | [], _ => by simp [Sequence.visits]
  | _ :: _, shaped => by
      rw [Sequence.allWellShaped_cons] at shaped
      intro visit member
      simp only [Sequence.visits, List.mem_append] at member
      cases member with
      | inl inFirst => exact Piece.wellShaped_of_mem_visits shaped.1 visit inFirst
      | inr inRest => exact Sequence.wellShaped_of_mem_visits shaped.2 visit inRest

end

/-! ## Selecting pieces -/

mutual

/-- Where a tree hangs has no part in the order of its pieces. -/
theorem Piece.map_piece_visits (depth : Nat) (place : Place) : (piece : Piece) →
    (piece.visits depth place).map Visit.piece = (piece.visits 0 .top).map Visit.piece
  | ⟨_, atom⟩ => by
      simp only [Piece.visits, List.map_cons]
      rw [Atom.map_piece_visits (depth + 1), Atom.map_piece_visits (0 + 1)]

theorem Atom.map_piece_visits (depth : Nat) : (atom : Atom) →
    (atom.visits depth).map Visit.piece = (atom.visits 0).map Visit.piece
  | .boundary | .literal _ | .oneOf _ | .any | .backReference _ => by
      simp only [Atom.visits]
  | .group _ body => by
      simp only [Atom.visits]
      rw [Sequence.map_piece_visits depth .body, Sequence.map_piece_visits 0 .body]
  | .either left right => by
      simp only [Atom.visits, List.map_append]
      rw [Sequence.map_piece_visits depth .left, Sequence.map_piece_visits depth .right,
        Sequence.map_piece_visits 0 .left, Sequence.map_piece_visits 0 .right]

theorem Sequence.map_piece_visits (depth : Nat) (place : Place) : (sequence : Sequence) →
    (Sequence.visits depth place sequence).map Visit.piece =
      (Sequence.visits 0 .top sequence).map Visit.piece
  | [] => by simp only [Sequence.visits]
  | piece :: rest => by
      simp only [Sequence.visits, List.map_append]
      rw [Piece.map_piece_visits depth place, Sequence.map_piece_visits depth place]

end

namespace Sequence

/-- The pieces of a tree that `keep` accepts, in pre-order. -/
def select (keep : Piece → Bool) (sequence : Sequence) : List Piece :=
  ((visits 0 .top sequence).map Visit.piece).filter keep

variable (keep : Piece → Bool)

@[simp] theorem select_nil : select keep [] = [] := by
  simp [select, visits]

theorem select_cons (piece : Piece) (rest : Sequence) :
    select keep (piece :: rest) = select keep [piece] ++ select keep rest := by
  simp [select, visits]

theorem select_append (first second : Sequence) :
    select keep (first ++ second) = select keep first ++ select keep second := by
  induction first with
  | nil => simp
  | cons piece rest ih =>
      rw [List.cons_append, select_cons, select_cons keep piece rest, ih, List.append_assoc]

/-- A group comes before the pieces of its body. -/
theorem select_group (quantifier : Quantifier) (id : Option String) (body : Sequence) :
    select keep [⟨quantifier, .group id body⟩] =
      [⟨quantifier, .group id body⟩].filter keep ++ select keep body := by
  simp only [select, visits, Piece.visits, Atom.visits, List.append_nil, List.map_cons]
  rw [map_piece_visits (0 + 1) .body, ← List.filter_append]
  rfl

/-- A choice comes before the pieces of its sides. -/
theorem select_either (quantifier : Quantifier) (left right : Sequence) :
    select keep [⟨quantifier, .either left right⟩] =
      [⟨quantifier, .either left right⟩].filter keep ++ (select keep left ++ select keep right) := by
  simp only [select, visits, Piece.visits, Atom.visits, List.append_nil, List.map_cons,
    List.map_append]
  rw [map_piece_visits (0 + 1) .left, map_piece_visits (0 + 1) .right, ← List.filter_append,
    ← List.filter_append]
  rfl

end Sequence

end PatternTree
