import PatternTree.Proofs.Tree.Groups
import PatternTree.Proofs.Tree.Shape
import PatternTree.Scan

/-!
# The weight of a tree

The weight of a tree is how many groups and alternatives have to be open at once while a
text for it is read.  A group that an exact number implies opens none, and the left side of
a choice has been read before its bar.  So a tree can be deeper than it weighs, but not
without end: at most three levels of a well-shaped tree have the same weight.
-/

namespace PatternTree

mutual

/-- The weight of a piece.  A group that an exact number implies weighs nothing. -/
def Piece.weight : Piece → Nat
  | ⟨.optional, .group none [⟨.braces ⟨some _, false, none⟩, atom⟩]⟩ => atom.weight
  | ⟨_, atom⟩ => atom.weight

/-- The weight of an atom.  A group is open for its body, and an alternative for all that
comes after its bar. -/
def Atom.weight : Atom → Nat
  | .group _ body => Sequence.weight body + 1
  | .either left right => max (Sequence.weight left) (Sequence.weight right + 1)
  | _ => 0

/-- The weight of a sequence. -/
def Sequence.weight : Sequence → Nat
  | [] => 0
  | piece :: rest => max piece.weight (Sequence.weight rest)

end

@[simp] theorem Piece.weight_optionalExactly (count : Count) (atom : Atom) :
    (Piece.optionalExactly count atom).weight = atom.weight := rfl

theorem Atom.weight_of_isLeaf {atom : Atom} (leaf : atom.isLeaf = true) : atom.weight = 0 := by
  cases atom with
  | group | either => cases leaf
  | boundary | literal | oneOf | any | backReference => rfl

/-- A piece weighs what its atom weighs, unless it has an implied group. -/
theorem Piece.weight_eq_or (quantifier : Quantifier) (atom : Atom) :
    (∃ count inner, Piece.mk quantifier atom = .optionalExactly count inner) ∨
      (Piece.mk quantifier atom).weight = atom.weight := by
  unfold Piece.weight
  split
  · next count inner equal =>
      cases equal
      exact .inl ⟨count, inner, rfl⟩
  · next equal =>
      cases equal
      exact .inr rfl

theorem Atom.weight_impliedGroup (count : Count) (atom : Atom) :
    Atom.weight (.group none [⟨.braces ⟨some count, false, none⟩, atom⟩]) = atom.weight + 1 := by
  simp [Atom.weight, Sequence.weight, Piece.weight]

theorem Piece.weight_le (quantifier : Quantifier) (atom : Atom) :
    (Piece.mk quantifier atom).weight ≤ atom.weight := by
  rcases Piece.weight_eq_or quantifier atom with ⟨count, inner, equal⟩ | equal
  · cases equal
    rw [← Piece.optionalExactly, Piece.weight_optionalExactly, Atom.weight_impliedGroup]
    exact Nat.le_succ _
  · exact Nat.le_of_eq equal

namespace Sequence

@[simp] theorem weight_nil : weight [] = 0 := rfl

@[simp] theorem weight_cons (piece : Piece) (rest : Sequence) :
    weight (piece :: rest) = max piece.weight (weight rest) := rfl

@[simp] theorem weight_append (first second : Sequence) :
    weight (first ++ second) = max (weight first) (weight second) := by
  induction first with
  | nil => simp
  | cons piece rest ih => simp [ih, Nat.max_assoc]

theorem weight_either (left right : Sequence) :
    weight [⟨.once, .either left right⟩] = max (weight left) (weight right + 1) := by
  simp [Piece.weight, Atom.weight]

end Sequence

/-! ## Drafts -/

namespace Draft

/-- The last alternative is read while all the others are open. -/
theorem weight_foldl_either (alternatives : List Sequence) (last : Sequence) :
    Sequence.weight (alternatives.foldl (fun right left => [⟨.once, .either left right⟩]) last) =
      max (Sequence.weight
          (alternatives.foldl (fun right left => [⟨.once, .either left right⟩]) []))
        (Sequence.weight last + alternatives.length) := by
  induction alternatives generalizing last with
  | nil => simp
  | cons left rest ih =>
      rw [List.foldl_cons, List.foldl_cons, ih, ih [⟨.once, .either left []⟩]]
      simp only [Sequence.weight_either, Sequence.weight_nil, List.length_cons]
      omega

variable (draft : Draft)

theorem length_alternatives_le_weight :
    draft.alternatives.length ≤ Sequence.weight draft.finish := by
  rw [finish, weight_foldl_either]
  omega

theorem weight_finish_split :
    Sequence.weight draft.split.finish =
      max (Sequence.weight draft.finish) (draft.alternatives.length + 1) := by
  rw [finish, finish, split, List.foldl_cons, weight_foldl_either,
    weight_foldl_either draft.alternatives draft.pieces.reverse, List.reverse_nil,
    Sequence.weight_either, Sequence.weight_nil]
  omega

theorem weight_finish_push_le (piece : Piece) :
    Sequence.weight (draft.push piece).finish ≤
      max (Sequence.weight draft.finish) (piece.weight + draft.alternatives.length) := by
  unfold push
  split
  · exact Nat.le_max_left _ _
  · rw [finish, finish, weight_foldl_either,
      weight_foldl_either draft.alternatives draft.pieces.reverse, List.reverse_cons,
      Sequence.weight_append, Sequence.weight_cons, Sequence.weight_nil]
    simp only
    omega

end Draft

/-! ## Depth -/

/-- How deep a visit may be in a tree that begins at `depth` and has this weight.  Where
there is no choice to begin with, the tree is one level less deep. -/
structure Visit.IsWithin (depth weight : Nat) (plain : Prop) (visit : Visit) : Prop where
  le : visit.depth ≤ depth + 3 * weight + 1
  le_of_plain : plain → visit.depth ≤ depth + max 1 (3 * weight)

/-- The atom in a group that an exact number implies is well-shaped and no choice. -/
theorem Piece.wellShaped_implied {count : Count} {atom : Atom}
    (shaped : Atom.WellShaped (.group none [⟨.braces ⟨some count, false, none⟩, atom⟩])) :
    atom.isChoice = false ∧ atom.WellShaped := by
  simp only [Atom.WellShaped, Sequence.allWellShaped_cons, Piece.WellShaped] at shaped
  obtain ⟨_, arranged, ⟨_, atomShaped⟩, _⟩ := shaped
  rcases arranged with plain | ⟨left, right, equal⟩
  · exact ⟨(Sequence.isPlain_cons.mp plain).1, atomShaped⟩
  · cases equal

mutual

theorem Piece.isWithin {depth : Nat} {place : Place} : {piece : Piece} → piece.WellShaped →
    ∀ visit ∈ piece.visits depth place,
      visit.IsWithin depth piece.weight (piece.atom.isChoice = false)
  | ⟨quantifier, atom⟩, shaped, visit, member => by
      simp only [Piece.visits, List.mem_cons] at member
      rw [Piece.WellShaped] at shaped
      rcases member with rfl | inside
      · exact ⟨by simp only; omega, fun _ => Nat.le_add_right depth _⟩
      rcases Piece.weight_eq_or quantifier atom with ⟨count, inner, equal⟩ | weightEq
      · -- The implied group is two levels down to its atom, and neither of them weighs anything.
        cases equal
        obtain ⟨single, innerShaped⟩ := Piece.wellShaped_implied shaped.2
        simp only [Atom.visits, Sequence.visits, Piece.visits, List.append_nil, List.mem_cons]
          at inside
        rw [← Piece.optionalExactly, Piece.weight_optionalExactly]
        rcases inside with rfl | inside
        · exact ⟨by simp only; omega, fun _ => by simp only; omega⟩
        · have bound := (Atom.depth_le innerShaped visit inside).2 single
          exact ⟨by omega, fun _ => by omega⟩
      · obtain ⟨bound, singleBound⟩ := Atom.depth_le shaped.2 visit inside
        rw [weightEq]
        refine ⟨by omega, ?_⟩
        intro single
        have within := singleBound single
        omega

theorem Atom.depth_le {depth : Nat} : {atom : Atom} → atom.WellShaped →
    ∀ visit ∈ atom.visits depth, visit.depth ≤ depth + 3 * atom.weight ∧
      (atom.isChoice = false → visit.depth + 2 ≤ depth + 3 * atom.weight)
  | .boundary, _ | .literal _, _ | .any, _ | .oneOf _, _ | .backReference _, _ => by
      simp [Atom.visits]
  | .group _ body, shaped => by
      simp only [Atom.WellShaped] at shaped
      intro visit member
      have bound := (Sequence.isWithin shaped.2.2 visit member).le
      simp only [Atom.weight]
      omega
  | .either left right, shaped => by
      simp only [Atom.WellShaped] at shaped
      intro visit member
      simp only [Atom.visits, List.mem_append] at member
      simp only [Atom.weight, Atom.isChoice, Bool.true_eq_false, false_implies, and_true]
      cases member with
      | inl onLeft =>
          have bound := (Sequence.isWithin shaped.2.1 visit onLeft).le_of_plain shaped.1
          omega
      | inr onRight =>
          have bound := (Sequence.isWithin shaped.2.2.2 visit onRight).le
          omega

theorem Sequence.isWithin {depth : Nat} {place : Place} : {sequence : Sequence} →
    Sequence.AllWellShaped sequence → ∀ visit ∈ Sequence.visits depth place sequence,
      visit.IsWithin depth (Sequence.weight sequence) (Sequence.IsPlain sequence)
  | [], _ => by simp [Sequence.visits]
  | piece :: rest, shaped => by
      rw [Sequence.allWellShaped_cons] at shaped
      rw [Sequence.isPlain_cons, Sequence.weight_cons]
      intro visit member
      simp only [Sequence.visits, List.mem_append] at member
      cases member with
      | inl inFirst =>
          obtain ⟨bound, plainBound⟩ := Piece.isWithin shaped.1 visit inFirst
          refine ⟨by omega, ?_⟩
          intro plain
          have within := plainBound plain.1
          omega
      | inr inRest =>
          obtain ⟨bound, plainBound⟩ := Sequence.isWithin shaped.2 visit inRest
          refine ⟨by omega, ?_⟩
          intro plain
          have within := plainBound plain.2
          omega

end

end PatternTree
