import PatternTree.Proofs.Opening
import PatternTree.Tree.Basic

/-!
# The shape of a tree

Reading produces only some of the trees that the types allow, and whoever walks
a tree may rely on that.  A choice is the whole of its sequence, its left side
holds no choice beside it, braces have one of four forms, and a class that lists
nothing is negated.  `Sequence.WellShaped` asks for all of it at every depth.

It follows that the alternatives of every sequence hang on the right of one
another, which `Sequence.Chain` says with their number.
-/

namespace PatternTree

/-- Braces that can be written, with their bounds in order. -/
inductive Braces.WellFormed : Braces → Prop where
  | exactly (count : Count) : WellFormed ⟨some count, false, none⟩
  | atLeast (least : Count) : WellFormed ⟨some least, true, none⟩
  | atMost (most : Count) : WellFormed ⟨none, true, some most⟩
  | between (least most : Count) (ordered : least ≤ most) :
      WellFormed ⟨some least, true, some most⟩

/-- A quantifier whose braces, if it has any, are well-formed. -/
def Quantifier.WellFormed : Quantifier → Prop
  | .braces bounds => bounds.WellFormed
  | _ => True

/-- Whether an atom is a choice between two sequences. -/
def Atom.isChoice : Atom → Bool
  | .either _ _ => true
  | _ => false

namespace Sequence

/-- No piece of the sequence is a choice.  The groups in it may hold choices. -/
def IsPlain (sequence : Sequence) : Prop :=
  ∀ piece ∈ sequence, piece.atom.isChoice = false

/-- A choice in the sequence is all of it, and is not quantified. -/
def IsArranged (sequence : Sequence) : Prop :=
  IsPlain sequence ∨ ∃ left right, sequence = [⟨.once, .either left right⟩]

/-- A sequence with `count` alternatives, each plain and each on the left of all
that come after it. -/
inductive Chain : Nat → Sequence → Prop where
  | single {sequence : Sequence} (plain : IsPlain sequence) : Chain 1 sequence
  | cons {left right : Sequence} {count : Nat} (plain : IsPlain left)
      (rest : Chain count right) : Chain (count + 1) [⟨.once, .either left right⟩]

end Sequence

mutual

/-- The demands on a piece and on all that is inside it. -/
def Piece.WellShaped : Piece → Prop
  | ⟨quantifier, atom⟩ => quantifier.WellFormed ∧ atom.WellShaped

/-- The demands on an atom and on all that is inside it. -/
def Atom.WellShaped : Atom → Prop
  | .boundary | .literal _ | .any => True
  | .oneOf cls => cls.items = [] → cls.negated = true
  | .group id body =>
      (∀ name ∈ id, IsGroupName name.toList) ∧
        Sequence.IsArranged body ∧ Sequence.AllWellShaped body
  | .either left right =>
      Sequence.IsPlain left ∧ Sequence.AllWellShaped left ∧
        Sequence.IsArranged right ∧ Sequence.AllWellShaped right
  | .backReference id => IsName id.toList

/-- The demands on each piece of a sequence. -/
def Sequence.AllWellShaped : Sequence → Prop
  | [] => True
  | piece :: rest => piece.WellShaped ∧ Sequence.AllWellShaped rest

end

/-- The demands on a sequence and on all that is inside it. -/
structure Sequence.WellShaped (sequence : Sequence) : Prop where
  arranged : Sequence.IsArranged sequence
  pieces : Sequence.AllWellShaped sequence

theorem Piece.WellShaped.wellFormed {piece : Piece} (shaped : piece.WellShaped) :
    piece.quantifier.WellFormed := by
  cases piece with
  | mk quantifier atom =>
      rw [Piece.WellShaped] at shaped
      exact shaped.1

mutual

/-- The sequences inside a piece. -/
def Piece.sequences : Piece → List Sequence
  | ⟨_, atom⟩ => atom.sequences

/-- The sequences inside an atom, at every depth. -/
def Atom.sequences : Atom → List Sequence
  | .group _ body => body :: Sequence.inner body
  | .either left right => left :: Sequence.inner left ++ right :: Sequence.inner right
  | _ => []

/-- The sequences inside the pieces of a sequence. -/
def Sequence.inner : Sequence → List Sequence
  | [] => []
  | piece :: rest => piece.sequences ++ Sequence.inner rest

end

/-- Every sequence of a tree, from the sequence of the whole tree inwards. -/
def Sequence.sequences (sequence : Sequence) : List Sequence :=
  sequence :: Sequence.inner sequence

/-! ## Deciding the shape -/

instance (bounds : Braces) : Decidable bounds.WellFormed :=
  match bounds with
  | ⟨some count, false, none⟩ => isTrue (.exactly count)
  | ⟨some least, true, none⟩ => isTrue (.atLeast least)
  | ⟨none, true, some most⟩ => isTrue (.atMost most)
  | ⟨some least, true, some most⟩ =>
      if ordered : least ≤ most then isTrue (.between least most ordered)
      else isFalse fun (.between _ _ holds) => ordered holds
  | ⟨none, false, _⟩ | ⟨none, true, none⟩ | ⟨some _, false, some _⟩ => isFalse nofun

instance (quantifier : Quantifier) : Decidable quantifier.WellFormed :=
  match quantifier with
  | .braces bounds => inferInstanceAs (Decidable bounds.WellFormed)
  | .once | .star | .plus | .optional => isTrue trivial

instance (sequence : Sequence) : Decidable (Sequence.IsPlain sequence) :=
  inferInstanceAs (Decidable (∀ piece ∈ sequence, piece.atom.isChoice = false))

/-- Whether the sequence is one choice and nothing else. -/
def Sequence.isLoneChoice : Sequence → Bool
  | [⟨.once, .either _ _⟩] => true
  | _ => false

theorem Sequence.isLoneChoice_iff {sequence : Sequence} :
    Sequence.isLoneChoice sequence = true ↔
      ∃ left right, sequence = [⟨.once, .either left right⟩] := by
  constructor
  · intro lone
    unfold isLoneChoice at lone
    split at lone
    · exact ⟨_, _, rfl⟩
    · cases lone
  · rintro ⟨left, right, rfl⟩
    rfl

instance (sequence : Sequence) : Decidable (Sequence.IsArranged sequence) :=
  decidable_of_iff (Sequence.IsPlain sequence ∨ Sequence.isLoneChoice sequence = true)
    (by rw [Sequence.IsArranged, Sequence.isLoneChoice_iff])

mutual

def Piece.decidableWellShaped : (piece : Piece) → Decidable piece.WellShaped
  | ⟨quantifier, atom⟩ =>
      have := Atom.decidableWellShaped atom
      decidable_of_iff (quantifier.WellFormed ∧ atom.WellShaped) (by rw [Piece.WellShaped])

def Atom.decidableWellShaped : (atom : Atom) → Decidable atom.WellShaped
  | .boundary | .literal _ | .any => isTrue (by simp [Atom.WellShaped])
  | .oneOf cls =>
      decidable_of_iff (cls.items = [] → cls.negated = true) (by rw [Atom.WellShaped])
  | .group id body =>
      have := Sequence.decidableAllWellShaped body
      decidable_of_iff ((∀ name ∈ id, IsGroupName name.toList) ∧
        Sequence.IsArranged body ∧ Sequence.AllWellShaped body) (by rw [Atom.WellShaped])
  | .either left right =>
      have := Sequence.decidableAllWellShaped left
      have := Sequence.decidableAllWellShaped right
      decidable_of_iff (Sequence.IsPlain left ∧ Sequence.AllWellShaped left ∧
        Sequence.IsArranged right ∧ Sequence.AllWellShaped right) (by rw [Atom.WellShaped])
  | .backReference id => decidable_of_iff (IsName id.toList) (by rw [Atom.WellShaped])

def Sequence.decidableAllWellShaped : (sequence : Sequence) →
    Decidable (Sequence.AllWellShaped sequence)
  | [] => isTrue (by simp [Sequence.AllWellShaped])
  | piece :: rest =>
      have := Piece.decidableWellShaped piece
      have := Sequence.decidableAllWellShaped rest
      decidable_of_iff (piece.WellShaped ∧ Sequence.AllWellShaped rest)
        (by rw [Sequence.AllWellShaped])

end

instance (sequence : Sequence) : Decidable (Sequence.WellShaped sequence) :=
  have := Sequence.decidableAllWellShaped sequence
  decidable_of_iff (Sequence.IsArranged sequence ∧ Sequence.AllWellShaped sequence)
    ⟨fun holds => ⟨holds.1, holds.2⟩, fun holds => ⟨holds.arranged, holds.pieces⟩⟩

/-! ## Plain sequences -/

namespace Sequence

variable {piece : Piece} {first second rest : Sequence}

@[simp] theorem isPlain_nil : IsPlain [] := by
  simp [IsPlain]

@[simp] theorem isPlain_cons :
    IsPlain (piece :: rest) ↔ piece.atom.isChoice = false ∧ IsPlain rest := by
  simp [IsPlain]

@[simp] theorem isPlain_reverse : IsPlain first.reverse ↔ IsPlain first := by
  simp [IsPlain]

@[simp] theorem allWellShaped_nil : AllWellShaped [] := by
  simp [AllWellShaped]

@[simp] theorem allWellShaped_cons :
    AllWellShaped (piece :: rest) ↔ piece.WellShaped ∧ AllWellShaped rest := by
  rw [AllWellShaped]

theorem allWellShaped_iff {sequence : Sequence} :
    AllWellShaped sequence ↔ ∀ piece ∈ sequence, piece.WellShaped := by
  induction sequence with
  | nil => simp
  | cons piece rest ih => simp [ih]

@[simp] theorem allWellShaped_reverse : AllWellShaped first.reverse ↔ AllWellShaped first := by
  simp [allWellShaped_iff]

/-- A sequence of pieces that are plain and well-shaped is well-shaped. -/
theorem WellShaped.of_isPlain (plain : IsPlain first) (pieces : AllWellShaped first) :
    WellShaped first :=
  ⟨.inl plain, pieces⟩

/-- A choice of a plain left side and any right side is well-shaped. -/
theorem WellShaped.either (plain : IsPlain first) (left : AllWellShaped first)
    (right : WellShaped second) : WellShaped [⟨.once, .either first second⟩] where
  arranged := .inr ⟨first, second, rfl⟩
  pieces := by
    simp only [allWellShaped_cons, allWellShaped_nil, and_true, Piece.WellShaped,
      Atom.WellShaped, Quantifier.WellFormed, true_and]
    exact ⟨plain, left, right.arranged, right.pieces⟩

end Sequence

/-! ## The sequences of a well-shaped tree -/

mutual

theorem Piece.wellShaped_of_mem_sequences : {piece : Piece} → piece.WellShaped →
    ∀ sequence ∈ piece.sequences, Sequence.WellShaped sequence
  | ⟨_, _⟩, shaped => by
      rw [Piece.WellShaped] at shaped
      rw [Piece.sequences]
      exact Atom.wellShaped_of_mem_sequences shaped.2

theorem Atom.wellShaped_of_mem_sequences : {atom : Atom} → atom.WellShaped →
    ∀ sequence ∈ atom.sequences, Sequence.WellShaped sequence
  | .boundary, _ | .literal _, _ | .any, _ | .oneOf _, _ | .backReference _, _ => by
      simp [Atom.sequences]
  | .group _ body, shaped => by
      simp only [Atom.WellShaped] at shaped
      intro sequence member
      simp only [Atom.sequences, List.mem_cons] at member
      cases member with
      | inl equal => exact equal ▸ ⟨shaped.2.1, shaped.2.2⟩
      | inr inside => exact Sequence.wellShaped_of_mem_inner shaped.2.2 sequence inside
  | .either left right, shaped => by
      simp only [Atom.WellShaped] at shaped
      intro sequence member
      simp only [Atom.sequences, List.cons_append, List.mem_cons, List.mem_append] at member
      rcases member with equal | inside | equal | inside
      · exact equal ▸ .of_isPlain shaped.1 shaped.2.1
      · exact Sequence.wellShaped_of_mem_inner shaped.2.1 sequence inside
      · exact equal ▸ ⟨shaped.2.2.1, shaped.2.2.2⟩
      · exact Sequence.wellShaped_of_mem_inner shaped.2.2.2 sequence inside

theorem Sequence.wellShaped_of_mem_inner : {outer : Sequence} → Sequence.AllWellShaped outer →
    ∀ sequence ∈ Sequence.inner outer, Sequence.WellShaped sequence
  | [], _ => by simp [Sequence.inner]
  | piece :: rest, shaped => by
      rw [Sequence.allWellShaped_cons] at shaped
      intro sequence member
      simp only [Sequence.inner, List.mem_append] at member
      cases member with
      | inl inside => exact Piece.wellShaped_of_mem_sequences shaped.1 sequence inside
      | inr inside => exact Sequence.wellShaped_of_mem_inner shaped.2 sequence inside

end

/-- The alternatives of a well-shaped sequence nest on the right. -/
theorem Sequence.WellShaped.exists_chain : {sequence : Sequence} →
    Sequence.WellShaped sequence → ∃ count, Sequence.Chain count sequence
  | _, ⟨.inl plain, _⟩ => ⟨1, .single plain⟩
  | _, ⟨.inr ⟨left, right, rfl⟩, pieces⟩ => by
      simp only [Sequence.allWellShaped_cons, Piece.WellShaped, Atom.WellShaped] at pieces
      obtain ⟨⟨_, plain, _, arranged, rightPieces⟩, _⟩ := pieces
      obtain ⟨count, chain⟩ := Sequence.WellShaped.exists_chain ⟨arranged, rightPieces⟩
      exact ⟨count + 1, .cons plain chain⟩

end PatternTree
