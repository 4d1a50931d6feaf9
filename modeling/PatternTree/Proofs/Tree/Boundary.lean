import PatternTree.Proofs.Escape
import PatternTree.Proofs.Tree.Ending
import PatternTree.Proofs.Tree.Groups

/-!
# Boundaries among the leaves of a tree

A boundary is the literal of the empty text.  It is a leaf of the tree like any other
literal, and only an anchor is read as one.  An anchor to the end has no text behind it, so
nothing can repeat it.
-/

namespace PatternTree

/-- The text that a literal takes.  A boundary takes none of it. -/
def Atom.literal? : Atom → Option String
  | .boundary => some ""
  | .literal c => some (String.singleton c)
  | _ => none

theorem Atom.length_le_of_literal? {atom : Atom} {text : String} (found : atom.literal? = some text) :
    text.length ≤ 1 := by
  unfold literal? at found
  split at found <;> cases found <;> simp

theorem Atom.eq_boundary_of_literal? {atom : Atom} (found : atom.literal? = some "") :
    atom = .boundary := by
  unfold literal? at found
  split at found
  · rfl
  · simp at found
  · cases found

namespace Sequence

/-- The pieces of a tree that hold no sequence, from left to right. -/
def leaves (sequence : Sequence) : List Piece :=
  select (fun piece => piece.atom.isLeaf) sequence

@[simp] theorem leaves_nil : leaves [] = [] := select_nil _

theorem leaves_append (first second : Sequence) :
    leaves (first ++ second) = leaves first ++ leaves second := select_append _ first second

theorem leaves_leaf {quantifier : Quantifier} {atom : Atom} (leaf : atom.isLeaf = true) :
    leaves [⟨quantifier, atom⟩] = [⟨quantifier, atom⟩] := by
  cases atom with
  | group | either => cases leaf
  | boundary | literal | oneOf | any | backReference => rfl

@[simp] theorem leaves_group (quantifier : Quantifier) (id : Option String) (body : Sequence) :
    leaves [⟨quantifier, .group id body⟩] = leaves body := select_group _ quantifier id body

@[simp] theorem leaves_either (quantifier : Quantifier) (left right : Sequence) :
    leaves [⟨quantifier, .either left right⟩] = leaves left ++ leaves right :=
  select_either _ quantifier left right

/-- No leaf of the tree is a boundary. -/
def IsBoundless (sequence : Sequence) : Prop :=
  ∀ leaf ∈ leaves sequence, leaf.atom ≠ .boundary

variable {first second : Sequence}

@[simp] theorem isBoundless_nil : IsBoundless [] := by
  simp [IsBoundless]

theorem isBoundless_append :
    IsBoundless (first ++ second) ↔ IsBoundless first ∧ IsBoundless second := by
  simp only [IsBoundless, leaves_append, List.forall_mem_append]

theorem isBoundless_cons {piece : Piece} {rest : Sequence} :
    IsBoundless (piece :: rest) ↔ IsBoundless [piece] ∧ IsBoundless rest :=
  @isBoundless_append [piece] rest

@[simp] theorem isBoundless_reverse : IsBoundless first.reverse ↔ IsBoundless first := by
  induction first with
  | nil => rfl
  | cons piece rest ih =>
      rw [List.reverse_cons, isBoundless_append, ih, @isBoundless_cons piece rest, and_comm]

theorem isBoundless_either {quantifier : Quantifier} {left right : Sequence} :
    IsBoundless [⟨quantifier, .either left right⟩] ↔ IsBoundless left ∧ IsBoundless right := by
  simp only [IsBoundless, leaves_either, List.forall_mem_append]

theorem IsBoundless.literal?_ne {sequence : Sequence} (boundless : IsBoundless sequence) :
    ∀ leaf ∈ leaves sequence, leaf.atom.literal? ≠ some "" := fun leaf member found =>
  boundless leaf member (Atom.eq_boundary_of_literal? found)

theorem IsBoundless.countP_eq_zero {sequence : Sequence} (boundless : IsBoundless sequence) :
    (leaves sequence).countP (fun leaf => leaf.atom.literal? == some "") = 0 := by
  rw [List.countP_eq_zero]
  simpa using boundless.literal?_ne

end Sequence

/-- A quantifier that repeats an atom adds no boundary to those of the atom. -/
theorem Piece.isBoundless_of_read {atom : Atom} {pos length : Nat} {text : List Char}
    {piece : Piece} (boundless : ∀ quantifier, Sequence.IsBoundless [⟨quantifier, atom⟩])
    (found : Piece.read atom pos text = .ok ⟨piece, length⟩) : Sequence.IsBoundless [piece] := by
  rcases Piece.eq_of_read found with ⟨quantifier, rfl⟩ | ⟨count, rfl⟩
  · exact boundless quantifier
  · rw [Sequence.IsBoundless, Piece.optionalExactly, Sequence.leaves_group]
    exact boundless _

/-! ## Anchors that are read as boundaries -/

/-- The ways to write an anchor to the start. -/
def Anchor.starts : List (List Char) :=
  [['^'], ['A'], ['\\', 'A']]

theorem Anchor.mem_starts {text : List Char} :
    text ∈ starts ↔ text = ['^'] ∨ text = ['A'] ∨ text = ['\\', 'A'] := by
  simp only [starts, List.mem_cons, List.not_mem_nil, or_false]

/-- An anchor holds at the edge that it names. -/
theorem Anchor.holds_of_atom {anchor : Anchor} {pos : Nat} {atStart atEnd : Bool} {atom : Atom}
    (found : anchor.atom pos atStart atEnd = .ok atom) :
    (anchor = .start ∧ atStart = true) ∨ (anchor = .stop ∧ atEnd = true) := by
  cases anchor with
  | start =>
      cases atStart <;> cases found
      exact .inl ⟨rfl, rfl⟩
  | stop =>
      cases atEnd <;> cases found
      exact .inr ⟨rfl, rfl⟩
  | within => cases found

/-- An escape is read as a boundary after the backslash that starts the pattern, or
before its end. -/
theorem Escape.anchor_of_decode {pos length : Nat} {key : Char} {rest : List Char}
    (decoded : decode pos key rest = .ok ⟨.boundary, length⟩) :
    length = 0 ∧ (pos = 1 ∧ key = 'A' ∨ rest = []) := by
  simp only [decode] at decoded
  split at decoded
  · next meant =>
      cases decoded
      have written := written_read key rest
      cases form : (read key rest).value with
      | reference | shorthand | property | call | literal =>
          rw [form] at meant
          cases meant
      | code value =>
          rw [form] at meant
          simp only [Escape.atom] at meant
          split at meant <;> cases meant
      | anchor place =>
          rw [form] at meant written
          cases written with
          | anchor found =>
              have mark := Anchor.mem_of_ofEscaped? found
              have alone : (read key rest).length = 0 := by
                rw [read_of_mem]
                simp only [List.mem_cons, List.not_mem_nil, or_false] at mark ⊢
                tauto
              refine ⟨alone, ?_⟩
              rcases Anchor.holds_of_atom meant with ⟨rfl, atStart⟩ | ⟨rfl, atEnd⟩
              · exact .inl ⟨by simpa using atStart, by simpa using mark⟩
              · exact .inr (List.isEmpty_iff.mp atEnd)
  · cases decoded

/-- What is read as a boundary is an anchor to the start that stands there, or has no text
behind it. -/
theorem Atom.start_or_stop_of_read {pos length : Nat} {head : Char} {tail : List Char}
    (found : Atom.read pos head tail = .ok ⟨.boundary, length⟩) :
    (pos = 0 ∧ head :: tail.take length ∈ Anchor.starts) ∨
      tail.drop length = [] := by
  simp only [Atom.read] at found
  split at found
  · cases found
  · obtain ⟨span, _, equal⟩ := ParseError.exists_of_map_eq_ok found
    cases equal
  · split at found
    · cases found
    · obtain ⟨⟨escape, taken⟩, decoded, equal⟩ := ParseError.exists_of_map_eq_ok found
      cases equal
      obtain ⟨rfl, ⟨start, rfl⟩ | rfl⟩ := Escape.anchor_of_decode decoded
      · exact .inl ⟨Nat.succ.inj start, by simp [Anchor.starts]⟩
      · exact .inr rfl
  · split at found
    · next anchor written =>
        obtain ⟨atom, meant, equal⟩ := ParseError.exists_of_map_eq_ok found
        cases equal
        rcases Anchor.holds_of_atom meant with ⟨rfl, atStart⟩ | ⟨rfl, atEnd⟩
        · have mark := Anchor.mem_of_ofChar? written
          left
          simpa [Anchor.starts] using And.intro atStart mark
        · exact .inr (List.isEmpty_iff.mp atEnd)
    · cases found

/-- An anchor to the end is read as a boundary that no text comes after. -/
theorem Atom.boundary_of_read_ending {pos length : Nat} {head : Char} {tail : List Char}
    {atom : Atom} (found : Atom.read pos head tail = .ok ⟨atom, length⟩) {ending : List Char}
    (isStop : ending ∈ Anchor.stops)
    (begins : ending <+: head :: tail) : atom = .boundary ∧ tail.drop length = [] := by
  obtain ⟨rest, textEq⟩ := begins
  rcases Anchor.mem_stops.mp isStop with rfl | rfl | rfl | rfl | rfl
  all_goals
    cases textEq
    cases rest with
    | nil =>
        cases found
        exact ⟨rfl, rfl⟩
    | cons => cases found

end PatternTree
