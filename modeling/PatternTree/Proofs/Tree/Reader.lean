import PatternTree.Proofs.Quantifier.Spelling
import PatternTree.Proofs.Tree.Shape
import PatternTree.Tree.Reader

/-!
# Readers give well-shaped pieces

Each reader of atoms and pieces is looked at once, for the shape of what it
gives.  A class that reads as nothing can only be `[^]`, since the text between
two brackets is never empty, and braces that are read at all have their bounds
in order.
-/

namespace PatternTree

/-! ## Classes -/

namespace CharClass

theorem shorthand?_ne_nil {key : Char} {items : List Item}
    (found : shorthand? key = some items) : items ≠ [] := by
  simp only [shorthand?] at found
  split at found <;> cases found <;> simp

namespace Member

/-- Each part of a text between brackets stands for an item at least. -/
theorem toItems_ne_nil {member : Member} (rest : List Member)
    (holds : member ≠ .set []) : toItems (member :: rest) ≠ [] := by
  unfold toItems
  split
  · next equal => cases equal
  · simp
  · simp
  · simp
  · next items rest equal =>
      cases equal
      intro empty
      exact holds (by rw [(List.append_eq_nil_iff.mp empty).1])

theorem ofEscaped_ne_set_nil (key : Char) : ofEscaped key ≠ .set [] := by
  simp only [ofEscaped]
  split
  · simp
  · next found =>
      simp only [ne_eq, set.injEq]
      exact shorthand?_ne_nil found
  · simp

theorem toItems_resolve_ne_nil {text : List Char} (nonempty : text ≠ []) :
    toItems (resolve text) ≠ [] := by
  unfold resolve
  split
  · exact absurd rfl nonempty
  · exact toItems_ne_nil _ (by simp)
  · exact toItems_ne_nil _ (ofEscaped_ne_set_nil _)
  · exact toItems_ne_nil _ (by simp)
  · exact toItems_ne_nil _ (by simp)

end Member

theorem negated_of_ofMembers {text : List Char} (nonempty : text ≠ [])
    (empty : (ofMembers text).items = []) : (ofMembers text).negated = true := by
  unfold ofMembers at empty ⊢
  split at empty
  · rfl
  · exact absurd empty (Member.toItems_resolve_ne_nil nonempty)

/-- A bracket expression has a text between its brackets. -/
theorem contentLength?_ne_zero (text : List Char) : contentLength? text ≠ some 0 := by
  simp only [contentLength?]
  split
  · simp
  · next notClosed =>
      cases text with
      | nil => simp [lengthToClose?]
      | cons head tail =>
          have notBracket : head ≠ ']' := by
            intro equal
            exact notClosed tail (by rw [equal])
          simp [lengthToClose?, notBracket]

theorem negated_of_read {pos length : Nat} {text : List Char} {cls : CharClass}
    (found : CharClass.read pos text = .ok ⟨cls, length⟩) (empty : cls.items = []) :
    cls.negated = true := by
  simp only [CharClass.read] at found
  split at found
  · cases found
  · split at found
    · cases found
    · next inner closed =>
        cases found
        refine negated_of_ofMembers ?_ empty
        intro taken
        have inside := lt_length_of_contentLength? closed
        have innerEq : inner = 0 := by
          have lengthEq := congrArg List.length taken
          rw [List.length_take, List.length_nil] at lengthEq
          omega
        exact contentLength?_ne_zero text (innerEq ▸ closed)

end CharClass

/-! ## Escapes -/

namespace Escape

/-- What an escape form must hold for its atom to be well-shaped. -/
def WellFormed : Escape → Prop
  | .reference id => IsName id.toList
  | .shorthand cls => cls.items ≠ []
  | _ => True

theorem wellFormed_of_named? {key : Char} {rest : List Char} {span : Span Escape}
    (found : named? key rest = some span) : span.value.WellFormed := by
  simp only [named?] at found
  split at found
  · obtain ⟨name, nameFound, rfl⟩ := Option.map_eq_some_iff.mp found
    simp only [WellFormed, String.toList_ofList]
    exact (Text.enclosed?_eq_some_iff_isName.mp nameFound).1
  · obtain ⟨name, _, rfl⟩ := Option.map_eq_some_iff.mp found
    trivial
  · cases found

theorem wellFormed_ofChar (key : Char) : (ofChar key).WellFormed := by
  simp only [ofChar]
  split
  · next found =>
      obtain ⟨items, itemsFound, rfl⟩ := Option.map_eq_some_iff.mp found
      exact CharClass.shorthand?_ne_nil itemsFound
  · trivial
  · split <;> trivial

/-- A run of digits is a name, since no digit is the mark that ends a name. -/
theorem isName_of_digits {digits : List Char} (nonempty : digits ≠ [])
    (all : ∀ c ∈ digits, c.isDigit = true) : IsName digits where
  nonempty := nonempty
  unmarked member := by
    have digit := all '>' member
    contradiction

theorem wellFormed_read (key : Char) (rest : List Char) : (read key rest).value.WellFormed := by
  simp only [read]
  split
  · next digit =>
      simp only [WellFormed, String.toList_ofList]
      apply isName_of_digits (by simp)
      intro c member
      cases member with
      | head => exact digit
      | tail _ member => exact List.all_eq_true.mp List.all_takeWhile c member
  · split
    · next named => exact wellFormed_of_named? named
    · trivial
    · exact wellFormed_ofChar key

end Escape

theorem Anchor.eq_boundary_of_atom {anchor : Anchor} {pos : Nat} {atStart atEnd : Bool}
    {atom : Atom} (found : anchor.atom pos atStart atEnd = .ok atom) : atom = .boundary := by
  cases anchor with
  | start =>
      cases atStart <;> cases found
      rfl
  | stop =>
      cases atEnd <;> cases found
      rfl
  | within => cases found

/-- What an escape gives is well-shaped and holds no sequence. -/
theorem Escape.wellShaped_of_decode {pos length : Nat} {key : Char} {rest : List Char}
    {atom : Atom} (decoded : decode pos key rest = .ok ⟨atom, length⟩) :
    atom.WellShaped ∧ atom.isChoice = false := by
  simp only [decode] at decoded
  split at decoded
  · next meant =>
      cases decoded
      have wellFormed := wellFormed_read key rest
      cases form : (read key rest).value with
      | reference id =>
          rw [form] at meant wellFormed
          cases meant
          exact ⟨wellFormed, rfl⟩
      | shorthand cls =>
          rw [form] at meant wellFormed
          cases meant
          exact ⟨fun empty => absurd empty wellFormed, rfl⟩
      | code value =>
          rw [form] at meant
          simp only [Escape.atom] at meant
          split at meant <;> cases meant
          exact ⟨trivial, rfl⟩
      | property name =>
          rw [form] at meant
          cases meant
      | call =>
          rw [form] at meant
          cases meant
      | anchor place =>
          rw [form] at meant
          have atomEq := Anchor.eq_boundary_of_atom meant
          subst atomEq
          exact ⟨trivial, rfl⟩
      | literal c =>
          rw [form] at meant
          cases meant
          exact ⟨trivial, rfl⟩
  · cases decoded

/-- An atom that holds no sequence is well-shaped. -/
theorem Atom.wellShaped_of_read {pos length : Nat} {head : Char} {tail : List Char} {atom : Atom}
    (found : Atom.read pos head tail = .ok ⟨atom, length⟩) :
    atom.WellShaped ∧ atom.isChoice = false := by
  simp only [Atom.read] at found
  split at found
  · cases found
    exact ⟨trivial, rfl⟩
  · obtain ⟨span, read, equal⟩ := ParseError.exists_of_map_eq_ok found
    cases equal
    exact ⟨CharClass.negated_of_read read, rfl⟩
  · split at found
    · cases found
    · obtain ⟨span, decoded, equal⟩ := ParseError.exists_of_map_eq_ok found
      cases equal
      exact Escape.wellShaped_of_decode decoded
  · split at found
    · obtain ⟨anchored, read, equal⟩ := ParseError.exists_of_map_eq_ok found
      cases equal
      have atomEq := Anchor.eq_boundary_of_atom read
      subst atomEq
      exact ⟨trivial, rfl⟩
    · cases found
      exact ⟨trivial, rfl⟩

/-! ## Pieces -/

/-- Bounds that are spelled out are in order unless the greater one comes first. -/
theorem Braces.Spelled.inverted_or_wellFormed {content : List Char} {bounds : Braces}
    (spelled : Spelled content bounds) :
    (∃ min max, bounds = ⟨some min, true, some max⟩ ∧ max < min) ∨ bounds.WellFormed := by
  cases spelled with
  | exactly => exact .inr (.exactly _)
  | atLeast => exact .inr (.atLeast _)
  | atMost => exact .inr (.atMost _)
  | @between _ _ least most =>
      by_cases less : most < least
      · exact .inl ⟨least, most, rfl, less⟩
      · exact .inr (.between least most (UInt64.not_lt.mp less))

/-- Braces that are read hold a number, and have a comma unless it is exact. -/
theorem Braces.wellFormed_of_read? {text : List Char} {braces : Braces} {length : Nat}
    (found : Braces.read? text = some ⟨braces, length⟩) (ordered : braces.inverted? = none) :
    braces.WellFormed := by
  obtain ⟨content, rest, spelled, _⟩ := exists_spelled_of_read? found
  rcases spelled.inverted_or_wellFormed with ⟨min, max, boundsEq, less⟩ | wellFormed
  · simp only at boundsEq
    simp [boundsEq, inverted?, less] at ordered
  · exact wellFormed

theorem Quantifier.wellFormed_of_read {pos length : Nat} {text : List Char}
    {quantifier : Quantifier} (found : Quantifier.read pos text = .ok ⟨quantifier, length⟩) :
    quantifier.WellFormed := by
  simp only [Quantifier.read] at found
  split at found
  · cases found
    trivial
  · cases found
    trivial
  · cases found
    trivial
  · split at found
    · cases found
      trivial
    · next bounds length read =>
        split at found
        · cases found
        · next ordered =>
            cases found
            exact Braces.wellFormed_of_read? read ordered
  · cases found
    trivial

/-- A quantifier leaves a well-shaped atom well-shaped, and the group that an
optional exact number makes is well-shaped too. -/
theorem Piece.wellShaped_of_read {atom : Atom} {pos length : Nat} {text : List Char}
    {piece : Piece} (shaped : atom.WellShaped) (single : atom.isChoice = false)
    (found : Piece.read atom pos text = .ok ⟨piece, length⟩) :
    piece.WellShaped ∧ piece.atom.isChoice = false := by
  simp only [Piece.read] at found
  split at found
  · cases found
  · cases found
    exact ⟨⟨trivial, shaped⟩, single⟩
  · next quantifier _ _ read =>
      have wellFormed := Quantifier.wellFormed_of_read read
      have inner : Piece.WellShaped ⟨quantifier, atom⟩ := ⟨wellFormed, shaped⟩
      split at found
      · cases found
        refine ⟨⟨trivial, ?_⟩, rfl⟩
        simp only [Atom.WellShaped, Sequence.allWellShaped_cons, Sequence.allWellShaped_nil,
          and_true]
        refine ⟨by simp, .inl ?_, inner⟩
        simpa using single
      · cases found
        exact ⟨inner, single⟩

end PatternTree
