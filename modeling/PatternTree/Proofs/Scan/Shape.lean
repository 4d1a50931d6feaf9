import PatternTree.Proofs.Scan.Draft
import PatternTree.Proofs.Scan.Move
import PatternTree.Proofs.Tree.Reader

/-!
# Trees that are read are well-shaped

All that a scan has drafted stays well-shaped, at the top and around every open
group, and what is drafted holds no choice: alternatives are kept side by side
and become choices only when their sequence ends.  `wellShaped_of_move` keeps
this along a scan, and `wellShaped_of_parse` is what it says of the tree in the
end.
-/

namespace PatternTree

/-- The demands on a sequence that is still being read. -/
structure Draft.WellShaped (draft : Draft) : Prop where
  alternatives_plain : ∀ sequence ∈ draft.alternatives, Sequence.IsPlain sequence
  alternatives_shaped : ∀ sequence ∈ draft.alternatives, Sequence.AllWellShaped sequence
  pieces_plain : Sequence.IsPlain draft.pieces
  pieces_shaped : Sequence.AllWellShaped draft.pieces

namespace Draft

variable {draft : Draft}

theorem WellShaped.empty : Draft.WellShaped {} where
  alternatives_plain := by simp
  alternatives_shaped := by simp
  pieces_plain := Sequence.isPlain_nil
  pieces_shaped := Sequence.allWellShaped_nil

theorem WellShaped.push {piece : Piece} (shaped : draft.WellShaped)
    (pieceShaped : piece.WellShaped) (single : piece.atom.isChoice = false) :
    (draft.push piece).WellShaped := by
  unfold Draft.push
  split
  · exact shaped
  · exact {
      alternatives_plain := shaped.alternatives_plain
      alternatives_shaped := shaped.alternatives_shaped
      pieces_plain := Sequence.isPlain_cons.mpr ⟨single, shaped.pieces_plain⟩
      pieces_shaped := Sequence.allWellShaped_cons.mpr ⟨pieceShaped, shaped.pieces_shaped⟩ }

theorem WellShaped.split (shaped : draft.WellShaped) : draft.split.WellShaped where
  alternatives_plain := by
    intro sequence member
    cases member with
    | head => exact Sequence.isPlain_reverse.mpr shaped.pieces_plain
    | tail _ member => exact shaped.alternatives_plain sequence member
  alternatives_shaped := by
    intro sequence member
    cases member with
    | head => exact Sequence.allWellShaped_reverse.mpr shaped.pieces_shaped
    | tail _ member => exact shaped.alternatives_shaped sequence member
  pieces_plain := Sequence.isPlain_nil
  pieces_shaped := Sequence.allWellShaped_nil

theorem WellShaped.finish (shaped : draft.WellShaped) : Sequence.WellShaped draft.finish := by
  apply finish_induction
  · exact .of_isPlain (Sequence.isPlain_reverse.mpr shaped.pieces_plain)
      (Sequence.allWellShaped_reverse.mpr shaped.pieces_shaped)
  · intro left member right rightShaped
    exact .either (shaped.alternatives_plain left member) (shaped.alternatives_shaped left member)
      rightShaped

end Draft

/-- The demands on a group that has not been closed. -/
structure OpenGroup.WellShaped (group : OpenGroup) : Prop where
  isGroupName : ∀ name ∈ group.id, IsGroupName name.toList
  outer : group.outer.WellShaped

/-- The group that a closing parenthesis makes of an open one is well-shaped. -/
theorem OpenGroup.WellShaped.close {group : OpenGroup} (shaped : group.WellShaped)
    {body : Sequence} (bodyShaped : Sequence.WellShaped body) :
    (Atom.group group.id body).WellShaped := by
  rw [Atom.WellShaped]
  exact ⟨shaped.isGroupName, bodyShaped.arranged, bodyShaped.pieces⟩

namespace Scan

/-- The demands on all that a scan has drafted. -/
structure WellShaped (scan : Scan) : Prop where
  draft : scan.draft.WellShaped
  enclosing : ∀ group ∈ scan.enclosing, group.WellShaped

theorem wellShaped_of_move {scan next : Scan} (shaped : scan.WellShaped)
    (move : Move scan next) : next.WellShaped := by
  cases move with
  | openGroup _ _ opened =>
      refine ⟨.empty, ?_⟩
      intro group member
      cases member with
      | head =>
          refine ⟨?_, shaped.draft⟩
          intro name named
          cases named
          exact (Opening.form_of_read opened).isGroupName
      | tail _ member => exact shaped.enclosing group member
  | openAlternative => exact ⟨shaped.draft.split, shaped.enclosing⟩
  | @closeGroup _ group enclosing _ _ _ enclosingEq pieceRead =>
      have groupShaped := shaped.enclosing group (by simp [enclosingEq])
      obtain ⟨pieceShaped, single⟩ :=
        Piece.wellShaped_of_read (groupShaped.close shaped.draft.finish) rfl pieceRead
      refine ⟨groupShaped.outer.push pieceShaped single, ?_⟩
      intro other member
      exact shaped.enclosing other (by simp [enclosingEq, member])
  | takeAtom _ _ _ _ atomRead pieceRead =>
      obtain ⟨atomShaped, atomSingle⟩ := Atom.wellShaped_of_read atomRead
      obtain ⟨pieceShaped, single⟩ := Piece.wellShaped_of_read atomShaped atomSingle pieceRead
      exact ⟨shaped.draft.push pieceShaped single, shaped.enclosing⟩

theorem wellShaped_start (text : List Char) : WellShaped { unread := text } :=
  ⟨.empty, by simp⟩

theorem wellShaped_of_run {text : List Char} {last : Scan}
    (ran : Scan.run { unread := text } = .ok last) : last.WellShaped :=
  (invariant_of_run wellShaped_of_move (wellShaped_start text) ran).1

end Scan

/-- Every tree that is read is well-shaped, and the alternatives of each of its
sequences nest on the right. -/
theorem Pattern.wellShaped_of_parse {options : LimitOptions} {text : String} {pattern : Pattern}
    (parsed : Pattern.parse options text = .ok pattern) :
    Sequence.WellShaped pattern.pieces ∧
      ∀ sequence ∈ Sequence.sequences pattern.pieces, ∃ count, Sequence.Chain count sequence := by
  obtain ⟨last, ran, _, rfl⟩ := Pattern.parse_eq_ok_iff.mp parsed
  have start : Scan.WellShaped { unread := text.toList } := ⟨.empty, by simp⟩
  obtain ⟨lastShaped, _⟩ := Scan.invariant_of_run Scan.wellShaped_of_move start ran
  have shaped := lastShaped.draft.finish
  refine ⟨shaped, ?_⟩
  intro sequence member
  cases member with
  | head => exact shaped.exists_chain
  | tail _ inside =>
      exact (Sequence.wellShaped_of_mem_inner shaped.pieces sequence inside).exists_chain

/-- The three alternatives of a group nest on the right, an optional exact number
makes a group, and the class that lists nothing is negated. -/
theorem Pattern.wellShaped_of_parse_alternatives :
    let pieces : Sequence := [⟨.star, .group (some "n") [⟨.once, .either
      [⟨.once, .literal 'a'⟩]
      [⟨.once, .either
        [⟨.optional, .group none [⟨.braces ⟨some 2, false, none⟩, .literal 'b'⟩]⟩]
        [⟨.once, .oneOf ⟨true, []⟩⟩]⟩]⟩]⟩]
    Pattern.parse {} "(?<n>a|b\x7b2\x7d?|[^])*" = .ok { pieces, groupCount := 1 } ∧
      Sequence.WellShaped pieces ∧
      ∀ sequence ∈ Sequence.sequences pieces, ∃ count, Sequence.Chain count sequence := by
  intro pieces
  have parsed : Pattern.parse {} "(?<n>a|b\x7b2\x7d?|[^])*" = .ok { pieces, groupCount := 1 } := by
    decide +kernel
  exact ⟨parsed, Pattern.wellShaped_of_parse parsed⟩

end PatternTree
