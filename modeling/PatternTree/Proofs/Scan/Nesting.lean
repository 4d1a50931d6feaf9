import PatternTree.Proofs.Scan.Calls
import PatternTree.Proofs.Scan.RoundTrip
import PatternTree.Proofs.Scan.Shape
import PatternTree.Proofs.Tree.Weight

/-!
# How deep a pattern nests

No more than `nestingLimit` groups and alternatives are open at once, so no tree weighs more
than that, and none is deeper than three times as much and one level.  All of it is in
`Pattern.nesting_bounded`.

`Scan.Fits` is what every move keeps: each draft weighs no more than the levels that were
left for it.  The bound on the depth is met by a tower of groups, each with an exact number
that is optional, on the left of a choice.
-/

namespace PatternTree

/-- A quantifier adds no weight. -/
theorem Piece.weight_le_of_read {atom : Atom} {pos length : Nat} {text : List Char} {piece : Piece}
    (found : Piece.read atom pos text = .ok ⟨piece, length⟩) : piece.weight ≤ atom.weight := by
  rcases Piece.eq_of_read found with ⟨quantifier, rfl⟩ | ⟨count, rfl⟩
  · exact Piece.weight_le quantifier atom
  · exact Nat.le_of_eq (Piece.weight_optionalExactly count atom)

namespace Scan

variable {scan next : Scan}

/-- The drafts around the open groups weigh no more than the levels left for them. -/
def FitsAround : List OpenGroup → Prop
  | [] => True
  | group :: rest =>
      Sequence.weight group.outer.finish + outerDepth rest ≤ nestingLimit ∧ FitsAround rest

/-- All that has been drafted weighs no more than the levels left for it. -/
structure Fits (scan : Scan) : Prop where
  draft : Sequence.weight scan.draft.finish + outerDepth scan.enclosing ≤ nestingLimit
  around : FitsAround scan.enclosing

theorem Fits.depth_le (fits : scan.Fits) : scan.depth ≤ nestingLimit := by
  have open_le := scan.draft.length_alternatives_le_weight
  have draft_le := fits.draft
  rw [depth_eq_add]
  omega

/-- A piece that weighs no more than the levels left can be added to a draft. -/
theorem weight_push_le {draft : Draft} {enclosing : List OpenGroup} {piece : Piece}
    (fits : Sequence.weight draft.finish + outerDepth enclosing ≤ nestingLimit)
    (room : piece.weight + draft.alternatives.length + outerDepth enclosing ≤ nestingLimit) :
    Sequence.weight (draft.push piece).finish + outerDepth enclosing ≤ nestingLimit := by
  have pushed := draft.weight_finish_push_le piece
  omega

theorem fits_of_move (fits : scan.Fits) (move : Move scan next) : next.Fits := by
  have depth_le := fits.depth_le
  rw [depth_eq_add] at depth_le
  cases move with
  | openGroup _ room =>
      refine ⟨?_, fits.draft, fits.around⟩
      have empty : Sequence.weight (Draft.finish {}) = 0 := rfl
      rw [depth_eq_add] at room
      simp only [empty, outerDepth]
      omega
  | openAlternative _ room =>
      refine ⟨?_, fits.around⟩
      have draft_le := fits.draft
      rw [depth_eq_add] at room
      simp only [Draft.weight_finish_split]
      omega
  | @closeGroup _ group enclosing piece _ _ enclosingEq pieceRead =>
      have around := fits.around
      have draft_le := fits.draft
      rw [enclosingEq] at around draft_le
      simp only [outerDepth] at draft_le
      refine ⟨weight_push_le around.1 ?_, around.2⟩
      have piece_le := Piece.weight_le_of_read pieceRead
      simp only [Atom.weight] at piece_le ⊢
      omega
  | takeAtom _ _ _ _ atomRead pieceRead =>
      refine ⟨weight_push_le fits.draft ?_, fits.around⟩
      have piece_le := Piece.weight_le_of_read pieceRead
      simp only [Atom.weight_of_isLeaf (Atom.isLeaf_of_read atomRead)] at piece_le ⊢
      omega

theorem fits_start (text : List Char) : Fits { unread := text } :=
  ⟨Nat.zero_le nestingLimit, trivial⟩

/-- However far a scan has come, no more is open than may be. -/
theorem fits_of_reached {text : List Char}
    (reached : Relation.ReflTransGen Move { unread := text } scan) : scan.Fits := by
  induction reached with
  | refl => exact fits_start text
  | tail _ move ih => exact fits_of_move ih move

/-! ## The deepest patterns -/

/-- The text of a tower of groups, which opens `levels` levels. -/
def towerText : Nat → List Char
  | 0 => ['a', '\x7b', '2', '\x7d', '?']
  | levels + 1 => '(' :: '?' :: ':' :: (towerText levels ++ [')', '\x7b', '2', '\x7d', '?', '|'])

/-- What is drafted of a tower. -/
def towerDraft : Nat → Draft
  | 0 => { pieces := [.optionalExactly 2 (.literal 'a')] }
  | levels + 1 =>
      { alternatives := [[.optionalExactly 2 (.group none (towerDraft levels).finish)]] }

theorem finish_towerDraft_succ (levels : Nat) :
    (towerDraft (levels + 1)).finish = [⟨.once, .either
      [.optionalExactly 2 (.group none (towerDraft levels).finish)] []⟩] := rfl

/-- Each level of the text is three levels of the tree. -/
theorem exists_visit_tower (levels depth : Nat) (place : Place) :
    ∃ visit ∈ Sequence.visits depth place (towerDraft levels).finish,
      visit.depth = depth + 3 * levels + 1 := by
  induction levels generalizing depth place with
  | zero =>
      refine ⟨⟨depth + 1, .body, ⟨.braces ⟨some 2, false, none⟩, .literal 'a'⟩⟩, ?_, rfl⟩
      simp [towerDraft, Draft.finish, Piece.optionalExactly, Sequence.visits, Piece.visits,
        Atom.visits]
  | succ levels ih =>
      obtain ⟨visit, member, depthEq⟩ := ih (depth + 3) .body
      refine ⟨visit, ?_, by omega⟩
      rw [finish_towerDraft_succ, Piece.optionalExactly]
      simp only [Sequence.visits, Piece.visits, Atom.visits, List.append_nil, List.mem_cons]
      exact .inr (.inr (.inr member))

theorem read_optionalTwo {rest : List Char} (absent : Quantifier.Absent rest) (atom : Atom)
    (pos : Nat) : Piece.read atom pos ('\x7b' :: '2' :: '\x7d' :: '?' :: rest) =
      .ok ⟨.optionalExactly 2 atom, 4⟩ := by
  have exactly : Quantifier.read pos ('\x7b' :: '2' :: '\x7d' :: '?' :: rest) =
      .ok ⟨.braces ⟨some 2, false, none⟩, 3⟩ := rfl
  rw [Piece.read, exactly]
  simp [Quantifier.isExact, Quantifier.markerLength_eq_zero absent, Piece.optionalExactly]

theorem reads_bar {rest : List Char} (unreadEq : scan.unread = '|' :: rest) :
    scan.Reads { scan with pos := scan.pos + 1, unread := rest, draft := scan.draft.split } 1 := by
  apply Reads.deeper (.openAlternative unreadEq) (.alternativeTooDeep unreadEq) _ (.refl _)
  simp only [depth_eq_add, Draft.split, List.length_cons]
  omega

/-- The text of a group with an exact number that is optional, where the reading of its body
is known. -/
theorem reads_optionalTwo {text rest : List Char} {draft : Draft} {levels : Nat}
    (unreadEq : scan.unread =
      '(' :: '?' :: ':' :: (text ++ ')' :: '\x7b' :: '2' :: '\x7d' :: '?' :: rest))
    (absent : Quantifier.Absent rest)
    (bodyReads : ∀ {inner : Scan} {after : List Char}, inner.draft = {} →
      inner.unread = text ++ after → Quantifier.Absent after →
      ∃ pos groupCount, inner.Reads { inner with
        pos, groupCount, unread := after, draft := draft } levels) :
    ∃ pos groupCount, scan.Reads { scan with
      pos, groupCount, unread := rest,
      draft := scan.draft.push (.optionalExactly 2 (.group none draft.finish)) } (levels + 1) := by
  let after := ')' :: '\x7b' :: '2' :: '\x7d' :: '?' :: rest
  let inner : Scan := {
    pos := scan.pos + 3
    unread := text ++ after
    groupCount := scan.groupCount + 1
    draft := {}
    enclosing := ⟨scan.pos, none, scan.draft⟩ :: scan.enclosing }
  have opened (room : scan.depth < nestingLimit) : Move scan inner :=
    .openGroup unreadEq room (Opening.read_of_form scan.pos .unnamed)
  have innerDepth : inner.depth = scan.depth + 1 := by
    simp only [depth_eq_add, outerDepth, inner, List.length_nil]
    omega
  have afterAbsent : Quantifier.Absent after := Quantifier.absent_cons (by decide) _
  obtain ⟨pos, groupCount, body⟩ := @bodyReads inner after rfl rfl afterAbsent
  let closing : Scan := { inner with pos, groupCount, unread := after, draft := draft }
  have closed : Move closing _ :=
    .closeGroup rfl rfl (read_optionalTwo absent (.group none draft.finish) (pos + 1))
  exact ⟨_, _, .deeper opened (.groupTooDeep unreadEq) innerDepth (body.snoc closed)⟩

/-- A tower is read wherever it stands, if there is room for its levels. -/
theorem reads_tower (levels : Nat) {scan : Scan} {rest : List Char} (empty : scan.draft = {})
    (unreadEq : scan.unread = towerText levels ++ rest) (absent : Quantifier.Absent rest) :
    ∃ pos groupCount, scan.Reads { scan with
      pos, groupCount, unread := rest, draft := towerDraft levels } levels := by
  induction levels generalizing scan rest with
  | zero =>
      have pieceRead := read_optionalTwo absent (.literal 'a') (scan.pos + 1)
      have move := Move.takeAtom unreadEq (by decide) (by decide) (by decide) rfl pieceRead
      rw [empty] at move
      exact ⟨_, _, .of_move move⟩
  | succ levels ih =>
      have begins : scan.unread = '(' :: '?' :: ':' :: (towerText levels ++
          ')' :: '\x7b' :: '2' :: '\x7d' :: '?' :: '|' :: rest) := by
        simp [unreadEq, towerText]
      have barAbsent : Quantifier.Absent ('|' :: rest) := Quantifier.absent_cons (by decide) rest
      obtain ⟨pos, groupCount, group⟩ := reads_optionalTwo begins barAbsent ih
      have whole := group.trans (reads_bar rfl)
        (depth_congr (by rw [Draft.alternatives_push]) rfl)
      rw [Nat.max_eq_left (by omega), empty] at whole
      exact ⟨_, _, whole⟩

end Scan

namespace Pattern

/-- A tower is read as long as there is room for its levels. -/
theorem exists_parse_tower {levels : Nat} (room : levels ≤ nestingLimit) :
    ∃ groupCount, parse {} (.ofList (Scan.towerText levels)) =
      .ok { pieces := (Scan.towerDraft levels).finish, groupCount } := by
  let start : Scan := { unread := (String.ofList (Scan.towerText levels)).toList }
  have unreadEq : start.unread = Scan.towerText levels ++ [] := by
    rw [List.append_nil]
    exact String.toList_ofList
  have shallow : start.depth = 0 := rfl
  have absent : Quantifier.Absent [] := by simp [Quantifier.Absent]
  obtain ⟨pos, groupCount, reads⟩ := Scan.reads_tower levels rfl unreadEq absent
  have ran := (reads.run_eq (by omega)).trans (Scan.run_of_unread_nil rfl)
  exact ⟨groupCount, parse_eq_ok_iff.mpr ⟨_, ran, rfl, rfl⟩⟩

/-- Wherever the scan of a text stands, at most 128 groups and alternatives are open, as a
counter finds that goes up and down with the calls of the scan.  A finished call leaves the
counter as it was, and a closed group leaves the scan at its depth.  So a tree weighs no more
than 128, and none of its pieces is inside more than three times as many groups and choices and
one.  There is a pattern with a piece as deep as that. -/
theorem nesting_bounded (text : String) :
    (∀ scan, Relation.ReflTransGen Scan.Move { unread := text.toList } scan →
      scan.depth ≤ 128 ∧ Scan.UnderWay { unread := text.toList } scan scan.depth) ∧
    (∀ construct scan count last left,
      Scan.Call construct scan count last left → left = count) ∧
    (∀ scan count next left, Scan.Call .group scan count next left → next.depth = scan.depth) ∧
    (∀ options pattern, parse options text = .ok pattern →
      (∃ last, Scan.Call .sequence { unread := text.toList } 0 last 0) ∧
      Sequence.weight pattern.pieces ≤ 128 ∧
      ∀ visit ∈ pattern.visits, visit.depth ≤ 3 * 128 + 1) ∧
    ∃ deepest pattern, parse {} deepest = .ok pattern ∧
      ∃ visit ∈ pattern.visits, visit.depth = 3 * 128 + 1 := by
  refine ⟨?_, ?_, ?_, ?_, ?_⟩
  · intro scan reached
    exact ⟨(Scan.fits_of_reached reached).depth_le, Scan.underWay_of_reached reached⟩
  · intro construct scan count last left call
    exact call.left_eq
  · intro scan count next left call
    exact call.depth_eq
  · intro options pattern parsed
    obtain ⟨last, ran, closed, rfl⟩ := parse_eq_ok_iff.mp parsed
    have fits := (Scan.invariant_of_run Scan.fits_of_move (Scan.fits_start _) ran).1
    have weight_le : Sequence.weight last.draft.finish ≤ 128 :=
      Nat.le_of_add_right_le fits.draft
    refine ⟨⟨last, Scan.call_of_run ran closed⟩, weight_le, ?_⟩
    intro visit member
    have shaped := (Scan.wellShaped_of_run ran).draft.finish
    have within := (Sequence.isWithin shaped.pieces visit member).le
    omega
  · obtain ⟨groupCount, parsed⟩ := exists_parse_tower (Nat.le_refl nestingLimit)
    obtain ⟨visit, member, depthEq⟩ := Scan.exists_visit_tower nestingLimit 0 .top
    rw [nestingLimit_eq, Nat.zero_add] at depthEq
    exact ⟨_, _, parsed, visit, member, depthEq⟩

/-- The bar comes after the group, so it opens no level inside another. -/
theorem nesting_bounded_optional :
    let text := "(?:a\x7b2\x7d?)\x7b2\x7d?|"
    let start : Scan := { unread := text.toList }
    let pattern : Pattern := {
      pieces := [⟨.once, .either
        [.optionalExactly 2 (.group none [.optionalExactly 2 (.literal 'a')])] []⟩]
      groupCount := 1 }
    parse {} text = .ok pattern ∧
      (∃ last, Scan.Call .sequence start 0 last 0) ∧
      Sequence.weight pattern.pieces ≤ 128 ∧
      (∀ visit ∈ pattern.visits, visit.depth ≤ 3 * 128 + 1) ∧
      ∃ inner, Relation.ReflTransGen Scan.Move start inner ∧ inner.depth = 1 ∧
        Scan.UnderWay start inner 1 := by
  intro text start pattern
  have parsed : parse {} text = .ok pattern := by
    decide +kernel
  obtain ⟨reached, _, _, read, _⟩ := nesting_bounded text
  obtain ⟨call, weight_le, depth_le⟩ := read {} pattern parsed
  have unreadEq : start.unread = '(' :: '?' :: ':' :: start.unread.drop 3 := by
    decide +kernel
  have move : Scan.Move start _ :=
    .openGroup unreadEq (by decide) (Opening.read_of_form 0 .unnamed)
  have underWay := (reached _ (.single move)).2
  exact ⟨parsed, call, weight_le, depth_le, _, .single move, rfl, underWay⟩

end Pattern

end PatternTree
