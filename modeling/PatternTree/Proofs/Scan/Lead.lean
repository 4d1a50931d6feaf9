import Mathlib.Data.List.Infix
import Mathlib.Data.List.ModifyLast
import PatternTree.Proofs.Scan.Depth
import PatternTree.Proofs.Scan.Shape
import PatternTree.Proofs.Tree.Shift

/-!
# A character in front of a text

A character that stands for itself adds itself to the tree and nothing else, unless
the text begins with something that attaches to it or that asks for the start of the
pattern.  The scan of the longer text runs one position ahead of the scan of the
text, and `Scan.prepend` says what else it has: a front before the first alternative
of the outermost draft, which no group closes over.  Moves and refusals of the one are
those of the other, as `move_prepend` and `refused_prepend` say.
-/

namespace PatternTree

/-- Put pieces in front of a sequence.  Before a choice, they belong to its left side. -/
def Sequence.prepend (front : Sequence) : Sequence → Sequence
  | [⟨.once, .either left right⟩] => [⟨.once, .either (front ++ left) right⟩]
  | sequence => front ++ sequence

/-- Put pieces in front of the first alternative. -/
def Draft.prepend (front : Sequence) (draft : Draft) : Draft :=
  match draft.alternatives with
  | [] => { draft with pieces := draft.pieces ++ front.reverse }
  | _ :: _ => { draft with alternatives := draft.alternatives.modifyLast (front ++ ·) }

namespace Sequence

variable {front sequence : Sequence}

theorem prepend_of_isPlain (plain : IsPlain sequence) :
    prepend front sequence = front ++ sequence := by
  unfold prepend
  split
  · next left right =>
      have single := plain _ List.mem_cons_self
      simp [Atom.isChoice] at single
  · rfl

theorem prepend_nil (sequence : Sequence) : prepend [] sequence = sequence := by
  unfold prepend
  split <;> rfl

end Sequence

namespace Draft

variable {front : Sequence} {draft : Draft}

theorem prepend_single (front : Sequence) (pieces : List Piece) :
    Draft.prepend front ⟨[], pieces⟩ = ⟨[], pieces ++ front.reverse⟩ := rfl

theorem prepend_concat (front first : Sequence) (later : List Sequence) (pieces : List Piece) :
    Draft.prepend front ⟨later ++ [first], pieces⟩ = ⟨later ++ [front ++ first], pieces⟩ := by
  unfold prepend
  split
  · next empty => simp at empty
  · simp only [List.modifyLast_concat]

theorem length_alternatives_prepend (front : Sequence) (draft : Draft) :
    (draft.prepend front).alternatives.length = draft.alternatives.length := by
  cases draft with
  | mk alternatives pieces =>
      rcases List.eq_nil_or_concat alternatives with rfl | ⟨later, first, rfl⟩
      · rfl
      · simp [List.concat_eq_append, prepend_concat]

theorem push_prepend (front : Sequence) (draft : Draft) (piece : Piece) :
    (draft.prepend front).push piece = (draft.push piece).prepend front := by
  unfold push
  split
  · rfl
  · unfold prepend
    split <;> next alternativesEq => simp [alternativesEq]

theorem split_prepend (front : Sequence) (draft : Draft) :
    (draft.prepend front).split = draft.split.prepend front := by
  cases draft with
  | mk alternatives pieces =>
      rcases List.eq_nil_or_concat alternatives with rfl | ⟨later, first, rfl⟩
      · have whole := prepend_concat front pieces.reverse [] []
        rw [List.nil_append] at whole
        rw [prepend_single, split, split, List.reverse_append, List.reverse_reverse]
        exact whole.symm
      · simp only [List.concat_eq_append, prepend_concat, split, ← List.cons_append]

theorem finish_prepend (front : Sequence) (plain : Sequence.IsPlain draft.pieces) :
    (draft.prepend front).finish = Sequence.prepend front draft.finish := by
  cases draft with
  | mk alternatives pieces =>
      rcases List.eq_nil_or_concat alternatives with rfl | ⟨later, first, rfl⟩
      · have alone : Draft.finish ⟨[], pieces⟩ = pieces.reverse := rfl
        rw [alone, Sequence.prepend_of_isPlain (Sequence.isPlain_reverse.mpr plain)]
        simp [prepend, finish]
      · simp [prepend_concat, finish, Sequence.prepend]

end Draft

namespace Scan

variable {front : Sequence} {scan next : Scan}

/-- The draft of the longer text, given the open groups around the draft. -/
def prependWithin (front : Sequence) : List OpenGroup → Draft → Draft
  | [], draft => draft.prepend front
  | _ :: _, draft => draft

/-- The open groups of the longer text. -/
def prependGroups (front : Sequence) : List OpenGroup → List OpenGroup
  | [] => []
  | group :: rest =>
      ⟨group.start + 1, group.id, prependWithin front rest group.outer⟩ ::
        prependGroups front rest

/-- The scan that found one character more before the text, and made `front` of it. -/
def prepend (front : Sequence) (scan : Scan) : Scan where
  pos := scan.pos + 1
  unread := scan.unread
  groupCount := scan.groupCount
  draft := prependWithin front scan.enclosing scan.draft
  enclosing := prependGroups front scan.enclosing

theorem length_alternatives_prependWithin (enclosing : List OpenGroup) (draft : Draft) :
    (prependWithin front enclosing draft).alternatives.length = draft.alternatives.length := by
  cases enclosing with
  | nil => exact draft.length_alternatives_prepend front
  | cons => rfl

theorem push_prependWithin (enclosing : List OpenGroup) (draft : Draft) (piece : Piece) :
    (prependWithin front enclosing draft).push piece =
      prependWithin front enclosing (draft.push piece) := by
  cases enclosing with
  | nil => exact draft.push_prepend front piece
  | cons => rfl

theorem split_prependWithin (enclosing : List OpenGroup) (draft : Draft) :
    (prependWithin front enclosing draft).split = prependWithin front enclosing draft.split := by
  cases enclosing with
  | nil => exact draft.split_prepend front
  | cons => rfl

theorem outerDepth_prependGroups (enclosing : List OpenGroup) :
    outerDepth (prependGroups front enclosing) = outerDepth enclosing := by
  induction enclosing with
  | nil => rfl
  | cons group rest ih =>
      simp only [prependGroups, outerDepth, length_alternatives_prependWithin, ih]

theorem unread_prepend {text : List Char} (unreadEq : scan.unread = text) (front : Sequence) :
    (scan.prepend front).unread = text := unreadEq

/-- The front opens nothing. -/
theorem depth_prepend (front : Sequence) (scan : Scan) :
    (scan.prepend front).depth = scan.depth := by
  simp only [depth_eq_add, prepend, length_alternatives_prependWithin, outerDepth_prependGroups]

/-- The draft of an open group is the same behind the front. -/
theorem prepend_of_enclosing {group : OpenGroup} {enclosing : List OpenGroup}
    (enclosingEq : scan.enclosing = group :: enclosing) (front : Sequence) :
    (scan.prepend front).draft = scan.draft ∧
      (scan.prepend front).enclosing =
        ⟨group.start + 1, group.id, prependWithin front enclosing group.outer⟩ ::
          prependGroups front enclosing := by
  rw [prepend, enclosingEq]
  exact ⟨rfl, rfl⟩

theorem move_prepend (unanchored : scan.pos = 0 → IsUnanchored scan.unread)
    (move : Move scan next) (front : Sequence) :
    Move (scan.prepend front) (next.prepend front) := by
  cases move with
  | @openGroup tail id length unreadEq room opened =>
      have longer := Move.openGroup (unread_prepend unreadEq front)
        (depth_prepend front scan ▸ room)
        ((Opening.read_succ ..).trans (ParseError.mapError_of_ok opened))
      simp only [prepend, Nat.add_right_comm scan.pos 1] at longer ⊢
      exact longer
  | openAlternative unreadEq room =>
      have longer := Move.openAlternative (unread_prepend unreadEq front)
        (depth_prepend front scan ▸ room)
      simp only [prepend, split_prependWithin] at longer ⊢
      exact longer
  | @closeGroup tail group enclosing piece length unreadEq enclosingEq pieceRead =>
      obtain ⟨draftEq, groupsEq⟩ := prepend_of_enclosing enclosingEq front
      have pieceLater := (Piece.read_succ ..).trans (ParseError.mapError_of_ok pieceRead)
      rw [← draftEq] at pieceLater
      have longer := Move.closeGroup (unread_prepend unreadEq front) groupsEq pieceLater
      simp only [prepend, Nat.add_right_comm _ 1 length, push_prependWithin] at longer ⊢
      exact longer
  | @takeAtom head tail atom length piece count unreadEq notOpening notBar notClosing atomRead
      pieceRead =>
      have pieceLater := (Piece.read_succ ..).trans (ParseError.mapError_of_ok pieceRead)
      rw [Nat.add_right_comm] at pieceLater
      have longer := Move.takeAtom (unread_prepend unreadEq front) notOpening notBar
        notClosing
        ((Atom.read_succ (unreadEq ▸ unanchored)).trans (ParseError.mapError_of_ok atomRead))
        pieceLater
      simp only [prepend, Nat.add_right_comm _ 1, push_prependWithin] at longer ⊢
      exact longer

theorem refused_prepend (unanchored : scan.pos = 0 → IsUnanchored scan.unread)
    {error : ParseError} (refused : Refused scan error) (front : Sequence) :
    Refused (scan.prepend front) error.shift := by
  cases refused with
  | groupTooDeep unreadEq full =>
      exact .groupTooDeep (unread_prepend unreadEq front) (depth_prepend front scan ▸ full)
  | opening unreadEq room failed =>
      exact .opening unreadEq (depth_prepend front scan ▸ room)
        ((Opening.read_succ ..).trans (ParseError.mapError_of_error failed))
  | alternativeTooDeep unreadEq full =>
      exact .alternativeTooDeep (unread_prepend unreadEq front)
        (depth_prepend front scan ▸ full)
  | unmatched unreadEq enclosingEq =>
      refine .unmatched (unread_prepend unreadEq front) ?_
      rw [prepend, enclosingEq, prependGroups]
  | atom unreadEq notOpening notBar notClosing failed =>
      exact .atom unreadEq notOpening notBar notClosing
        ((Atom.read_succ (unreadEq ▸ unanchored)).trans (ParseError.mapError_of_error failed))
  | groupQuantifier unreadEq enclosingEq failed =>
      obtain ⟨draftEq, groupsEq⟩ := prepend_of_enclosing enclosingEq front
      have failedLater := (Piece.read_succ ..).trans (ParseError.mapError_of_error failed)
      rw [← draftEq] at failedLater
      exact .groupQuantifier (unread_prepend unreadEq front) groupsEq failedLater
  | atomQuantifier unreadEq notOpening notBar notClosing atomRead failed =>
      have failedLater := (Piece.read_succ ..).trans (ParseError.mapError_of_error failed)
      rw [Nat.add_right_comm] at failedLater
      exact .atomQuantifier (unread_prepend unreadEq front) notOpening notBar notClosing
        ((Atom.read_succ (unreadEq ▸ unanchored)).trans (ParseError.mapError_of_ok atomRead))
        failedLater

/-- How the scan of the longer text stands when that of the text has gone on from
`start`. -/
structure Mirrored (start : Scan) (front : Sequence) (scan : Scan) : Prop where
  unanchored : scan.pos = 0 → IsUnanchored scan.unread
  run_eq : (start.prepend front).run = (scan.prepend front).run

theorem mirrored_of_move {start : Scan} (mirrored : Mirrored start front scan)
    (move : Move scan next) : Mirrored start front next where
  unanchored := by
    obtain ⟨count, advanced⟩ := advanced_of_move move
    intro first
    rw [advanced.pos_eq] at first
    cases first
  run_eq := by
    rw [mirrored.run_eq, run_of_move (move_prepend mirrored.unanchored move front)]

/-- The longer text is read to its end, or refused, where the text is. -/
theorem run_prepend (unanchored : scan.pos = 0 → IsUnanchored scan.unread) (front : Sequence) :
    (scan.prepend front).run = (scan.run.mapError .shift).map (Scan.prepend front) := by
  have start : Mirrored scan front scan := ⟨unanchored, rfl⟩
  obtain ⟨last, mirrored, outcome⟩ := invariant_of_outcome mirrored_of_move start
  rw [mirrored.run_eq]
  rcases outcome with ⟨unreadEq, ran⟩ | ⟨error, refused, ran⟩
  · rw [ran]
    exact run_of_unread_nil unreadEq
  · rw [ran]
    exact run_of_refused (refused_prepend mirrored.unanchored refused front)

theorem finish_prepend (shaped : scan.WellShaped) (front : Sequence) :
    (scan.prepend front).finish = (scan.finish.mapError .shift).map (Sequence.prepend front) := by
  cases enclosingEq : scan.enclosing with
  | nil =>
      simp only [finish, prepend, enclosingEq, prependGroups, prependWithin,
        Draft.finish_prepend front shaped.draft.pieces_plain]
      rfl
  | cons group enclosing =>
      obtain ⟨_, groupsEq⟩ := prepend_of_enclosing enclosingEq front
      simp only [finish, groupsEq, enclosingEq]
      rfl

/-- A character that no quantifier follows leaves its piece in front of the scan. -/
theorem run_cons {c : Char} {atom : Atom} {text : List Char} (absent : Quantifier.Absent text)
    (notOpening : c ≠ '(') (notBar : c ≠ '|') (notClosing : c ≠ ')')
    (atomRead : Atom.read 0 c text = .ok ⟨atom, 0⟩) :
    Scan.run { unread := c :: text } =
      Scan.run { pos := 1, unread := text, draft := Draft.push {} ⟨.once, atom⟩ } := by
  have pieceRead : Piece.read atom 1 text = .ok ⟨⟨.once, atom⟩, 0⟩ := by
    rw [Piece.read, Quantifier.read_of_absent absent]
  have unreadEq : Scan.unread { unread := c :: text } = c :: text := rfl
  exact run_of_move (Move.takeAtom unreadEq notOpening notBar notClosing atomRead pieceRead)

end Scan

namespace Pattern

/-- What a front adds to a reading. -/
theorem parse_prepend {options : LimitOptions} {text longer : String} {front : Sequence}
    (unanchored : IsUnanchored text.toList)
    (same : Scan.run { unread := longer.toList } =
      (Scan.prepend front { unread := text.toList }).run) :
    parse options longer = ((parse options text).mapError .shift).map fun pattern =>
      { pattern with pieces := Sequence.prepend front pattern.pieces } := by
  rw [parse, parse, same, Scan.run_prepend (fun _ => unanchored)]
  have start : Scan.WellShaped { unread := text.toList } := ⟨.empty, by simp⟩
  cases ran : Scan.run { unread := text.toList } with
  | error error => rfl
  | ok last =>
      obtain ⟨shaped, _⟩ := Scan.invariant_of_run Scan.wellShaped_of_move start ran
      simp only [ParseError.mapError_ok, Except.map, Scan.finish_prepend shaped]
      cases last.finish <;> rfl

/-- A character before a detached text adds itself.  A mark for the start of the pattern
leaves no piece, and any other character that stands for itself leaves one in front of the
first alternative.  Refusals stay the same, one position on. -/
theorem parse_cons {options : LimitOptions} {text : String} (detached : IsDetached text.toList) :
    parse options ("^" ++ text) = (parse options text).mapError .shift ∧
      ∀ c, c ∉ ['(', ')', '[', '.', '|', '\\', '^', 'A', '$', 'z', 'Z'] →
        parse options (String.singleton c ++ text) =
          ((parse options text).mapError .shift).map fun pattern =>
            { pattern with
              pieces := Sequence.prepend [⟨.once, .literal c⟩] pattern.pieces } := by
  constructor
  · have same : Scan.run { unread := ("^" ++ text).toList } =
        (Scan.prepend [] { unread := text.toList }).run := by
      rw [String.toList_append]
      exact Scan.run_cons (c := '^') detached.noQuantifier (by decide) (by decide) (by decide) rfl
    rw [parse_prepend detached.toIsUnanchored same]
    simp only [Sequence.prepend_nil]
    cases parse options text <;> rfl
  · intro c ordinary
    simp only [List.mem_cons, List.not_mem_nil, or_false, not_or] at ordinary
    have atomRead : Atom.read 0 c text.toList = .ok ⟨.literal c, 0⟩ := by
      simp [Atom.read, Anchor.ofChar?, ordinary]
    apply parse_prepend detached.toIsUnanchored
    rw [String.toList_append, String.toList_singleton]
    exact Scan.run_cons detached.noQuantifier (by simp [ordinary])
      (by simp [ordinary]) (by simp [ordinary]) atomRead

/-- The letter goes to the left of the outer choice.  The choice in the group is out of
its reach. -/
theorem parse_cons_alternatives :
    let text := "b*|(c|d)"
    let pieces (front : Sequence) : Sequence :=
      [⟨.once, .either (front ++ [⟨.star, .literal 'b'⟩])
        [⟨.once, .group (some "1")
          [⟨.once, .either [⟨.once, .literal 'c'⟩] [⟨.once, .literal 'd'⟩]⟩]⟩]⟩]
    IsDetached text.toList ∧
      parse {} text = .ok { pieces := pieces [], groupCount := 1 } ∧
      parse {} ("^" ++ text) = .ok { pieces := pieces [], groupCount := 1 } ∧
      parse {} (String.singleton 'a' ++ text) =
        .ok { pieces := pieces [⟨.once, .literal 'a'⟩], groupCount := 1 } := by
  intro text pieces
  have detached : IsDetached text.toList := by
    decide +kernel
  have parsed : parse {} text = .ok { pieces := pieces [], groupCount := 1 } := by
    decide +kernel
  obtain ⟨anchored, lettered⟩ := @parse_cons {} text detached
  rw [parsed] at anchored lettered
  exact ⟨detached, parsed, anchored, lettered 'a' (by decide)⟩

end Pattern

end PatternTree
