import PatternTree.Proofs.Scan.Lead
import PatternTree.Proofs.Tree.Boundary

/-!
# The boundary that a tree keeps

An anchor leaves a piece only if a quantifier follows it.  After an anchor to the end there
is no room for one, and an anchor to the start stands at the start alone, so a tree has at
most one boundary.  `Pattern.boundary_of_parse` says which texts have it and where in the
tree it is.

`isBoundless_of_move` keeps boundaries out of all that is drafted behind the first piece.
That piece stands in front of the rest, as in `Scan.prepend`.
-/

namespace PatternTree

/-- The text begins with an anchor to the start and a quantifier, which make the piece
`first`. -/
inductive Lead (text : List Char) (first : Piece) : Prop where
  | intro {mark after : List Char} {length : Nat}
      (isMark : mark ∈ Anchor.starts) (textEq : text = mark ++ after)
      (pieceRead : Piece.read .boundary mark.length after = .ok ⟨first, length⟩)
      (repeats : 0 < length)

/-- A quantifier takes text unless there is none. -/
theorem Quantifier.once_or_pos_of_read {pos length : Nat} {text : List Char}
    {quantifier : Quantifier} (found : read pos text = .ok ⟨quantifier, length⟩) :
    quantifier = .once ∧ length = 0 ∨ quantifier ≠ .once ∧ 0 < length := by
  simp only [read] at found
  split at found
  · cases found
    simp
  · cases found
    simp
  · cases found
    simp
  · split at found
    · cases found
      simp
    · split at found <;> cases found
      simp
  · cases found
    simp

/-- A piece takes text for its quantifier, or repeats nothing. -/
theorem Piece.once_or_pos_of_read {atom : Atom} {pos length : Nat} {text : List Char}
    {piece : Piece} (found : Piece.read atom pos text = .ok ⟨piece, length⟩) :
    piece = ⟨.once, atom⟩ ∧ length = 0 ∨ piece.quantifier ≠ .once ∧ 0 < length := by
  simp only [Piece.read] at found
  split at found
  · cases found
  · next taken read =>
      cases found
      rcases Quantifier.once_or_pos_of_read read with ⟨_, nothing⟩ | ⟨repeats, _⟩
      · exact .inl ⟨rfl, nothing⟩
      · exact absurd rfl repeats
  · next quantifier taken notOnce read =>
      right
      rcases Quantifier.once_or_pos_of_read read with ⟨rfl, _⟩ | ⟨repeats, takes⟩
      · exact (notOnce rfl).elim
      · split at found
        · cases found
          exact ⟨by simp, by omega⟩
        · cases found
          exact ⟨repeats, by omega⟩

/-! ## Drafts -/

/-- No boundary has been drafted. -/
structure Draft.IsBoundless (draft : Draft) : Prop where
  alternatives : ∀ sequence ∈ draft.alternatives, Sequence.IsBoundless sequence
  pieces : Sequence.IsBoundless draft.pieces

namespace Draft

variable {draft : Draft}

theorem IsBoundless.empty : IsBoundless {} where
  alternatives := by simp
  pieces := Sequence.isBoundless_nil

theorem IsBoundless.push {piece : Piece} (boundless : draft.IsBoundless)
    (single : Sequence.IsBoundless [piece]) : (draft.push piece).IsBoundless := by
  unfold Draft.push
  split
  · exact boundless
  · exact {
      alternatives := boundless.alternatives
      pieces := Sequence.isBoundless_cons.mpr ⟨single, boundless.pieces⟩ }

theorem IsBoundless.split (boundless : draft.IsBoundless) : draft.split.IsBoundless where
  alternatives := by
    intro sequence member
    cases member with
    | head => exact Sequence.isBoundless_reverse.mpr boundless.pieces
    | tail _ member => exact boundless.alternatives sequence member
  pieces := Sequence.isBoundless_nil

theorem IsBoundless.finish (boundless : draft.IsBoundless) :
    Sequence.IsBoundless draft.finish := by
  apply finish_induction
  · exact Sequence.isBoundless_reverse.mpr boundless.pieces
  · intro left member right rightBoundless
    exact Sequence.isBoundless_either.mpr ⟨boundless.alternatives left member, rightBoundless⟩

end Draft

/-! ## Scans -/

namespace Scan

variable {scan next last : Scan}

/-- No boundary has been drafted, in the open groups or around them. -/
structure IsBoundless (scan : Scan) : Prop where
  draft : scan.draft.IsBoundless
  enclosing : ∀ group ∈ scan.enclosing, group.outer.IsBoundless

/-- An anchor with text behind it is the lead of the pattern. -/
theorem lead_of_read {head : Char} {tail : List Char} {length more : Nat} {piece : Piece}
    (atomRead : Atom.read scan.pos head tail = .ok ⟨.boundary, length⟩)
    (pieceRead : Piece.read .boundary (scan.pos + (length + 1)) (tail.drop length) =
      .ok ⟨piece, more⟩) (kept : piece ≠ ⟨.once, .boundary⟩) :
    scan.pos = 0 ∧ Lead (head :: tail) piece := by
  have inside := Atom.length_le_of_read atomRead
  rcases Piece.once_or_pos_of_read pieceRead with ⟨bare, _⟩ | ⟨_, repeats⟩
  · exact absurd bare kept
  rcases Atom.start_or_stop_of_read atomRead with ⟨start, isMark⟩ | ends
  · have textEq : head :: tail = head :: tail.take length ++ tail.drop length := by
      rw [List.cons_append, List.take_append_drop]
    refine ⟨start, .intro isMark textEq ?_ repeats⟩
    simpa [start, Nat.min_eq_left inside] using pieceRead
  · rw [ends] at pieceRead
    cases pieceRead
    exact absurd rfl kept

/-- An anchor to the end leaves no piece, wherever it stands. -/
theorem draft_eq_of_ending {ending : List Char} (isStop : ending ∈ Anchor.stops)
    (begins : ending <+: scan.unread) (move : Move scan next) : next.draft = scan.draft := by
  have ordinary {head : Char} {tail : List Char} (unreadEq : scan.unread = head :: tail) :
      head ∉ ['(', '|', ')'] := by
    rw [unreadEq] at begins
    rcases Anchor.mem_stops.mp isStop with rfl | rfl | rfl | rfl | rfl
    all_goals
      cases (List.cons_prefix_cons.mp begins).1
      decide
  cases move with
  | openGroup unreadEq => exact absurd (by decide) (ordinary unreadEq)
  | openAlternative unreadEq => exact absurd (by decide) (ordinary unreadEq)
  | closeGroup unreadEq => exact absurd (by decide) (ordinary unreadEq)
  | takeAtom unreadEq _ _ _ atomRead pieceRead =>
      rw [unreadEq] at begins
      obtain ⟨rfl, ends⟩ := Atom.boundary_of_read_ending atomRead isStop begins
      rw [ends] at pieceRead
      cases pieceRead
      rfl

theorem isBoundless_of_move (boundless : scan.IsBoundless)
    (unled : scan.pos = 0 → ∀ first, ¬Lead scan.unread first) (move : Move scan next) :
    next.IsBoundless := by
  cases move with
  | openGroup =>
      exact ⟨.empty, List.forall_mem_cons.mpr ⟨boundless.draft, boundless.enclosing⟩⟩
  | openAlternative => exact ⟨boundless.draft.split, boundless.enclosing⟩
  | @closeGroup _ group enclosing _ _ _ enclosingEq pieceRead =>
      have around := boundless.enclosing
      rw [enclosingEq, List.forall_mem_cons] at around
      refine ⟨around.1.push (Piece.isBoundless_of_read ?_ pieceRead), around.2⟩
      intro quantifier
      rw [Sequence.IsBoundless, Sequence.leaves_group]
      exact boundless.draft.finish
  | @takeAtom head tail atom length piece more unreadEq _ _ _ atomRead pieceRead =>
      refine ⟨?_, boundless.enclosing⟩
      -- A boundary that is not the lead is bare, and a bare one is not drafted.
      by_cases isBoundary : atom = .boundary
      · subst isBoundary
        by_cases bare : piece = ⟨.once, .boundary⟩
        · exact bare ▸ boundless.draft
        · obtain ⟨start, lead⟩ := lead_of_read atomRead pieceRead bare
          exact absurd (unreadEq ▸ lead) (unled start piece)
      · refine boundless.draft.push (Piece.isBoundless_of_read ?_ pieceRead)
        intro quantifier
        rw [Sequence.IsBoundless, Sequence.leaves_leaf (Atom.isLeaf_of_read atomRead)]
        simpa using isBoundary

theorem isBoundless_of_run (boundless : scan.IsBoundless)
    (unled : scan.pos = 0 → ∀ first, ¬Lead scan.unread first) (ran : scan.run = .ok last) :
    last.IsBoundless := by
  let holds (reached : Scan) : Prop :=
    reached.IsBoundless ∧ (reached.pos = 0 → ∀ first, ¬Lead reached.unread first)
  have kept {reached next : Scan} (before : holds reached) (move : Move reached next) :
      holds next := by
    refine ⟨isBoundless_of_move before.1 before.2 move, ?_⟩
    obtain ⟨count, advanced⟩ := advanced_of_move move
    intro start
    rw [advanced.pos_eq] at start
    cases start
  exact (invariant_of_run kept ⟨boundless, unled⟩ ran).1.1

theorem exists_read_of_mark {mark : List Char} (isMark : mark ∈ Anchor.starts)
    (after : List Char) :
    ∃ head tail, mark = head :: tail ∧ head ≠ '(' ∧ head ≠ '|' ∧ head ≠ ')' ∧
      Atom.read 0 head (tail ++ after) = .ok ⟨.boundary, tail.length⟩ := by
  rcases Anchor.mem_starts.mp isMark with rfl | rfl | rfl
  all_goals exact ⟨_, _, rfl, by decide, by decide, by decide, rfl⟩

/-- The piece that the text begins with stands in front of all that the scan of the rest
drafts. -/
theorem run_of_lead {text : List Char} {first : Piece} (lead : Lead text first) :
    ∃ rest : Scan, rest.pos ≠ 0 ∧ rest.draft = {} ∧ rest.enclosing = [] ∧
      Scan.run { unread := text } = (rest.prepend [first]).run := by
  cases lead with
  | @intro mark after length isMark textEq pieceRead repeats =>
      obtain ⟨head, tail, rfl, notOpening, notBar, notClosing, atomRead⟩ :=
        exists_read_of_mark isMark after
      have unreadEq : Scan.unread { unread := text } = head :: (tail ++ after) := textEq
      have pieceReadThere : Piece.read .boundary (0 + (tail.length + 1))
          ((tail ++ after).drop tail.length) = .ok ⟨first, length⟩ := by
        rw [List.drop_left, Nat.zero_add]
        exact pieceRead
      have move := Move.takeAtom unreadEq notOpening notBar notClosing atomRead pieceReadThere
      have pushed : Draft.push {} first = { pieces := [first] } := by
        unfold Draft.push
        split
        · rcases Piece.once_or_pos_of_read pieceRead with ⟨_, nothing⟩ | ⟨notOnce, _⟩
          · omega
          · exact absurd rfl notOnce
        · rfl
      refine ⟨{ pos := tail.length + length, unread := after.drop length }, ?_, rfl, rfl, ?_⟩
      · simp only
        omega
      · rw [run_of_move move]
        simp only [pushed, List.drop_left, Nat.zero_add, Nat.add_right_comm tail.length 1]
        rfl

/-- What a text is read as has a boundary in its lead alone. -/
theorem isBoundless_or_lead_of_run {text : List Char} (ran : Scan.run { unread := text } = .ok last)
    (closed : last.enclosing = []) :
    Sequence.IsBoundless last.draft.finish ∨
      ∃ first others, Lead text first ∧ Sequence.IsBoundless others ∧
        last.draft.finish = Sequence.prepend [first] others := by
  by_cases led : ∃ first, Lead text first
  · right
    obtain ⟨first, lead⟩ := led
    obtain ⟨rest, later, draftEq, enclosingEq, same⟩ := run_of_lead lead
    rw [same, run_prepend (fun start => absurd start later)] at ran
    cases ranRest : rest.run with
    | error error =>
        rw [ranRest] at ran
        cases ran
    | ok other =>
        rw [ranRest] at ran
        cases ran
        have empty : rest.IsBoundless := ⟨draftEq ▸ .empty, by simp [enclosingEq]⟩
        have boundless := isBoundless_of_run empty (fun start => absurd start later) ranRest
        have start : rest.WellShaped := ⟨draftEq ▸ .empty, by simp [enclosingEq]⟩
        have shaped := (invariant_of_run wellShaped_of_move start ranRest).1
        have finished := finish_eq_ok_iff.mpr ⟨closed, rfl⟩
        rw [finish_prepend shaped] at finished
        cases otherFinished : other.finish with
        | error error =>
            rw [otherFinished] at finished
            cases finished
        | ok others =>
            rw [otherFinished] at finished
            obtain ⟨_, rfl⟩ := finish_eq_ok_iff.mp otherFinished
            exact ⟨first, _, lead, boundless.draft.finish, (Except.ok.inj finished).symm⟩
  · left
    have empty : IsBoundless { unread := text } := ⟨.empty, by simp⟩
    exact (isBoundless_of_run empty (fun _ first lead => led ⟨first, lead⟩) ran).draft.finish

end Scan

/-! ## Patterns -/

theorem Sequence.leaves_prepend (front sequence : Sequence) :
    leaves (prepend front sequence) = leaves front ++ leaves sequence := by
  unfold prepend
  split
  · rw [leaves_either, leaves_either, leaves_append, List.append_assoc]
  · exact leaves_append front sequence

namespace Lead

variable {text : List Char} {first : Piece}

/-- The boundary is quantified itself, or in the group that its exact number implies. -/
theorem eq_or_eq (lead : Lead text first) :
    (∃ quantifier, first = ⟨quantifier, .boundary⟩) ∨
      ∃ count, first = .optionalExactly count .boundary := by
  cases lead with
  | intro _ _ pieceRead _ => exact Piece.eq_of_read pieceRead

theorem leaves_eq (lead : Lead text first) :
    ∃ quantifier, quantifier ≠ .once ∧ Sequence.leaves [first] = [⟨quantifier, .boundary⟩] := by
  cases lead with
  | intro _ _ pieceRead repeats =>
      rcases Piece.eq_of_read pieceRead with ⟨quantifier, rfl⟩ | ⟨count, rfl⟩
      · rcases Piece.once_or_pos_of_read pieceRead with ⟨_, nothing⟩ | ⟨notOnce, _⟩
        · omega
        · exact ⟨quantifier, notOnce, Sequence.leaves_leaf rfl⟩
      · refine ⟨.braces ⟨some count, false, none⟩, by simp, ?_⟩
        rw [Piece.optionalExactly, Sequence.leaves_group, Sequence.leaves_leaf rfl]

end Lead

/-- A literal that is read takes one character or none.  One that takes none is repeated,
and there is at most one.  It comes from an anchor to the start at the front of the text, with
its quantifier, and is the first leaf of the tree: the first piece, or the first of the left
side when the pattern is a choice.  No other piece of the tree has one in it, and an anchor to
the end leaves no piece at all. -/
theorem Pattern.boundary_of_parse {options : LimitOptions} {text : String} {pattern : Pattern}
    (parsed : Pattern.parse options text = .ok pattern) :
    let leaves := Sequence.leaves pattern.pieces
    (∀ leaf ∈ leaves, ∀ literal, leaf.atom.literal? = some literal →
      literal.length ≤ 1 ∧ (literal = "" → leaf.quantifier ≠ .once)) ∧
    leaves.countP (fun leaf => leaf.atom.literal? == some "") ≤ 1 ∧
    ((∃ leaf ∈ leaves, leaf.atom.literal? = some "") →
      ∃ first others quantifier,
        Lead text.toList first ∧
        ((∃ quantifier, first = ⟨quantifier, .boundary⟩) ∨
          ∃ count, first = .optionalExactly count .boundary) ∧
        pattern.pieces = Sequence.prepend [first] others ∧
        leaves = ⟨quantifier, .boundary⟩ :: Sequence.leaves others ∧
        ∀ leaf ∈ Sequence.leaves others, leaf.atom.literal? ≠ some "") ∧
    ∀ ending ∈ Anchor.stops, ∀ scan next : Scan,
      ending <+: scan.unread → Scan.Move scan next → next.draft = scan.draft := by
  obtain ⟨last, ran, closed, rfl⟩ := Pattern.parse_eq_ok_iff.mp parsed
  intro leaves
  have dropped : ∀ ending ∈ Anchor.stops, ∀ scan next : Scan,
      ending <+: scan.unread → Scan.Move scan next → next.draft = scan.draft :=
    fun _ isStop _ _ => Scan.draft_eq_of_ending isStop
  rcases Scan.isBoundless_or_lead_of_run ran closed with boundless | led
  · refine ⟨?_, boundless.countP_eq_zero.trans_le (Nat.zero_le 1), ?_, dropped⟩
    · intro leaf member literal found
      refine ⟨Atom.length_le_of_literal? found, ?_⟩
      rintro rfl
      exact absurd found (boundless.literal?_ne leaf member)
    · rintro ⟨leaf, member, found⟩
      exact absurd found (boundless.literal?_ne leaf member)
  · obtain ⟨first, others, lead, boundless, piecesEq⟩ := led
    obtain ⟨quantifier, repeats, leadLeaves⟩ := lead.leaves_eq
    have leavesEq : leaves = ⟨quantifier, .boundary⟩ :: Sequence.leaves others := by
      simp only [leaves, piecesEq, Sequence.leaves_prepend, leadLeaves, List.singleton_append]
    rw [leavesEq]
    refine ⟨?_, ?_, fun _ => ⟨first, others, quantifier, lead, lead.eq_or_eq, piecesEq, rfl,
      boundless.literal?_ne⟩, dropped⟩
    · intro leaf member literal found
      refine ⟨Atom.length_le_of_literal? found, ?_⟩
      rintro rfl
      rcases List.mem_cons.mp member with rfl | inOthers
      · exact repeats
      · exact absurd found (boundless.literal?_ne leaf inOthers)
    · rw [List.countP_cons, boundless.countP_eq_zero, Nat.zero_add]
      split <;> omega

/-- The exact number is optional, so the boundary is in a group, which is on the left of the
choice.  The anchor to the end leaves nothing. -/
theorem Pattern.boundary_of_parse_optional :
    let text := "\\A\x7b2\x7d?b|(c)\\z"
    let pattern : Pattern := {
      pieces := [⟨.once, .either
        [.optionalExactly 2 .boundary, ⟨.once, .literal 'b'⟩]
        [⟨.once, .group (some "1") [⟨.once, .literal 'c'⟩]⟩]⟩]
      groupCount := 1 }
    let leaves := Sequence.leaves pattern.pieces
    Pattern.parse {} text = .ok pattern ∧
      (∃ leaf ∈ leaves, leaf.atom.literal? = some "") ∧
      leaves.countP (fun leaf => leaf.atom.literal? == some "") ≤ 1 ∧
      ∃ first others quantifier, Lead text.toList first ∧
        pattern.pieces = Sequence.prepend [first] others ∧
        leaves = ⟨quantifier, .boundary⟩ :: Sequence.leaves others := by
  intro text pattern leaves
  have parsed : Pattern.parse {} text = .ok pattern := by
    decide +kernel
  have kept : ∃ leaf ∈ leaves, leaf.atom.literal? = some "" := by
    decide +kernel
  obtain ⟨_, once, placed, _⟩ := Pattern.boundary_of_parse parsed
  obtain ⟨first, others, quantifier, lead, _, piecesEq, leavesEq, _⟩ := placed kept
  exact ⟨parsed, kept, once, first, others, quantifier, lead, piecesEq, leavesEq⟩

end PatternTree
