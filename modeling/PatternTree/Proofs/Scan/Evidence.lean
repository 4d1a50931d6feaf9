import PatternTree.Proofs.Scan.Depth
import PatternTree.Proofs.Scan.Move
import PatternTree.Proofs.Tree.Evidence

/-!
# Every refusal blames the text that justifies it

A scan knows its place in the text, and `Scan.Placed` says what that place tells:
the unread text begins there, a parenthesis stands where each open group began,
and all that is open was opened by a parenthesis or a bar before it.  Moves keep
this, so the readers are given the text at the position that they are told, and
the refusals that a scan adds to theirs have grounds as well.
-/

namespace PatternTree

namespace Text

variable {text : List Char} {first second : Nat}

theorem openingCount_take_le (le : first ≤ second) :
    openingCount (text.take first) ≤ openingCount (text.take second) :=
  (List.take_prefix_take_left le).sublist.countP_le

theorem openingCount_take_lt {c : Char} {rest : List Char} (here : text.drop first = c :: rest)
    (opens : c ∈ ['(', '|']) (lt : first < second) :
    openingCount (text.take first) < openingCount (text.take second) := by
  have counted : openingCount (text.take (first + 1)) = openingCount (text.take first) + 1 := by
    have one : openingCount [c] = 1 := by
      rw [openingCount, List.countP_singleton, if_pos (by simpa using opens)]
    rw [take_succ_of_drop here, ← one]
    exact List.countP_append
  have more : openingCount (text.take (first + 1)) ≤ openingCount (text.take second) :=
    openingCount_take_le lt
  omega

end Text

namespace Scan

variable {text : List Char} {scan next : Scan}

/-- The place of a scan in the text that it reads. -/
structure Placed (text : List Char) (scan : Scan) : Prop where
  drop_pos : text.drop scan.pos = scan.unread
  started : ∀ group ∈ scan.enclosing, ∃ tail, text.drop group.start = '(' :: tail
  depth_le : scan.depth ≤ Text.openingCount (text.take scan.pos)

/-- What is unread further on is still found at its position. -/
theorem Placed.drop_of_unread {head : Char} {tail : List Char} (placed : Placed text scan)
    (unreadEq : scan.unread = head :: tail) (count : Nat) :
    text.drop (scan.pos + (count + 1)) = tail.drop count := by
  rw [← List.drop_drop, placed.drop_pos, unreadEq, List.drop_succ_cons]

theorem placed_start (text : List Char) : Placed text { unread := text } where
  drop_pos := rfl
  started := by simp
  depth_le := Nat.zero_le _

/-- Only a parenthesis or a bar makes a scan deeper. -/
theorem depth_of_move (move : Move scan next) :
    next.depth ≤ scan.depth ∨
      ∃ c tail, scan.unread = c :: tail ∧ c ∈ ['(', '|'] ∧ next.depth = scan.depth + 1 := by
  simp only [depth_eq_add]
  cases move with
  | openGroup unreadEq =>
      refine .inr ⟨_, _, unreadEq, by decide, ?_⟩
      simp only [outerDepth, List.length_nil]
      omega
  | openAlternative unreadEq =>
      refine .inr ⟨_, _, unreadEq, by decide, ?_⟩
      simp only [Draft.split, List.length_cons]
      omega
  | closeGroup _ enclosingEq =>
      left
      simp only [Draft.alternatives_push, enclosingEq, outerDepth]
      omega
  | takeAtom =>
      left
      rw [Draft.alternatives_push]

theorem placed_of_move (placed : Placed text scan) (move : Move scan next) :
    Placed text next where
  drop_pos := by
    obtain ⟨count, advanced⟩ := advanced_of_move move
    rw [advanced.pos_eq, advanced.unread_eq, ← List.drop_drop, placed.drop_pos]
  started := by
    cases move with
    | openGroup unreadEq =>
        intro group member
        cases member with
        | head => exact ⟨_, placed.drop_pos.trans unreadEq⟩
        | tail _ member => exact placed.started group member
    | openAlternative => exact placed.started
    | closeGroup _ enclosingEq =>
        intro group member
        exact placed.started group (by simp [enclosingEq, member])
    | takeAtom => exact placed.started
  depth_le := by
    have later := pos_lt_of_move move
    have depthLe := placed.depth_le
    rcases depth_of_move move with noDeeper | ⟨c, tail, unreadEq, opens, deeper⟩
    · have counted : Text.openingCount (text.take scan.pos) ≤
          Text.openingCount (text.take next.pos) :=
        Text.openingCount_take_le (Nat.le_of_lt later)
      omega
    · have counted := Text.openingCount_take_lt (placed.drop_pos.trans unreadEq) opens later
      omega

/-- A refusal of a scan has grounds in the text that it reads. -/
theorem isGrounded_of_refused (placed : Placed text scan) {error : ParseError}
    (refused : Refused scan error) : error.IsGrounded text := by
  have full_before (full : nestingLimit ≤ scan.depth) :
      nestingLimit ≤ Text.openingCount (text.take scan.pos) := Nat.le_trans full placed.depth_le
  cases refused with
  | groupTooDeep unreadEq full =>
      exact ParseError.isGrounded_of_drop (placed.drop_pos.trans unreadEq)
        (.tooDeep (by decide) (full_before full))
  | opening unreadEq _ failed =>
      exact Opening.isGrounded_of_read (placed.drop_pos.trans unreadEq) failed
  | alternativeTooDeep unreadEq full =>
      exact ParseError.isGrounded_of_drop (placed.drop_pos.trans unreadEq)
        (.tooDeep (by decide) (full_before full))
  | unmatched unreadEq =>
      exact ParseError.isGrounded_of_drop (placed.drop_pos.trans unreadEq) .unmatchedParenthesis
  | atom unreadEq _ _ _ failed =>
      exact Atom.isGrounded_of_read (placed.drop_pos.trans unreadEq) failed
  | groupQuantifier unreadEq _ failed =>
      exact Piece.isGrounded_of_read (placed.drop_of_unread unreadEq 0) failed
  | atomQuantifier unreadEq _ _ _ _ failed =>
      exact Piece.isGrounded_of_read (placed.drop_of_unread unreadEq _) failed

end Scan

namespace Pattern

/-- A refusal blames a place in the text, and what stands there justifies it. -/
theorem isGrounded_of_parse {options : LimitOptions} {text : String} {error : ParseError}
    (refused : parse options text = .error error) : error.IsGrounded text.toList := by
  have start := Scan.placed_start text.toList
  rcases parse_eq_error_iff.mp refused with failed | ⟨last, group, _, ran, enclosingEq, rfl⟩
  · obtain ⟨last, placed, blamed⟩ :=
      Scan.invariant_of_run_error Scan.placed_of_move start failed
    exact Scan.isGrounded_of_refused placed blamed
  · obtain ⟨placed, _⟩ := Scan.invariant_of_run Scan.placed_of_move start ran
    obtain ⟨tail, here⟩ := placed.started group (by simp [enclosingEq])
    exact ParseError.isGrounded_of_drop here .unclosedGroup

/-- A surrogate is blamed right after its backslash.  The group is never closed, but the
scan does not come to that. -/
theorem isGrounded_of_parse_surrogate :
    let text := "^(?<n>a|[^]]\\u\x7bDc00\x7d*"
    let error : ParseError := ⟨13, .invalidScalar 0xDC00⟩
    parse {} text = .error error ∧ error.IsGrounded text.toList := by
  intro text error
  have refused : parse {} text = .error error := by
    decide +kernel
  exact ⟨refused, isGrounded_of_parse refused⟩

end Pattern

end PatternTree
