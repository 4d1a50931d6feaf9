import PatternTree.Proofs.Scan.Extension
import PatternTree.Proofs.Tree.Ending

/-!
# An anchor at the end of a text

An anchor to the end of the pattern stands for an edge that is there anyway.  Added to a
text that is read, it leaves the tree as it is, and `Pattern.parse_append_ending` says so
for each of the ways to write it.

The scans of the text and of the longer one go side by side up to the end of the text,
whatever is open there.  What is left then is the anchor, which leaves no piece.
-/

namespace PatternTree

namespace Scan

variable {scan next last : Scan} {more : List Char}

theorem move_extend_of_isApart (apart : IsApart more) (endable : IsEndable scan.unread)
    (move : Move scan next) : Move (scan.extend more) (next.extend more) := by
  apply move_extend_of_read more move
  · intro tail id length opened _
    exact Opening.read_append_of_isApart apart opened
  · intro head tail atom length count unreadEq atomRead _
    exact Atom.read_append_of_isApart apart (unreadEq ▸ endable) atomRead
  · intro atom pos text piece length pieceRead _
    exact (Piece.read_append_of_isApart apart atom pos text).trans pieceRead

/-- The scan of the longer text comes to where the shorter text ends. -/
theorem run_extend_of_isApart (apart : IsApart more) (endable : IsEndable scan.unread)
    (ran : scan.run = .ok last) :
    (scan.extend more).run = ({ last with unread := more } : Scan).run := by
  let alongside (reached : Scan) : Prop :=
    IsEndable reached.unread ∧ (scan.extend more).run = (reached.extend more).run
  have kept {reached next : Scan} (holds : alongside reached) (move : Move reached next) :
      alongside next := by
    obtain ⟨endable, same⟩ := holds
    refine ⟨endable.of_suffix (unread_suffix_of_move move), ?_⟩
    rw [same, run_of_move (move_extend_of_isApart apart endable move)]
  obtain ⟨⟨_, same⟩, unreadEq⟩ := invariant_of_run kept ⟨endable, rfl⟩ ran
  rw [same, extend, unreadEq, List.nil_append]

/-- An anchor at the end is read and leaves the draft as it is. -/
theorem run_of_unread_ending {head : Char} {tail : List Char} (unreadEq : scan.unread = head :: tail)
    (notOpening : head ≠ '(') (notBar : head ≠ '|') (notClosing : head ≠ ')')
    (atomRead : Atom.read scan.pos head tail = .ok ⟨.boundary, tail.length⟩) :
    scan.run = .ok { scan with pos := scan.pos + (tail.length + 1), unread := [] } := by
  have pieceRead : Piece.read .boundary (scan.pos + (tail.length + 1)) (tail.drop tail.length) =
      .ok ⟨⟨.once, .boundary⟩, 0⟩ := by
    rw [List.drop_length]
    rfl
  rw [run_of_move (.takeAtom unreadEq notOpening notBar notClosing atomRead pieceRead)]
  rw [List.drop_length, List.drop_nil]
  exact run_of_unread_nil rfl

theorem exists_run_of_ending {ending : List Char} (isStop : ending ∈ Anchor.stops)
    (unreadEq : scan.unread = ending) : ∃ pos, scan.run = .ok { scan with pos, unread := [] } := by
  rcases Anchor.mem_stops.mp isStop with rfl | rfl | rfl | rfl | rfl
  all_goals
    exact ⟨_, run_of_unread_ending unreadEq (by decide) (by decide) (by decide) rfl⟩

end Scan

namespace Pattern

/-- An anchor to the end of the pattern adds nothing to what is read. -/
theorem parse_append_ending {options : LimitOptions} {text : String} {pattern : Pattern}
    (parsed : parse options text = .ok pattern) (endable : IsEndable text.toList)
    {ending : String} (isEnding : ending ∈ ["$", "z", "Z", "\\z", "\\Z"]) :
    parse options (text ++ ending) = .ok pattern := by
  have isStop : ending.toList ∈ Anchor.stops := List.mem_map_of_mem isEnding
  obtain ⟨last, ran, closed, rfl⟩ := parse_eq_ok_iff.mp parsed
  have comesBy := Scan.run_extend_of_isApart (.of_mem_stops isStop) endable ran
  let atEnding : Scan := { last with unread := ending.toList }
  obtain ⟨pos, ends⟩ : ∃ pos, atEnding.run = .ok { atEnding with pos, unread := [] } :=
    Scan.exists_run_of_ending isStop rfl
  rw [parse_eq_ok_iff, String.toList_append]
  exact ⟨{ atEnding with pos, unread := [] }, comesBy.trans ends, closed, rfl⟩

/-- The brace opens no quantifier, and the last escape has room for one digit more.  Two
alternatives are open where the anchor comes. -/
theorem parse_append_ending_alternatives :
    let text := "^(a|\\x4)|b\x7b2,|\\x4"
    let pattern : Pattern := {
      pieces := [⟨.once, .either
        [⟨.once, .group (some "1")
          [⟨.once, .either [⟨.once, .literal 'a'⟩] [⟨.once, .literal '\x04'⟩]⟩]⟩]
        [⟨.once, .either
          [⟨.once, .literal 'b'⟩, ⟨.once, .literal '\x7b'⟩, ⟨.once, .literal '2'⟩,
            ⟨.once, .literal ','⟩]
          [⟨.once, .literal '\x04'⟩]⟩]⟩]
      groupCount := 1 }
    parse {} text = .ok pattern ∧ IsEndable text.toList ∧
      parse {} (text ++ "\\Z") = .ok pattern := by
  intro text pattern
  have parsed : parse {} text = .ok pattern := by
    decide +kernel
  have endable : IsEndable text.toList := by
    decide +kernel
  exact ⟨parsed, endable, parse_append_ending parsed endable (by decide)⟩

end Pattern

end PatternTree
