import PatternTree.Proofs.Scan.Move
import PatternTree.Proofs.Tree.Extension

/-!
# Refusals that no further text mends

A text can be refused because it ends too soon.  Any other refusal of a settled
text is definite: `Pattern.parse_append_of_refused` says that the text is refused
for the same cause at the same position however it goes on.

The scans of the text and of a longer one go side by side, as `move_extend` and
`refused_extend` say, until one construct is cut off by the end of the text.  What
is left of the text is inert then, and is not refused.
-/

namespace PatternTree

namespace Scan

variable {scan next : Scan}

/-- The scan that finds more text behind its own. -/
def extend (scan : Scan) (more : List Char) : Scan :=
  { scan with unread := scan.unread ++ more }

theorem unread_extend {head : Char} {tail : List Char} (unreadEq : scan.unread = head :: tail)
    (more : List Char) : (scan.extend more).unread = head :: (tail ++ more) := by
  rw [extend, unreadEq, List.cons_append]

/-- A move is made before a longer text too, if what the readers have found for it is
found there. -/
theorem move_extend_of_read (more : List Char) (move : Move scan next)
    (opening : ∀ {tail id length},
      Opening.read scan.pos (scan.groupCount + 1) tail = .ok ⟨id, length⟩ →
      next.unread = tail.drop length →
      Opening.read scan.pos (scan.groupCount + 1) (tail ++ more) = .ok ⟨id, length⟩)
    (atom : ∀ {head tail atom length count}, scan.unread = head :: tail →
      Atom.read scan.pos head tail = .ok ⟨atom, length⟩ →
      next.unread = (tail.drop length).drop count →
      Atom.read scan.pos head (tail ++ more) = .ok ⟨atom, length⟩)
    (piece : ∀ {atom pos text piece length}, Piece.read atom pos text = .ok ⟨piece, length⟩ →
      next.unread = text.drop length →
      Piece.read atom pos (text ++ more) = .ok ⟨piece, length⟩) :
    Move (scan.extend more) (next.extend more) := by
  cases move with
  | openGroup unreadEq room opened =>
      have inside := Opening.length_le_of_read opened
      have longer := Move.openGroup (unread_extend unreadEq more) room (opening opened rfl)
      rwa [List.drop_append_of_le_length inside] at longer
  | openAlternative unreadEq room => exact .openAlternative (unread_extend unreadEq more) room
  | closeGroup unreadEq enclosingEq pieceRead =>
      have inside := Piece.length_le_of_read pieceRead
      have longer := Move.closeGroup (unread_extend unreadEq more) enclosingEq
        (piece pieceRead rfl)
      rwa [List.drop_append_of_le_length inside] at longer
  | takeAtom unreadEq notOpening notBar notClosing atomRead pieceRead =>
      have atomInside := Atom.length_le_of_read atomRead
      have pieceInside := Piece.length_le_of_read pieceRead
      have longerPiece := piece pieceRead rfl
      rw [← List.drop_append_of_le_length atomInside] at longerPiece
      have longer := Move.takeAtom (unread_extend unreadEq more) notOpening notBar notClosing
        (atom unreadEq atomRead rfl) longerPiece
      rwa [List.drop_append_of_le_length atomInside, List.drop_append_of_le_length pieceInside]
        at longer

/-- A move is made before a longer text too, unless it comes to an inert rest. -/
theorem move_extend (settled : IsSettled scan.unread) (move : Move scan next)
    (active : ¬IsInert next.unread) (more : List Char) :
    Move (scan.extend more) (next.extend more) := by
  apply move_extend_of_read more move
  · intro tail id length opened rest
    exact Opening.read_append opened (rest ▸ active) more
  · intro head tail atom length count unreadEq atomRead rest
    have atomActive : ¬IsInert (tail.drop length) := fun inert => active (rest ▸ inert.drop count)
    exact Atom.read_append (unreadEq ▸ settled) atomRead atomActive more
  · intro atom pos text piece length pieceRead rest
    exact Piece.read_append pieceRead (rest ▸ active) more

/-- A refusal that does not blame the end of the text stands in a longer one. -/
theorem refused_extend (settled : IsSettled scan.unread) {error : ParseError}
    (refused : Refused scan error) (definite : error.fault.isOpenEnded = false)
    (more : List Char) : Refused (scan.extend more) error := by
  cases refused with
  | groupTooDeep unreadEq full => exact .groupTooDeep (unread_extend unreadEq more) full
  | opening unreadEq room failed =>
      exact .opening (unread_extend unreadEq more) room
        (Opening.read_append_of_error failed definite more)
  | alternativeTooDeep unreadEq full =>
      exact .alternativeTooDeep (unread_extend unreadEq more) full
  | unmatched unreadEq enclosingEq => exact .unmatched (unread_extend unreadEq more) enclosingEq
  | atom unreadEq notOpening notBar notClosing failed =>
      exact .atom (unread_extend unreadEq more) notOpening notBar notClosing
        (Atom.read_append_of_error (unreadEq ▸ settled) failed definite more)
  | groupQuantifier unreadEq enclosingEq failed =>
      exact .groupQuantifier (unread_extend unreadEq more) enclosingEq
        (Piece.read_append_of_error failed more)
  | atomQuantifier unreadEq notOpening notBar notClosing atomRead failed =>
      have inside := Atom.length_le_of_read atomRead
      have active := Piece.active_of_read_error failed
      have longerFailed := Piece.read_append_of_error failed more
      rw [← List.drop_append_of_le_length inside] at longerFailed
      exact .atomQuantifier (unread_extend unreadEq more) notOpening notBar notClosing
        (Atom.read_append (unreadEq ▸ settled) atomRead active more) longerFailed

/-- No step on an inert text is refused. -/
theorem not_refused_of_isInert (inert : IsInert scan.unread) (error : ParseError) :
    ¬Refused scan error := by
  have not_head {head : Char} {tail : List Char} (unreadEq : scan.unread = head :: tail)
      (notInert : ¬(head.isDigit = true ∨ head ∈ ['\x7b', ',', '-'])) : False :=
    notInert (inert head (by simp [unreadEq]))
  intro refused
  cases refused with
  | groupTooDeep unreadEq => exact not_head unreadEq (by decide)
  | opening unreadEq => exact not_head unreadEq (by decide)
  | alternativeTooDeep unreadEq => exact not_head unreadEq (by decide)
  | unmatched unreadEq => exact not_head unreadEq (by decide)
  | groupQuantifier unreadEq => exact not_head unreadEq (by decide)
  | atom unreadEq _ _ _ failed =>
      rw [unreadEq] at inert
      rw [Atom.read_of_isInert inert] at failed
      cases failed
  | atomQuantifier unreadEq _ _ _ _ failed =>
      rw [unreadEq] at inert
      exact Piece.active_of_read_error failed ((inert.drop 1).drop _)

/-- How a scan that has gone on from `start` stands to the one in a longer text:
either that one is at the same place, or the text is about to end. -/
structure Follows (start : Scan) (more : List Char) (scan : Scan) : Prop where
  settled : IsSettled scan.unread
  run_eq : IsInert scan.unread ∨ (start.extend more).run = (scan.extend more).run

theorem follows_of_move {start : Scan} {more : List Char} (follows : Follows start more scan)
    (move : Move scan next) : Follows start more next where
  settled := follows.settled.of_suffix (unread_suffix_of_move move)
  run_eq := by
    by_cases inert : IsInert next.unread
    · exact .inl inert
    · right
      cases follows.run_eq with
      | inl inertBefore =>
          obtain ⟨count, advanced⟩ := advanced_of_move move
          rw [advanced.unread_eq] at inert
          exact absurd (inertBefore.drop (count + 1)) inert
      | inr same => rw [same, run_of_move (move_extend follows.settled move inert more)]

/-- A scan that is refused for another cause than the end of its text is refused in
the same way in a longer one. -/
theorem run_extend_of_error (settled : IsSettled scan.unread) {error : ParseError}
    (failed : scan.run = .error error) (definite : error.fault.isOpenEnded = false)
    (more : List Char) : (scan.extend more).run = .error error := by
  have start : Follows scan more scan := ⟨settled, .inr rfl⟩
  obtain ⟨last, follows, refused⟩ := invariant_of_run_error follows_of_move start failed
  cases follows.run_eq with
  | inl inert => exact absurd refused (not_refused_of_isInert inert error)
  | inr same =>
      rw [same]
      exact run_of_refused (refused_extend follows.settled refused definite more)

end Scan

namespace Pattern

/-- A settled text that is refused, and not for ending too soon, is refused for the
same cause at the same position whatever comes after it. -/
theorem parse_append_of_refused {options : LimitOptions} {text : String} {error : ParseError}
    (settled : IsSettled text.toList) (refused : parse options text = .error error)
    (definite : error.fault.isOpenEnded = false) (more : String) :
    parse options (text ++ more) = .error error := by
  rw [parse_eq_error_iff, String.toList_append]
  left
  cases parse_eq_error_iff.mp refused with
  | inl failed => exact Scan.run_extend_of_error settled failed definite more.toList
  | inr unclosed =>
      obtain ⟨_, _, _, _, _, rfl⟩ := unclosed
      cases definite

/-- The bounds of the last quantifier stand in the wrong order.  Neither the group
that is left open nor the anchor at the end has a part in that, although both come
to mean something else in the longer text. -/
theorem parse_append_of_refused_inverted :
    let text := "^(\\x4[a\\]]\x7b2\x7d?b\x7b03,2\x7d$"
    let error : ParseError := ⟨15, .invertedRange 3 2⟩
    IsSettled text.toList ∧ parse {} text = .error error ∧ error.fault.isOpenEnded = false ∧
      parse {} (text ++ "|c)\\") = .error error := by
  intro text error
  have settled : IsSettled text.toList := by
    decide +kernel
  have refused : parse {} text = .error error := by
    decide +kernel
  exact ⟨settled, refused, rfl, parse_append_of_refused settled refused rfl "|c)\\"⟩

end Pattern

end PatternTree
