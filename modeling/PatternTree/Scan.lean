import PatternTree.Opening
import PatternTree.Tree.Reader

/-!
# Scanning a pattern

A pattern is scanned once, from left to right.  The state of a scan shows all
that is unfinished: the sequence being drafted and, for each parenthesis that
waits for its partner, the draft that goes on after it.  Alternatives are kept
side by side while they are read, and become choices only when the sequence
around them ends.

One step takes one construct from the unread text.  `length_unread_lt` says that
every step leaves less of it, so a scan of any text comes to an end.
-/

namespace PatternTree

/-- How many groups and alternatives may be open at once. -/
def nestingLimit : Nat := 128

theorem nestingLimit_eq : nestingLimit = 128 := rfl

/-- A sequence that is still being read: the alternatives that a bar has ended,
and the pieces after the last bar, each with the latest first. -/
structure Draft where
  alternatives : List Sequence := []
  pieces : List Piece := []
  deriving DecidableEq

namespace Draft

/-- Add a piece at the end.  A bare boundary takes no text and leaves no piece. -/
def push (draft : Draft) : Piece → Draft
  | ⟨.once, .boundary⟩ => draft
  | piece => { draft with pieces := piece :: draft.pieces }

/-- End the present alternative with a bar. -/
def split (draft : Draft) : Draft where
  alternatives := draft.pieces.reverse :: draft.alternatives

/-- The sequence that the draft stands for when nothing more follows.  Each
alternative is a choice between itself and all that come after it. -/
def finish (draft : Draft) : Sequence :=
  draft.alternatives.foldl (fun right left => [⟨.once, .either left right⟩])
    draft.pieces.reverse

end Draft

/-- A group whose closing parenthesis has not been reached. -/
structure OpenGroup where
  /-- The position of the opening parenthesis. -/
  start : Nat
  id : Option String
  /-- The draft that the group will belong to. -/
  outer : Draft
  deriving DecidableEq

/-- A pattern in the course of being read. -/
structure Scan where
  /-- How many characters have been read. -/
  pos : Nat := 0
  unread : List Char
  /-- How many groups have been opened, closed or not. -/
  groupCount : Nat := 0
  draft : Draft := {}
  /-- The open groups, innermost first. -/
  enclosing : List OpenGroup := []
  deriving DecidableEq

namespace Scan

/-- How many groups and alternatives are open. -/
def depth (scan : Scan) : Nat :=
  scan.enclosing.foldl (fun count group => count + group.outer.alternatives.length + 1)
    scan.draft.alternatives.length

/-- Move past the next `count` characters. -/
def advance (scan : Scan) (count : Nat) : Scan :=
  { scan with pos := scan.pos + count, unread := scan.unread.drop count }

/-- Take the quantifier that follows `atom` and add the piece to the draft. -/
def attach (scan : Scan) (atom : Atom) : Except ParseError Scan :=
  match Piece.read atom scan.pos scan.unread with
  | .error error => .error error
  | .ok ⟨piece, length⟩ => .ok { scan.advance length with draft := scan.draft.push piece }

/-- Take an opening parenthesis and what it says of its group. -/
def openGroup (scan : Scan) (tail : List Char) : Except ParseError Scan :=
  if nestingLimit ≤ scan.depth then .error ⟨scan.pos, .tooDeep⟩
  else
    match Opening.read scan.pos (scan.groupCount + 1) tail with
    | .error error => .error error
    | .ok ⟨id, length⟩ =>
        .ok { scan.advance (length + 1) with
          groupCount := scan.groupCount + 1
          draft := {}
          enclosing := ⟨scan.pos, id, scan.draft⟩ :: scan.enclosing }

/-- Take a bar. -/
def openAlternative (scan : Scan) : Except ParseError Scan :=
  if nestingLimit ≤ scan.depth then .error ⟨scan.pos, .tooDeep⟩
  else .ok { scan.advance 1 with draft := scan.draft.split }

/-- Take a closing parenthesis and the quantifier of the group that it closes. -/
def closeGroup (scan : Scan) : Except ParseError Scan :=
  match scan.enclosing with
  | [] => .error ⟨scan.pos, .unmatchedParenthesis⟩
  | group :: enclosing =>
      { scan.advance 1 with draft := group.outer, enclosing }.attach
        (.group group.id scan.draft.finish)

/-- Take an atom that holds no sequence, and its quantifier. -/
def takeAtom (scan : Scan) (head : Char) (tail : List Char) : Except ParseError Scan :=
  match Atom.read scan.pos head tail with
  | .error error => .error error
  | .ok ⟨atom, length⟩ => (scan.advance (length + 1)).attach atom

/-- Take the construct at the front of the unread text `head :: tail`. -/
def step (scan : Scan) (head : Char) (tail : List Char) : Except ParseError Scan :=
  match head with
  | '(' => scan.openGroup tail
  | '|' => scan.openAlternative
  | ')' => scan.closeGroup
  | _ => scan.takeAtom head tail

/-! ## Progress -/

/-- What became of the text of a scan: `next` has read `count` characters more,
all of them there to be read. -/
structure Advanced (scan next : Scan) (count : Nat) : Prop where
  pos_eq : next.pos = scan.pos + count
  unread_eq : next.unread = scan.unread.drop count
  count_le : count ≤ scan.unread.length

theorem Advanced.trans {first second third : Scan} {before after : Nat}
    (earlier : Advanced first second before) (later : Advanced second third after) :
    Advanced first third (before + after) where
  pos_eq := by rw [later.pos_eq, earlier.pos_eq, Nat.add_assoc]
  unread_eq := by rw [later.unread_eq, earlier.unread_eq, List.drop_drop]
  count_le := by
    have earlierLe := earlier.count_le
    have laterLe := later.count_le
    rw [earlier.unread_eq, List.length_drop] at laterLe
    omega

theorem advanced_of_attach {scan next : Scan} {atom : Atom}
    (attached : scan.attach atom = .ok next) : ∃ count, Advanced scan next count := by
  simp only [attach] at attached
  split at attached
  · cases attached
  · next piece length read =>
      cases attached
      exact ⟨length, rfl, rfl, Piece.length_le_of_read read⟩

/-- A step takes the character that it looks at, and perhaps more. -/
theorem advanced_of_step {scan next : Scan} {head : Char} {tail : List Char}
    (unreadEq : scan.unread = head :: tail) (stepped : scan.step head tail = .ok next) :
    ∃ count, Advanced scan next (count + 1) := by
  have lengthEq : scan.unread.length = tail.length + 1 := by rw [unreadEq, List.length_cons]
  -- An atom that has just been completed still takes its quantifier.
  have attach_after {moved : Scan} {atom : Atom} {count : Nat}
      (advanced : Advanced scan moved (count + 1)) (attached : moved.attach atom = .ok next) :
      ∃ count, Advanced scan next (count + 1) := by
    obtain ⟨more, attachedAdvanced⟩ := advanced_of_attach attached
    refine ⟨count + more, ?_⟩
    rw [Nat.add_right_comm]
    exact advanced.trans attachedAdvanced
  simp only [step] at stepped
  split at stepped
  · simp only [openGroup] at stepped
    split at stepped
    · cases stepped
    · split at stepped
      · cases stepped
      · next id length opened =>
          cases stepped
          have inside := Opening.length_le_of_read opened
          exact ⟨length, rfl, rfl, lengthEq ▸ Nat.succ_le_succ inside⟩
  · simp only [openAlternative] at stepped
    split at stepped
    · cases stepped
    · cases stepped
      exact ⟨0, rfl, rfl, lengthEq ▸ Nat.succ_le_succ (Nat.zero_le _)⟩
  · simp only [closeGroup] at stepped
    split at stepped
    · cases stepped
    · exact attach_after ⟨rfl, rfl, lengthEq ▸ Nat.succ_le_succ (Nat.zero_le _)⟩ stepped
  · simp only [takeAtom] at stepped
    split at stepped
    · cases stepped
    · next atom length read =>
        have inside := Atom.length_le_of_read read
        exact attach_after ⟨rfl, rfl, lengthEq ▸ Nat.succ_le_succ inside⟩ stepped

theorem length_unread_lt {scan next : Scan} {head : Char} {tail : List Char}
    (unreadEq : scan.unread = head :: tail) (stepped : scan.step head tail = .ok next) :
    next.unread.length < scan.unread.length := by
  obtain ⟨count, advanced⟩ := advanced_of_step unreadEq stepped
  have countLe := advanced.count_le
  rw [advanced.unread_eq, List.length_drop]
  omega

/-- Scan until no text is left.  It stays open to evaluation, so that the reading
of a given text can be computed in a proof. -/
@[semireducible] def run (scan : Scan) : Except ParseError Scan :=
  match _ : scan.unread with
  | [] => .ok scan
  | head :: tail =>
      match _ : scan.step head tail with
      | .error error => .error error
      | .ok next => next.run
termination_by scan.unread.length
decreasing_by exact length_unread_lt ‹_› ‹_›

theorem run_of_unread_nil {scan : Scan} (unreadEq : scan.unread = []) : scan.run = .ok scan := by
  rw [run]
  split
  · rfl
  · next head tail consEq => simp [unreadEq] at consEq

theorem run_of_unread_cons {scan : Scan} {head : Char} {tail : List Char}
    (unreadEq : scan.unread = head :: tail) :
    scan.run = (scan.step head tail).bind run := by
  rw [run]
  split
  · next nilEq => simp [unreadEq] at nilEq
  · next front rest consEq =>
      rw [unreadEq] at consEq
      cases consEq
      split <;> next stepped => rw [stepped]; rfl

/-- The tree of a text that has been read to its end.  A group that is still
open then has no partner. -/
def finish (scan : Scan) : Except ParseError Sequence :=
  match scan.enclosing with
  | [] => .ok scan.draft.finish
  | group :: _ => .error ⟨group.start, .unclosedGroup⟩

end Scan

end PatternTree
