import PatternTree.Proofs.Opening
import PatternTree.Proofs.Outline
import PatternTree.Proofs.Quantifier.Marks
import PatternTree.Proofs.Scan.Depth
import PatternTree.Proofs.Scan.Move
import PatternTree.Proofs.Unadorned

/-!
# Reading follows the outline

An unadorned text is read just if its outline finds nothing wrong with it, and
is refused for just what its outline finds first: `Pattern.parse_follows_outline`.

The scan and the outline go through the text side by side.  What a scan has open
is a list of marks, `Scan.marks`, and a move of the scan takes one character
that the outline looks at, and after it only characters that the outline passes
over.
-/

namespace PatternTree

open Outline

/-! ## The marks of a scan -/

/-- One mark for each alternative that a bar has begun. -/
def Draft.marks (draft : Draft) : List Mark :=
  List.replicate draft.alternatives.length .alternative

@[simp] theorem Draft.marks_push (draft : Draft) (piece : Piece) :
    (draft.push piece).marks = draft.marks := by
  unfold push
  split
  · rfl
  · rfl

namespace Scan

/-- The marks of open groups and of the alternatives around them. -/
def outerMarks : List OpenGroup → List Mark
  | [] => []
  | group :: rest => .group group.start :: (group.outer.marks ++ outerMarks rest)

/-- All that a scan has open, the latest first. -/
def marks (scan : Scan) : List Mark :=
  scan.draft.marks ++ outerMarks scan.enclosing

theorem length_outerMarks (enclosing : List OpenGroup) :
    (outerMarks enclosing).length = outerDepth enclosing := by
  induction enclosing with
  | nil => rfl
  | cons group rest ih =>
      simp only [outerMarks, outerDepth, List.length_cons, List.length_append, ih, Draft.marks,
        List.length_replicate]
      omega

theorem length_marks (scan : Scan) : scan.marks.length = scan.depth := by
  rw [depth_eq_add, marks, List.length_append, length_outerMarks, Draft.marks,
    List.length_replicate]

theorem innermost?_marks (scan : Scan) :
    innermost? scan.marks = scan.enclosing.head?.map OpenGroup.start := by
  rw [marks, Draft.marks, innermost?_alternatives]
  cases scan.enclosing with
  | nil => rfl
  | cons group rest => rfl

theorem close_marks {scan : Scan} {group : OpenGroup} {enclosing : List OpenGroup}
    (enclosingEq : scan.enclosing = group :: enclosing) :
    close scan.marks = group.outer.marks ++ outerMarks enclosing := by
  rw [marks, Draft.marks, close_alternatives, enclosingEq]
  rfl

end Scan

/-! ## What the outline sees of the readers -/

/-- An atom that holds no sequence is refused just where the outline finds an
obstacle, and takes one character. -/
theorem Atom.read_eq_obstacle? {head : Char} (ordinary : head ∉ ['\\', '[', '\x7b'])
    (notOpening : head ≠ '(') (notBar : head ≠ '|') (notClosing : head ≠ ')')
    (marks : List Mark) (pos : Nat) (tail : List Char) :
    (∃ error, obstacle? marks pos head tail = some error ∧
        Atom.read pos head tail = .error error) ∨
      obstacle? marks pos head tail = none ∧
        ∃ atom, Atom.read pos head tail = .ok ⟨atom, 0⟩ := by
  rw [Atom.read_of_unadorned ordinary]
  unfold obstacle?
  split
  case h_1 | h_2 =>
    cases pos with
    | zero => exact .inr ⟨rfl, _, rfl⟩
    | succ pos => exact .inl ⟨_, rfl, rfl⟩
  case h_3 | h_4 | h_5 =>
    cases tail with
    | nil => exact .inr ⟨rfl, _, rfl⟩
    | cons => exact .inl ⟨_, rfl, rfl⟩
  case h_6 => exact absurd rfl notOpening
  case h_7 => exact absurd rfl notBar
  case h_8 => exact absurd rfl notClosing
  case h_9 =>
    have noAnchor : Anchor.ofChar? head = none := by
      simp [Anchor.ofChar?]
    rw [noAnchor]
    exact .inr ⟨rfl, _, rfl⟩

theorem Opening.modifier?_of_read {start number : Nat} {tail : List Char} {id : Option String}
    {length : Nat} (unnamed : ∀ rest, tail ≠ '?' :: '<' :: rest)
    (opened : Opening.read start number tail = .ok ⟨id, length⟩) :
    modifier? (start + 1) tail = none ∧ ∀ c ∈ tail.take length, isMarked c = false := by
  cases Opening.form_of_read opened with
  | unnamed => simp [modifier?, isMarked]
  | named => exact absurd rfl (unnamed _)
  | numbered noMark =>
      cases tail with
      | nil => simp [modifier?]
      | cons head rest =>
          have notMark : head ≠ '?' := by simpa using noMark
          simp [modifier?, notMark]

/-- A parenthesis is refused for a modifier that the outline finds too, or for
being the last but one character of the text. -/
theorem Opening.modifier?_of_error {start number : Nat} {tail : List Char} {error : ParseError}
    (unnamed : ∀ rest, tail ≠ '?' :: '<' :: rest)
    (failed : Opening.read start number tail = .error error) :
    modifier? (start + 1) tail = some error ∨
      tail = ['?'] ∧ error = ⟨start, .unclosedGroup⟩ := by
  simp only [Opening.read] at failed
  split at failed
  · cases failed
  · cases failed
    exact .inl rfl
  · cases failed
    exact .inl rfl
  · exact absurd rfl (unnamed _)
  · exact absurd rfl (unnamed _)
  · exact absurd rfl (unnamed _)
  · cases failed
    left
    simp [modifier?]
  · cases failed
    exact .inr ⟨rfl, rfl⟩
  · cases failed

/-- The outline passes over the quantifier of a piece. -/
theorem Piece.sweep?_of_read {text : List Char} (unadorned : IsUnadorned text) {atom : Atom}
    {piece : Piece} {readPos length : Nat}
    (pieceRead : Piece.read atom readPos text = .ok ⟨piece, length⟩)
    (marks : List Mark) (pos : Nat) :
    sweep? marks pos text = sweep? marks (pos + length) (text.drop length) := by
  apply sweep?_drop_of_unmarked (Piece.length_le_of_read pieceRead)
  obtain ⟨_, _, found, taken⟩ := Piece.exists_read_of_unbraced unadorned.unbraced atom readPos
  rw [pieceRead] at found
  cases found
  intro c member
  have isMark := taken c member
  simp only [List.mem_cons, List.not_mem_nil, or_false] at isMark
  rcases isMark with rfl | rfl | rfl <;> rfl

/-! ## Scan and outline side by side -/

namespace Scan

variable {scan next : Scan} {head : Char} {tail : List Char}

theorem sweep?_of_unread_cons (unreadEq : scan.unread = head :: tail) :
    sweep? scan.marks scan.pos scan.unread =
      (obstacle? scan.marks scan.pos head tail).or
        (sweep? (track scan.marks scan.pos head) (scan.pos + 1) tail) := by
  rw [unreadEq, sweep?]

theorem unnamed_of_unread_cons (unadorned : IsUnadorned scan.unread)
    (unreadEq : scan.unread = '(' :: tail) (rest : List Char) : tail ≠ '?' :: '<' :: rest := by
  rintro rfl
  exact @IsUnadorned.not_named _ unadorned [] rest unreadEq

/-- A move takes a character in which the outline sees no obstacle, and after it
only characters that the outline passes over. -/
theorem sweep?_of_move (unadorned : IsUnadorned scan.unread) (move : Move scan next) :
    sweep? scan.marks scan.pos scan.unread = sweep? next.marks next.pos next.unread := by
  cases move with
  | @openGroup tail id length unreadEq room opened =>
      obtain ⟨noModifier, unmarked⟩ :=
        Opening.modifier?_of_read (unnamed_of_unread_cons unadorned unreadEq) opened
      have noObstacle : obstacle? scan.marks scan.pos '(' tail = none := by
        rw [← length_marks, nestingLimit_eq] at room
        simp [obstacle?, noModifier, room]
      have inside := Opening.length_le_of_read opened
      rw [sweep?_of_unread_cons unreadEq, noObstacle, Option.none_or, track,
        sweep?_drop_of_unmarked inside unmarked, Nat.add_assoc, Nat.add_comm 1]
      rfl
  | @openAlternative tail unreadEq room =>
      have noObstacle : obstacle? scan.marks scan.pos '|' tail = none := by
        rw [← length_marks, nestingLimit_eq] at room
        simp [obstacle?, room]
      rw [sweep?_of_unread_cons unreadEq, noObstacle]
      rfl
  | @closeGroup tail group enclosing piece length unreadEq enclosingEq pieceRead =>
      have noObstacle : obstacle? scan.marks scan.pos ')' tail = none := by
        simp [obstacle?, innermost?_marks, enclosingEq]
      rw [unreadEq] at unadorned
      rw [sweep?_of_unread_cons unreadEq, noObstacle, Option.none_or, track,
        close_marks enclosingEq, Piece.sweep?_of_read unadorned.of_cons pieceRead]
      simp [marks]
  | @takeAtom head tail atom length piece more unreadEq notOpening notBar notClosing
      atomRead pieceRead =>
      rw [unreadEq] at unadorned
      have ordinary := unadorned.ordinary head List.mem_cons_self
      cases Atom.read_eq_obstacle? ordinary notOpening notBar notClosing scan.marks scan.pos
          tail with
      | inl refused =>
          obtain ⟨error, _, failed⟩ := refused
          rw [failed] at atomRead
          cases atomRead
      | inr found =>
          obtain ⟨noObstacle, _, read⟩ := found
          rw [read] at atomRead
          cases atomRead
          have marksEq : track scan.marks scan.pos head = scan.marks := by
            simp [track]
          rw [List.drop_zero] at pieceRead
          rw [sweep?_of_unread_cons unreadEq, noObstacle, Option.none_or, marksEq,
            Piece.sweep?_of_read unadorned.of_cons pieceRead]
          simp [marks]

theorem unadorned_of_move (unadorned : IsUnadorned scan.unread) (move : Move scan next) :
    IsUnadorned next.unread := by
  obtain ⟨count, advanced⟩ := advanced_of_move move
  rw [advanced.unread_eq]
  exact unadorned.drop (count + 1)

/-- What the outline says of the text that a scan has not read. -/
structure Foresees (scan : Scan) (outcome : Option ParseError) : Prop where
  unadorned : IsUnadorned scan.unread
  sweep_eq : sweep? scan.marks scan.pos scan.unread = outcome

/-- The outline says the same all along a scan. -/
theorem foresees_of_move {outcome : Option ParseError} (foresees : scan.Foresees outcome)
    (move : Move scan next) : next.Foresees outcome where
  unadorned := unadorned_of_move foresees.unadorned move
  sweep_eq := by
    rw [← sweep?_of_move foresees.unadorned move]
    exact foresees.sweep_eq

/-- A step that is refused is refused for what the outline finds first. -/
theorem sweep?_of_refused (unadorned : IsUnadorned scan.unread) {error : ParseError}
    (refused : Refused scan error) :
    sweep? scan.marks scan.pos scan.unread = some error := by
  cases refused with
  | groupTooDeep unreadEq full =>
      rw [← length_marks, nestingLimit_eq] at full
      simp [sweep?_of_unread_cons unreadEq, obstacle?, full]
  | opening unreadEq room failed =>
      have notFull := Nat.not_le_of_lt room
      rw [← length_marks, nestingLimit_eq] at notFull
      rw [sweep?_of_unread_cons unreadEq]
      cases Opening.modifier?_of_error (unnamed_of_unread_cons unadorned unreadEq) failed with
      | inl modified => simp [obstacle?, notFull, modified]
      | inr alone =>
          -- The outline finds no modifier, and then the group is the last one open.
          obtain ⟨rfl, rfl⟩ := alone
          simp [obstacle?, notFull, modifier?, track, sweep?, unclosed?]
  | alternativeTooDeep unreadEq full =>
      rw [← length_marks, nestingLimit_eq] at full
      simp [sweep?_of_unread_cons unreadEq, obstacle?, full]
  | unmatched unreadEq enclosingEq =>
      simp [sweep?_of_unread_cons unreadEq, obstacle?, innermost?_marks, enclosingEq]
  | @atom head tail _ unreadEq notOpening notBar notClosing failed =>
      have ordinary := unadorned.ordinary head (by simp [unreadEq])
      rw [sweep?_of_unread_cons unreadEq]
      cases Atom.read_eq_obstacle? ordinary notOpening notBar notClosing scan.marks scan.pos
          tail with
      | inl found =>
          obtain ⟨found, obstacleEq, atomRead⟩ := found
          rw [failed] at atomRead
          cases atomRead
          rw [obstacleEq, Option.some_or]
      | inr found =>
          obtain ⟨_, _, atomRead⟩ := found
          rw [failed] at atomRead
          cases atomRead
  | groupQuantifier unreadEq _ failed =>
      rw [unreadEq] at unadorned
      have unbraced := unadorned.of_cons.unbraced
      exact absurd failed (Piece.read_ne_error_of_unbraced unbraced _ _ _)
  | @atomQuantifier _ _ _ length _ unreadEq _ _ _ _ failed =>
      rw [unreadEq] at unadorned
      have unbraced := (unadorned.of_cons.drop length).unbraced
      exact absurd failed (Piece.read_ne_error_of_unbraced unbraced _ _ _)

/-- The refusal that a scan comes to, if it comes to one. -/
def refusal? (scan : Scan) : Option ParseError :=
  match scan.run.bind finish with
  | .error error => some error
  | .ok _ => none

theorem refusal?_eq_sweep? (unadorned : IsUnadorned scan.unread) :
    scan.refusal? = sweep? scan.marks scan.pos scan.unread := by
  have start : scan.Foresees (sweep? scan.marks scan.pos scan.unread) := ⟨unadorned, rfl⟩
  obtain ⟨last, ⟨lastUnadorned, sweepEq⟩, outcome⟩ := invariant_of_outcome foresees_of_move start
  rw [← sweepEq]
  rcases outcome with ⟨unreadEq, ran⟩ | ⟨error, refused, failed⟩
  · rw [refusal?, ran, unreadEq, sweep?, unclosed?, innermost?_marks]
    simp only [Except.bind, finish]
    cases last.enclosing with
    | nil => rfl
    | cons group rest => rfl
  · rw [sweep?_of_refused lastUnadorned refused, refusal?, failed]
    rfl

end Scan

namespace Pattern

/-- A text is refused just if its scan is, and otherwise is read. -/
theorem refused_or_parsed (options : LimitOptions) (text : String) :
    (∃ error, Scan.refusal? { unread := text.toList } = some error ∧
        parse options text = .error error) ∨
      Scan.refusal? { unread := text.toList } = none ∧
        ∃ pattern, parse options text = .ok pattern := by
  unfold Scan.refusal? parse
  cases Scan.run { unread := text.toList } with
  | error error => exact .inl ⟨error, rfl, rfl⟩
  | ok last =>
      simp only [Except.bind]
      cases last.finish with
      | error error => exact .inl ⟨error, rfl, rfl⟩
      | ok pieces => exact .inr ⟨rfl, _, rfl⟩

/-- An unadorned text is refused just for what its outline finds first, and is
read just if that is nothing. -/
theorem parse_follows_outline {text : String} (unadorned : IsUnadorned text.toList)
    (options : LimitOptions) :
    (∀ error, parse options text = .error error ↔
        Outline.refusal? text.toList = some error) ∧
      ((∃ pattern, parse options text = .ok pattern) ↔
        Outline.refusal? text.toList = none) := by
  have refusalEq : Outline.refusal? text.toList = Scan.refusal? { unread := text.toList } := by
    rw [Scan.refusal?_eq_sweep? unadorned, Outline.refusal?_eq_sweep?]
    rfl
  rw [refusalEq]
  cases refused_or_parsed options text with
  | inl refused =>
      obtain ⟨error, refusal, parsed⟩ := refused
      rw [refusal, parsed]
      simp
  | inr read =>
      obtain ⟨noRefusal, pattern, parsed⟩ := read
      rw [noRefusal, parsed]
      simp

/-- Of the two groups that are left open the last is to blame, although a later
one has been opened and closed. -/
theorem parse_follows_outline_unclosed :
    IsUnadorned "^(a(b|c)+(d|(?:e)?".toList ∧
      Outline.refusal? "^(a(b|c)+(d|(?:e)?".toList = some ⟨9, .unclosedGroup⟩ ∧
      parse {} "^(a(b|c)+(d|(?:e)?" = .error ⟨9, .unclosedGroup⟩ := by
  have unadorned : IsUnadorned "^(a(b|c)+(d|(?:e)?".toList := by
    decide +kernel
  have refused : Outline.refusal? "^(a(b|c)+(d|(?:e)?".toList = some ⟨9, .unclosedGroup⟩ := by
    decide +kernel
  exact ⟨unadorned, refused, ((parse_follows_outline unadorned {}).1 _).mpr refused⟩

end Pattern

end PatternTree
