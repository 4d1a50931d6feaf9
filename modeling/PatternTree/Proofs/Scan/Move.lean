import Mathlib.Logic.Relation
import PatternTree.Pattern

/-!
# What a scan can do

A step that succeeds does one of four things, and `Scan.Move` lists them with
all that each of them has checked.  `Scan.Refused` lists the ways in which a step
is refused.  Every fact about whole runs is then a fact about these: what the
moves keep holds where a run ends, as `invariant_of_outcome` says, whether that is
the end of the text or a refusal.
-/

namespace PatternTree

namespace Scan

/-- The moves of a scan, each with the tests that let it happen. -/
inductive Move (scan : Scan) : Scan → Prop where
  /-- A group opens, and a new draft is begun for its body. -/
  | openGroup {tail : List Char} {id : Option String} {length : Nat}
      (unreadEq : scan.unread = '(' :: tail)
      (room : scan.depth < nestingLimit)
      (opened : Opening.read scan.pos (scan.groupCount + 1) tail = .ok ⟨id, length⟩) :
      Move scan {
        pos := scan.pos + (length + 1)
        unread := tail.drop length
        groupCount := scan.groupCount + 1
        draft := {}
        enclosing := ⟨scan.pos, id, scan.draft⟩ :: scan.enclosing }
  /-- A bar ends an alternative. -/
  | openAlternative {tail : List Char}
      (unreadEq : scan.unread = '|' :: tail)
      (room : scan.depth < nestingLimit) :
      Move scan { scan with pos := scan.pos + 1, unread := tail, draft := scan.draft.split }
  /-- The innermost group closes and becomes a piece of the draft around it. -/
  | closeGroup {tail : List Char} {group : OpenGroup} {enclosing : List OpenGroup}
      {piece : Piece} {length : Nat}
      (unreadEq : scan.unread = ')' :: tail)
      (enclosingEq : scan.enclosing = group :: enclosing)
      (pieceRead : Piece.read (.group group.id scan.draft.finish) (scan.pos + 1) tail =
        .ok ⟨piece, length⟩) :
      Move scan { scan with
        pos := scan.pos + 1 + length
        unread := tail.drop length
        draft := group.outer.push piece
        enclosing }
  /-- An atom that holds no sequence becomes a piece. -/
  | takeAtom {head : Char} {tail : List Char} {atom : Atom} {length : Nat}
      {piece : Piece} {more : Nat}
      (unreadEq : scan.unread = head :: tail)
      (notOpening : head ≠ '(') (notBar : head ≠ '|') (notClosing : head ≠ ')')
      (atomRead : Atom.read scan.pos head tail = .ok ⟨atom, length⟩)
      (pieceRead : Piece.read atom (scan.pos + (length + 1)) (tail.drop length) =
        .ok ⟨piece, more⟩) :
      Move scan { scan with
        pos := scan.pos + (length + 1) + more
        unread := (tail.drop length).drop more
        draft := scan.draft.push piece }

/-- Every step that succeeds is a move. -/
theorem move_of_step {scan next : Scan} {head : Char} {tail : List Char}
    (unreadEq : scan.unread = head :: tail) (stepped : scan.step head tail = .ok next) :
    Move scan next := by
  cases scan with
  | mk pos unread groupCount draft enclosing =>
      cases unreadEq
      simp only [step] at stepped
      split at stepped
      · simp only [openGroup] at stepped
        split at stepped
        · cases stepped
        · next room =>
            split at stepped
            · cases stepped
            · next opened =>
                cases stepped
                exact .openGroup rfl (Nat.lt_of_not_le room) opened
      · simp only [openAlternative] at stepped
        split at stepped
        · cases stepped
        · next room =>
            cases stepped
            exact .openAlternative rfl (Nat.lt_of_not_le room)
      · simp only [closeGroup] at stepped
        split at stepped
        · cases stepped
        · simp only [attach] at stepped
          split at stepped
          · cases stepped
          · next pieceRead =>
              cases stepped
              exact .closeGroup rfl rfl pieceRead
      · next notOpening notBar notClosing =>
          simp only [takeAtom] at stepped
          split at stepped
          · cases stepped
          · next atomRead =>
              simp only [attach] at stepped
              split at stepped
              · cases stepped
              · next pieceRead =>
                  cases stepped
                  exact .takeAtom rfl notOpening notBar notClosing atomRead pieceRead

/-- The ways in which a step is refused, each with the test that fails. -/
inductive Refused (scan : Scan) : ParseError → Prop where
  | groupTooDeep {tail : List Char}
      (unreadEq : scan.unread = '(' :: tail)
      (full : nestingLimit ≤ scan.depth) :
      Refused scan ⟨scan.pos, .tooDeep⟩
  | opening {tail : List Char} {error : ParseError}
      (unreadEq : scan.unread = '(' :: tail)
      (room : scan.depth < nestingLimit)
      (failed : Opening.read scan.pos (scan.groupCount + 1) tail = .error error) :
      Refused scan error
  | alternativeTooDeep {tail : List Char}
      (unreadEq : scan.unread = '|' :: tail)
      (full : nestingLimit ≤ scan.depth) :
      Refused scan ⟨scan.pos, .tooDeep⟩
  | unmatched {tail : List Char}
      (unreadEq : scan.unread = ')' :: tail)
      (enclosingEq : scan.enclosing = []) :
      Refused scan ⟨scan.pos, .unmatchedParenthesis⟩
  | atom {head : Char} {tail : List Char} {error : ParseError}
      (unreadEq : scan.unread = head :: tail)
      (notOpening : head ≠ '(') (notBar : head ≠ '|') (notClosing : head ≠ ')')
      (failed : Atom.read scan.pos head tail = .error error) :
      Refused scan error
  /-- The quantifier of the group that closes is refused. -/
  | groupQuantifier {tail : List Char} {group : OpenGroup} {enclosing : List OpenGroup}
      {error : ParseError}
      (unreadEq : scan.unread = ')' :: tail)
      (enclosingEq : scan.enclosing = group :: enclosing)
      (failed : Piece.read (.group group.id scan.draft.finish) (scan.pos + 1) tail =
        .error error) :
      Refused scan error
  /-- The quantifier of an atom that holds no sequence is refused. -/
  | atomQuantifier {head : Char} {tail : List Char} {atom : Atom} {length : Nat}
      {error : ParseError}
      (unreadEq : scan.unread = head :: tail)
      (notOpening : head ≠ '(') (notBar : head ≠ '|') (notClosing : head ≠ ')')
      (atomRead : Atom.read scan.pos head tail = .ok ⟨atom, length⟩)
      (failed : Piece.read atom (scan.pos + (length + 1)) (tail.drop length) = .error error) :
      Refused scan error

/-- A piece is attached unless its quantifier is refused. -/
theorem read_of_attach_error {scan : Scan} {atom : Atom} {error : ParseError}
    (failed : scan.attach atom = .error error) :
    Piece.read atom scan.pos scan.unread = .error error := by
  simp only [attach] at failed
  split at failed
  · next pieceFailed =>
      cases failed
      exact pieceFailed
  · cases failed

/-- Every step that fails is refused in one of these ways. -/
theorem refused_of_step {scan : Scan} {head : Char} {tail : List Char} {error : ParseError}
    (unreadEq : scan.unread = head :: tail) (failed : scan.step head tail = .error error) :
    Refused scan error := by
  cases scan with
  | mk pos unread groupCount draft enclosing =>
      cases unreadEq
      simp only [step] at failed
      split at failed
      · simp only [openGroup] at failed
        split at failed
        · next full =>
            cases failed
            exact .groupTooDeep rfl full
        · next room =>
            split at failed
            · next openingFailed =>
                cases failed
                exact .opening rfl (Nat.lt_of_not_le room) openingFailed
            · cases failed
      · simp only [openAlternative] at failed
        split at failed
        · next full =>
            cases failed
            exact .alternativeTooDeep rfl full
        · cases failed
      · simp only [closeGroup] at failed
        split at failed
        · cases failed
          exact .unmatched rfl rfl
        · exact .groupQuantifier rfl rfl (read_of_attach_error failed)
      · next notOpening notBar notClosing =>
          simp only [takeAtom] at failed
          split at failed
          · next atomFailed =>
              cases failed
              exact .atom rfl notOpening notBar notClosing atomFailed
          · next atomRead =>
              exact .atomQuantifier rfl notOpening notBar notClosing atomRead
                (read_of_attach_error failed)

/-- Every move is the step that the next character asks for. -/
theorem step_of_move {scan next : Scan} (move : Move scan next) :
    ∃ head tail, scan.unread = head :: tail ∧ scan.step head tail = .ok next := by
  cases scan with
  | mk pos unread groupCount draft enclosing =>
      cases move with
      | @openGroup tail id length unreadEq room opened =>
          refine ⟨'(', tail, unreadEq, ?_⟩
          cases unreadEq
          simp only [step, openGroup, if_neg (Nat.not_le_of_lt room), opened, advance,
            List.drop_succ_cons]
      | @openAlternative tail unreadEq room =>
          refine ⟨'|', tail, unreadEq, ?_⟩
          cases unreadEq
          simp only [step, openAlternative, if_neg (Nat.not_le_of_lt room), advance,
            List.drop_succ_cons, List.drop_zero]
      | @closeGroup tail group enclosing piece length unreadEq enclosingEq pieceRead =>
          refine ⟨')', tail, unreadEq, ?_⟩
          cases unreadEq
          cases enclosingEq
          simp only [step, closeGroup, attach, advance, List.drop_succ_cons, List.drop_zero,
            pieceRead]
      | @takeAtom head tail atom length piece more unreadEq notOpening notBar notClosing
          atomRead pieceRead =>
          refine ⟨head, tail, unreadEq, ?_⟩
          cases unreadEq
          simp only [step, takeAtom, atomRead, attach, advance, List.drop_succ_cons, pieceRead]

/-- A run goes on from where a move leads. -/
theorem run_of_move {scan next : Scan} (move : Move scan next) : scan.run = next.run := by
  obtain ⟨head, tail, unreadEq, stepped⟩ := step_of_move move
  rw [run_of_unread_cons unreadEq, stepped]
  rfl

theorem length_unread_lt_of_move {scan next : Scan} (move : Move scan next) :
    next.unread.length < scan.unread.length := by
  obtain ⟨head, tail, unreadEq, stepped⟩ := step_of_move move
  exact length_unread_lt unreadEq stepped

/-- A move reads the next character, and perhaps more. -/
theorem advanced_of_move {scan next : Scan} (move : Move scan next) :
    ∃ count, Advanced scan next (count + 1) := by
  obtain ⟨head, tail, unreadEq, stepped⟩ := step_of_move move
  exact advanced_of_step unreadEq stepped

theorem pos_lt_of_move {scan next : Scan} (move : Move scan next) : scan.pos < next.pos := by
  obtain ⟨count, advanced⟩ := advanced_of_move move
  rw [advanced.pos_eq]
  omega

theorem unread_suffix_of_move {scan next : Scan} (move : Move scan next) :
    next.unread <:+ scan.unread := by
  obtain ⟨count, advanced⟩ := advanced_of_move move
  rw [advanced.unread_eq]
  exact List.drop_suffix (count + 1) scan.unread

/-! What a move does once, any number of moves do. -/

section

variable {scan next : Scan} (reached : Relation.ReflTransGen Move scan next)

include reached

theorem run_of_reached : scan.run = next.run := by
  induction reached with
  | refl => rfl
  | tail _ move ih => exact ih.trans (run_of_move move)

theorem pos_le_of_reached : scan.pos ≤ next.pos := by
  induction reached with
  | refl => exact Nat.le_refl _
  | tail _ move ih => exact Nat.le_trans ih (Nat.le_of_lt (pos_lt_of_move move))

theorem unread_suffix_of_reached : next.unread <:+ scan.unread := by
  induction reached with
  | refl => exact List.suffix_rfl
  | tail _ move ih => exact (unread_suffix_of_move move).trans ih

end

/-- A refusal fails the step that the next character asks for. -/
theorem step_of_refused {scan : Scan} {error : ParseError} (refused : Refused scan error) :
    ∃ head tail, scan.unread = head :: tail ∧ scan.step head tail = .error error := by
  cases scan with
  | mk pos unread groupCount draft enclosing =>
      cases refused with
      | @groupTooDeep tail unreadEq full =>
          refine ⟨'(', tail, unreadEq, ?_⟩
          simp only [step, openGroup, if_pos full]
      | @opening tail _ unreadEq room failed =>
          refine ⟨'(', tail, unreadEq, ?_⟩
          simp only [step, openGroup, if_neg (Nat.not_le_of_lt room), failed]
      | @alternativeTooDeep tail unreadEq full =>
          refine ⟨'|', tail, unreadEq, ?_⟩
          simp only [step, openAlternative, if_pos full]
      | @unmatched tail unreadEq enclosingEq =>
          refine ⟨')', tail, unreadEq, ?_⟩
          cases enclosingEq
          simp only [step, closeGroup]
      | @groupQuantifier tail _ _ _ unreadEq enclosingEq failed =>
          refine ⟨')', tail, unreadEq, ?_⟩
          cases unreadEq
          cases enclosingEq
          simp only [step, closeGroup, attach, advance, List.drop_succ_cons, List.drop_zero, failed]
      | @atom head tail _ unreadEq notOpening notBar notClosing failed =>
          refine ⟨head, tail, unreadEq, ?_⟩
          simp only [step, takeAtom, failed]
      | @atomQuantifier head tail _ _ _ unreadEq notOpening notBar notClosing atomRead failed =>
          refine ⟨head, tail, unreadEq, ?_⟩
          cases unreadEq
          simp only [step, takeAtom, atomRead, attach, advance, List.drop_succ_cons, failed]

/-- A run ends where a step is refused. -/
theorem run_of_refused {scan : Scan} {error : ParseError} (refused : Refused scan error) :
    scan.run = .error error := by
  obtain ⟨head, tail, unreadEq, failed⟩ := step_of_refused refused
  rw [run_of_unread_cons unreadEq, failed]
  rfl

/-- What every move keeps holds where a run ends: at the end of the text, or
where a step is refused. -/
theorem invariant_of_outcome {invariant : Scan → Prop}
    (kept : ∀ {scan next : Scan}, invariant scan → Move scan next → invariant next)
    {scan : Scan} (holds : invariant scan) :
    ∃ last, invariant last ∧
      ((last.unread = [] ∧ scan.run = .ok last) ∨
        ∃ error, Refused last error ∧ scan.run = .error error) := by
  -- The induction is on the length of the unread text, which every move shortens.
  induction lengthEq : scan.unread.length using Nat.strongRecOn generalizing scan with
  | ind length ih =>
      cases unreadEq : scan.unread with
      | nil => exact ⟨scan, holds, .inl ⟨unreadEq, run_of_unread_nil unreadEq⟩⟩
      | cons head tail =>
          cases stepped : scan.step head tail with
          | error error =>
              have refused := refused_of_step unreadEq stepped
              exact ⟨scan, holds, .inr ⟨error, refused, run_of_refused refused⟩⟩
          | ok next =>
              have move := move_of_step unreadEq stepped
              have shorter := length_unread_lt_of_move move
              rw [run_of_move move]
              exact ih next.unread.length (lengthEq ▸ shorter) (kept holds move) rfl

/-- What every move keeps holds when the whole text has been read. -/
theorem invariant_of_run {invariant : Scan → Prop}
    (kept : ∀ {scan next : Scan}, invariant scan → Move scan next → invariant next)
    {scan last : Scan} (holds : invariant scan) (ran : scan.run = .ok last) :
    invariant last ∧ last.unread = [] := by
  obtain ⟨stopped, stoppedHolds, outcome⟩ := invariant_of_outcome kept holds
  rw [ran] at outcome
  rcases outcome with ⟨unreadEq, stoppedEq⟩ | ⟨error, _, failed⟩
  · cases stoppedEq
    exact ⟨stoppedHolds, unreadEq⟩
  · cases failed

/-- What every move keeps holds where a step is refused. -/
theorem invariant_of_run_error {invariant : Scan → Prop}
    (kept : ∀ {scan next : Scan}, invariant scan → Move scan next → invariant next)
    {scan : Scan} {error : ParseError} (holds : invariant scan) (failed : scan.run = .error error) :
    ∃ last, invariant last ∧ Refused last error := by
  obtain ⟨stopped, stoppedHolds, outcome⟩ := invariant_of_outcome kept holds
  rw [failed] at outcome
  rcases outcome with ⟨_, ran⟩ | ⟨found, refused, failedEq⟩
  · cases ran
  · cases failedEq
    exact ⟨stopped, stoppedHolds, refused⟩

theorem finish_eq_ok_iff {scan : Scan} {sequence : Sequence} :
    scan.finish = .ok sequence ↔ scan.enclosing = [] ∧ scan.draft.finish = sequence := by
  rw [finish]
  split
  · next enclosingEq => simp [enclosingEq]
  · next enclosingEq => simp [enclosingEq]

end Scan

/-- A pattern has been read when a scan has reached the end of the text with no
group open. -/
theorem Pattern.parse_eq_ok_iff {options : LimitOptions} {text : String} {pattern : Pattern} :
    Pattern.parse options text = .ok pattern ↔
      ∃ last : Scan, Scan.run { unread := text.toList } = .ok last ∧ last.enclosing = [] ∧
        pattern = { pieces := last.draft.finish, groupCount := last.groupCount,
                    limits := options.resolve } := by
  rw [Pattern.parse]
  constructor
  · intro parsed
    split at parsed
    · cases parsed
    · next last ran =>
        obtain ⟨pieces, finished, patternEq⟩ := ParseError.exists_of_map_eq_ok parsed
        obtain ⟨closed, piecesEq⟩ := Scan.finish_eq_ok_iff.mp finished
        exact ⟨last, ran, closed, by rw [piecesEq, patternEq]⟩
  · intro read
    obtain ⟨last, ran, closed, patternEq⟩ := read
    rw [ran]
    simp only
    rw [Scan.finish_eq_ok_iff.mpr ⟨closed, rfl⟩, patternEq]
    rfl

/-- A text is refused when its scan is, or when the scan leaves a group open. -/
theorem Pattern.parse_eq_error_iff {options : LimitOptions} {text : String} {error : ParseError} :
    Pattern.parse options text = .error error ↔
      Scan.run { unread := text.toList } = .error error ∨
        ∃ (last : Scan) (group : OpenGroup) (enclosing : List OpenGroup),
          Scan.run { unread := text.toList } = .ok last ∧ last.enclosing = group :: enclosing ∧
            error = ⟨group.start, .unclosedGroup⟩ := by
  rw [Pattern.parse]
  cases Scan.run { unread := text.toList } with
  | error found => simp
  | ok last =>
      simp only [Scan.finish]
      cases enclosingEq : last.enclosing with
      | nil => simp [Except.map, enclosingEq]
      | cons group enclosing => simp [Except.map, enclosingEq, eq_comm]

end PatternTree
