import PatternTree.Proofs.Guarded.Reader
import PatternTree.Proofs.Scan.Progress
import PatternTree.Proofs.Tree.Extent

/-!
# Nothing needs a guard

A descent of a scan and the guarded reading of a text take the same steps.  So wherever a scan
stands, the guarded reading of the sequence there comes to what the descent comes to, by
`Guarded.comesTo_of_descent`, and no lapse stops it.

`Pattern.parse_guarded` says so of a whole pattern, and says where an atom ends.
-/

namespace PatternTree

namespace Guarded

open Scan (Descent Move Placed Refused Within)

/-- What the calls share where a scan stands. -/
def Reader.of (scan : Scan) : Reader :=
  ⟨scan.pos, scan.groupCount, scan.depth⟩

/-- A guarded reading of the sequence at the front of a scan comes to what a descent comes to.  The
alternatives that the scan has read are the caller's. -/
inductive ComesTo (text : List Char) (scan : Scan) : Except ParseError Scan → Prop where
  | ok {last : Scan} {pieces : Sequence}
      (read : sequence text (.of scan) scan.draft.pieces.reverse =
        .ok (pieces, { Reader.of last with depth := scan.depth }))
      (finished : last.draft.finish = scan.draft.alternatives.foldl
        (fun right left => [⟨.once, .either left right⟩]) pieces) : ComesTo text scan (.ok last)
  | refused {error : ParseError}
      (read : sequence text (.of scan) scan.draft.pieces.reverse = .error (.refusal error)) :
      ComesTo text scan (.error error)

section

variable {text tail : List Char} {scan next last : Scan} {head : Char}

/-- A piece that has been read leaves the rest of the sequence. -/
theorem ComesTo.of_piece {outcome : Except ParseError Scan}
    (same : sequence text (.of scan) scan.draft.pieces.reverse =
      sequence text (.of next) next.draft.pieces.reverse)
    (alternatives : next.draft.alternatives = scan.draft.alternatives)
    (depthEq : next.depth = scan.depth) (rest : ComesTo text next outcome) :
    ComesTo text scan outcome := by
  cases rest with
  | ok read finished =>
      rw [depthEq] at read
      rw [alternatives] at finished
      exact .ok (same.trans read) finished
  | refused read => exact .refused (same.trans read)

theorem further_of_move (within : Within text scan) (move : Move scan next) :
    Further text scan.pos next.pos :=
  ⟨Scan.pos_lt_of_move move, (within.of_move move).pos_le⟩

theorem construct_of_ordinary (within : Within text scan) (unreadEq : scan.unread = head :: tail)
    (ordinary : head ∉ ['(', '|', ')']) (pieces : Sequence) :
    construct text (.of scan) head pieces = lift ((Atom.read scan.pos head tail).map
      fun span => (.atom span.value, { Reader.of scan with pos := scan.pos + span.length })) := by
  have read : leaf text (Reader.of scan).pos head = lift ((Atom.read scan.pos head tail).map
      fun span => (span.value, scan.pos + span.length)) := leaf_eq (within.drop_pos.trans unreadEq)
  simp only [List.mem_cons, List.not_mem_nil, or_false, not_or] at ordinary
  rw [construct, read]
  · cases Atom.read scan.pos head tail <;> rfl
  · exact ordinary.1
  · exact ordinary.2.2
  · exact ordinary.2.1

/-- The quantifier of an atom that takes `length` characters of `tail`. -/
theorem complete_of_unread (within : Within text scan) (unreadEq : scan.unread = head :: tail)
    {length : Nat} (inside : length ≤ tail.length) (atom : Atom) :
    complete text (scan.pos + length) atom =
      lift ((Piece.read atom (scan.pos + (length + 1)) (tail.drop length)).map
        fun span => (span.value, scan.pos + (length + 1) + span.length)) := by
  have lengthEq := Text.length_of_drop (within.drop_pos.trans unreadEq)
  rw [complete_eq (by omega), Nat.add_assoc, within.drop_of_unread unreadEq]

theorem enter_of_room (room : scan.depth < nestingLimit) :
    (Reader.of scan).enter = .ok { Reader.of scan with depth := scan.depth + 1 } :=
  if_neg (Nat.not_le_of_lt room)

theorem enter_of_full (full : nestingLimit ≤ scan.depth) :
    (Reader.of scan).enter = .error (.refusal ⟨scan.pos, .tooDeep⟩) :=
  if_pos full

theorem openGroup_of_unread (within : Within text scan) (unreadEq : scan.unread = '(' :: tail)
    (room : scan.depth < nestingLimit) :
    openGroup text (.of scan) =
      lift ((Opening.read scan.pos (scan.groupCount + 1) tail).map fun span =>
        (span.value, ⟨scan.pos + (span.length + 1), scan.groupCount + 1, scan.depth + 1⟩)) := by
  have opened : opening text (Reader.of scan).pos ((Reader.of scan).groupCount + 1) = _ :=
    opening_eq (within.drop_pos.trans unreadEq) (scan.groupCount + 1)
  rw [openGroup, enter_of_room room, ok_bind, opened]
  cases Opening.read scan.pos (scan.groupCount + 1) tail <;> rfl

theorem openGroup_of_move (within : Within text scan) (opening : scan.unread = '(' :: tail)
    (entered : Move scan next) :
    ∃ id, openGroup text (.of scan) = .ok (id, .of next) ∧ next.draft = {} ∧
      next.enclosing = ⟨scan.pos, id, scan.draft⟩ :: scan.enclosing := by
  have depthEq := Scan.depth_of_opening opening entered
  cases entered with
  | openGroup unreadEq room opened =>
      cases opening.symm.trans unreadEq
      refine ⟨_, ?_, rfl, rfl⟩
      rw [openGroup_of_unread within opening room, opened]
      simp only [Except.map, lift_ok, Reader.of, depthEq]
  | openAlternative unreadEq | closeGroup unreadEq => cases opening.symm.trans unreadEq
  | takeAtom unreadEq notOpening =>
      cases opening.symm.trans unreadEq
      exact absurd rfl notOpening

theorem openAlternative_of_move (within : Within text scan) (bar : scan.unread = '|' :: tail)
    (entered : Move scan next) : openAlternative text (.of scan) = .ok (.of next) := by
  have inside := within.pos_lt bar
  have depthEq := Scan.depth_of_bar bar entered
  cases entered with
  | openAlternative unreadEq room =>
      have advanced : advance text (Reader.of scan).pos 1 = .ok (scan.pos + 1) :=
        advance_of_le inside
      rw [openAlternative, enter_of_room room, ok_bind, advanced, ok_bind]
      simp only [pure_eq_ok, Reader.of, depthEq]
  | openGroup unreadEq | closeGroup unreadEq => cases bar.symm.trans unreadEq
  | takeAtom unreadEq _ notBar =>
      cases bar.symm.trans unreadEq
      exact absurd rfl notBar

theorem construct_of_refused (within : Within text scan) (unreadEq : scan.unread = '(' :: tail)
    {error : ParseError} (refused : Refused scan error) (pieces : Sequence) :
    construct text (.of scan) '(' pieces = .error (.refusal error) := by
  cases refused with
  | groupTooDeep opening full =>
      rw [construct, openGroup, enter_of_full full]
      rfl
  | opening opening room failed =>
      cases unreadEq.symm.trans opening
      rw [construct, openGroup_of_unread within opening room, failed]
      rfl
  | alternativeTooDeep begins | unmatched begins | groupQuantifier begins =>
      cases unreadEq.symm.trans begins
  | atom begins notOpening | atomQuantifier begins notOpening =>
      cases unreadEq.symm.trans begins
      exact absurd rfl notOpening

theorem comesTo_of_refused (within : Within text scan) (unreadEq : scan.unread = head :: tail)
    (notClosing : head ≠ ')') {error : ParseError} (refused : Refused scan error) :
    ComesTo text scan (.error error) := by
  have here := within.drop_pos.trans unreadEq
  by_cases opening : head = '('
  · subst opening
    exact .refused (sequence_of_halt here (construct_of_refused within unreadEq refused _))
  cases refused with
  | groupTooDeep begins | opening begins =>
      cases unreadEq.symm.trans begins
      exact absurd rfl opening
  | alternativeTooDeep bar full =>
      cases unreadEq.symm.trans bar
      refine .refused (sequence_of_halt here ?_)
      rw [construct, openAlternative, enter_of_full full]
      rfl
  | unmatched closing | groupQuantifier closing =>
      cases unreadEq.symm.trans closing
      exact absurd rfl notClosing
  | atom begins notOpening notBar _ failed =>
      cases unreadEq.symm.trans begins
      have ordinary : head ∉ ['(', '|', ')'] := by simp [notOpening, notBar, notClosing]
      refine .refused (sequence_of_halt here ?_)
      rw [construct_of_ordinary within unreadEq ordinary, failed]
      rfl
  | atomQuantifier begins notOpening notBar _ atomRead failed =>
      cases unreadEq.symm.trans begins
      have ordinary : head ∉ ['(', '|', ')'] := by simp [notOpening, notBar, notClosing]
      have found := construct_of_ordinary within unreadEq ordinary scan.draft.pieces.reverse
      rw [atomRead] at found
      refine .refused (sequence_of_unquantified here found ?_)
      rw [complete_of_unread within unreadEq (Atom.length_le_of_read atomRead), failed]
      rfl

theorem comesTo_of_atom (within : Within text scan) (unreadEq : scan.unread = head :: tail)
    (ordinary : head ∉ ['(', '|', ')']) (move : Move scan next) {outcome : Except ParseError Scan}
    (rest : ComesTo text next outcome) : ComesTo text scan outcome := by
  have here := within.drop_pos.trans unreadEq
  have further := further_of_move within move
  have depthEq := (Scan.open_eq_of_ordinary unreadEq ordinary move).2
  cases move with
  | openGroup begins | openAlternative begins | closeGroup begins =>
      cases unreadEq.symm.trans begins
      simp at ordinary
  | @takeAtom _ _ atom _ _ _ begins _ _ _ atomRead pieceRead =>
      cases unreadEq.symm.trans begins
      have found := construct_of_ordinary within unreadEq ordinary scan.draft.pieces.reverse
      rw [atomRead] at found
      have completed := complete_of_unread within unreadEq (Atom.length_le_of_read atomRead) atom
      rw [pieceRead] at completed
      have goesOn := sequence_of_atom here found completed further
      refine .of_piece (goesOn.trans ?_) (Draft.alternatives_push _ _) depthEq rest
      rw [pieces_push]
      simp only [Reader.of, depthEq]

theorem construct_of_calleeRefused (within : Within text scan)
    (unreadEq : scan.unread = head :: tail) (opens : head ∈ ['(', '|'])
    (entered : Move scan next) {error : ParseError}
    (callee : ComesTo text next (.error error)) (pieces : Sequence) :
    construct text (.of scan) head pieces = .error (.refusal error) := by
  have further : Further text (Reader.of scan).pos (Reader.of next).pos :=
    further_of_move within entered
  cases callee with
  | refused read =>
      obtain rfl | rfl : head = '(' ∨ head = '|' := by simpa using opens
      · obtain ⟨id, opened, draftEq, _⟩ := openGroup_of_move within unreadEq entered
        simp only [draftEq, List.reverse_nil] at read
        rw [construct, opened]
        simp only [ok_bind, dif_pos further, read]
        rfl
      · have draftEq := (Scan.effect_of_move unreadEq entered).1
        simp only [draftEq, Draft.split, List.reverse_nil] at read
        rw [construct, openAlternative_of_move within unreadEq entered]
        simp only [ok_bind, dif_pos further, read]
        rfl

theorem comesTo_of_bar (within : Within text scan) (unreadEq : scan.unread = '|' :: tail)
    (entered : Move scan next) (callee : ComesTo text next (.ok last)) :
    ComesTo text scan (.ok last) := by
  have further : Further text (Reader.of scan).pos (Reader.of next).pos :=
    further_of_move within entered
  have depthEq := Scan.depth_of_bar unreadEq entered
  have draftEq := (Scan.effect_of_move unreadEq entered).1
  cases callee with
  | @ok _ right read finished =>
      simp only [draftEq, Draft.split, List.reverse_nil] at read finished
      have left : ({ Reader.of last with depth := next.depth } : Reader).leave =
          .ok { Reader.of last with depth := scan.depth } := by
        rw [depthEq]
        rfl
      have found : construct text (.of scan) '|' scan.draft.pieces.reverse =
          .ok (.choice scan.draft.pieces.reverse right,
            { Reader.of last with depth := scan.depth }) := by
        rw [construct, openAlternative_of_move within unreadEq entered]
        simp only [ok_bind, dif_pos further, read, left]
        rfl
      exact .ok (sequence_of_choice (within.drop_pos.trans unreadEq) found) finished

/-! ## Groups -/

section

variable {body : Scan} {events : List Scan.Event} (within : Within text scan)
  (opening : scan.unread = '(' :: tail) (entered : Move scan body)
  (called : Descent body events (.ok last)) (callee : ComesTo text body (.ok last))

include within opening entered called callee

/-- Where the sequence of a group has ended, the group is still to be left. -/
theorem construct_of_opening (pieces : Sequence) :
    ∃ id, last.enclosing = ⟨scan.pos, id, scan.draft⟩ :: scan.enclosing ∧
      construct text (.of scan) '(' pieces =
        closeGroup text scan.pos id last.draft.finish
          { Reader.of last with depth := scan.depth + 1 } := by
  have further : Further text (Reader.of scan).pos (Reader.of body).pos :=
    further_of_move within entered
  have depthEq := Scan.depth_of_opening opening entered
  obtain ⟨id, opened, draftEq, enclosingEq⟩ := openGroup_of_move within opening entered
  refine ⟨id, (called.call rfl 0).enclosing_eq.trans enclosingEq, ?_⟩
  cases callee with
  | ok read finished =>
      simp only [draftEq, List.reverse_nil, List.foldl_nil, depthEq] at read finished
      rw [construct, opened, finished]
      simp only [ok_bind, dif_pos further, read]
      rfl

theorem construct_of_closing {rest : List Char} (closing : last.unread = ')' :: rest)
    (pieces : Sequence) :
    ∃ id, last.enclosing = ⟨scan.pos, id, scan.draft⟩ :: scan.enclosing ∧
      construct text (.of scan) '(' pieces =
        .ok (.atom (.group id last.draft.finish), { Reader.of last with depth := scan.depth }) := by
  have lastWithin := (within.of_move entered).of_reached (called.reached rfl)
  have here := Text.getElem?_of_drop (lastWithin.drop_pos.trans closing)
  obtain ⟨id, enclosingEq, found⟩ :=
    construct_of_opening within opening entered called callee pieces
  refine ⟨id, enclosingEq, found.trans ?_⟩
  rw [closeGroup]
  exact if_pos here

theorem construct_of_unclosed (ended : last.unread = []) (pieces : Sequence) :
    construct text (.of scan) '(' pieces = .error (.refusal ⟨scan.pos, .unclosedGroup⟩) := by
  have lastWithin := (within.of_move entered).of_reached (called.reached rfl)
  have notClosing : text[last.pos]? ≠ some ')' := by
    rw [← List.head?_drop, lastWithin.drop_pos, ended]
    simp
  obtain ⟨id, _, found⟩ := construct_of_opening within opening entered called callee pieces
  rw [found, closeGroup]
  exact if_neg notClosing

theorem comesTo_of_groupQuantifier {rest : List Char} (closing : last.unread = ')' :: rest)
    {error : ParseError} (refused : Refused last error) : ComesTo text scan (.error error) := by
  obtain ⟨id, enclosingEq, found⟩ := construct_of_closing within opening entered called callee
    closing scan.draft.pieces.reverse
  refine .refused (sequence_of_unquantified (within.drop_pos.trans opening) found ?_)
  have lastWithin := (within.of_move entered).of_reached (called.reached rfl)
  cases refused with
  | groupQuantifier begins groupEq failed =>
      cases closing.symm.trans begins
      cases enclosingEq.symm.trans groupEq
      have completed := complete_of_unread lastWithin closing (Nat.zero_le _)
        (.group id last.draft.finish)
      rw [List.drop_zero, failed] at completed
      exact completed
  | unmatched begins noGroup => cases enclosingEq.symm.trans noGroup
  | groupTooDeep begins | opening begins | alternativeTooDeep begins =>
      cases closing.symm.trans begins
  | atom begins _ _ notClosing | atomQuantifier begins _ _ notClosing =>
      cases closing.symm.trans begins
      exact absurd rfl notClosing

theorem comesTo_of_group {rest : List Char} (closing : last.unread = ')' :: rest)
    (closed : Move last next) {outcome : Except ParseError Scan}
    (afterwards : ComesTo text next outcome) : ComesTo text scan outcome := by
  obtain ⟨id, enclosingEq, found⟩ := construct_of_closing within opening entered called callee
    closing scan.draft.pieces.reverse
  have lastWithin := (within.of_move entered).of_reached (called.reached rfl)
  have group := Scan.Call.parenthesized opening entered (called.call rfl 1) closing closed
  have depthEq := group.depth_eq
  have further : Further text (Reader.of scan).pos next.pos := by
    have bodyLe := Scan.pos_le_of_reached (called.reached rfl)
    have enteredLt := Scan.pos_lt_of_move entered
    have closedLt := Scan.pos_lt_of_move closed
    exact ⟨by simp only [Reader.of]; omega, (lastWithin.of_move closed).pos_le⟩
  cases closed with
  | closeGroup begins groupEq pieceRead =>
      cases closing.symm.trans begins
      cases enclosingEq.symm.trans groupEq
      have completed := complete_of_unread lastWithin closing (Nat.zero_le _)
        (.group id last.draft.finish)
      rw [List.drop_zero, pieceRead] at completed
      have goesOn := sequence_of_atom (within.drop_pos.trans opening) found completed further
      refine .of_piece (goesOn.trans ?_) (Draft.alternatives_push _ _) depthEq afterwards
      rw [pieces_push]
      simp only [Reader.of, depthEq]
  | openGroup begins | openAlternative begins => cases closing.symm.trans begins
  | takeAtom begins _ _ notClosing =>
      cases closing.symm.trans begins
      exact absurd rfl notClosing

end

end

/-- The guarded reading of a sequence comes to what its descent comes to. -/
theorem comesTo_of_descent {text : List Char} {scan : Scan} {events : List Scan.Event}
    {outcome : Except ParseError Scan} (descent : Descent scan events outcome)
    (within : Within text scan) : ComesTo text scan outcome := by
  induction descent with
  | endOfText unreadEq =>
      exact .ok (sequence_of_end (within.drop_pos.trans unreadEq) _) rfl
  | closing unreadEq =>
      exact .ok (sequence_of_closing (within.drop_pos.trans unreadEq) _) rfl
  | refused unreadEq notClosing refused =>
      exact comesTo_of_refused within unreadEq notClosing refused
  | atom unreadEq ordinary move _ ih =>
      exact comesTo_of_atom within unreadEq ordinary move (ih (within.of_move move))
  | calleeRefused unreadEq opens entered called ih =>
      have halted := construct_of_calleeRefused within unreadEq opens entered
        (ih (within.of_move entered))
      exact .refused (sequence_of_halt (within.drop_pos.trans unreadEq) (halted _))
  | bar unreadEq entered called ih =>
      exact comesTo_of_bar within unreadEq entered (ih (within.of_move entered))
  | unclosed opening entered called ended ih =>
      have halted := construct_of_unclosed within opening entered called
        (ih (within.of_move entered)) ended
      exact .refused (sequence_of_halt (within.drop_pos.trans opening) (halted _))
  | groupQuantifier opening entered called closing refused ih =>
      exact comesTo_of_groupQuantifier within opening entered called (ih (within.of_move entered))
        closing refused
  | group opening entered called closing closed _ bodyIh restIh =>
      have lastWithin := (within.of_move entered).of_reached (called.reached rfl)
      exact comesTo_of_group within opening entered called (bodyIh (within.of_move entered))
        closing closed (restIh (lastWithin.of_move closed))

theorem parse_eq (options : LimitOptions) (text : String) :
    parse options text = lift (Pattern.parse options text) := by
  obtain ⟨events, outcome, descent⟩ := Scan.exists_descent { unread := text.toList }
  have comesTo := comesTo_of_descent descent (Scan.within_start text.toList)
  rw [descent.parse_eq options, parse]
  cases comesTo with
  | @ok last pieces read finished =>
      have within := (Scan.within_start text.toList).of_reached (descent.reached rfl)
      have read : sequence text.toList {} [] = .ok (pieces, { Reader.of last with depth := 0 }) :=
        read
      have finished : last.draft.finish = pieces := finished
      have ends : last.unread.isEmpty = !decide (last.pos < text.toList.length) := by
        rw [← within.drop_pos, Bool.eq_iff_iff]
        simp
      simp only [read, ok_bind, finished, Except.bind, Scan.conclude, ends, Reader.of]
      by_cases before : last.pos < text.toList.length
      · simp [before]
      · simp [before]
  | refused read =>
      have read : sequence text.toList {} [] = .error (.refusal _) := read
      rw [read]
      rfl

/-! ## The ends of atoms -/

/-- `EndsAt scan atom stop` says that the construct at the front of `scan` is `atom`, and that the
last of its characters stands at `stop`. -/
inductive EndsAt (scan : Scan) : Atom → Nat → Prop where
  /-- The characters up to that one are enough to read the atom, and it takes all of them. -/
  | leaf {head : Char} {tail : List Char} {atom : Atom} {length : Nat}
      (unreadEq : scan.unread = head :: tail) (ordinary : head ∉ ['(', '|', ')'])
      (read : Atom.read scan.pos head (tail.take length) = .ok ⟨atom, length⟩) :
      EndsAt scan atom (scan.pos + length)
  /-- The parenthesis there closes the group. -/
  | group {last : Scan} {id : Option String} {tail rest : List Char}
      (opening : scan.unread = '(' :: tail) (reached : Relation.ReflTransGen Move scan last)
      (closing : last.unread = ')' :: rest)
      (innermost : last.enclosing = ⟨scan.pos, id, scan.draft⟩ :: scan.enclosing) :
      EndsAt scan (.group id last.draft.finish) last.pos

theorem endsAt_of_construct {text : List Char} {scan : Scan} (within : Within text scan)
    {head : Char} {tail : List Char} (unreadEq : scan.unread = head :: tail) {pieces : Sequence}
    {atom : Atom} {reader : Reader}
    (found : construct text (.of scan) head pieces = .ok (.atom atom, reader)) :
    EndsAt scan atom reader.pos := by
  by_cases opening : head = '('
  · subst opening
    rcases Scan.exists_move_or_refused unreadEq with ⟨body, entered⟩ | ⟨error, refused⟩
    · obtain ⟨events, outcome, called⟩ := Scan.exists_descent body
      have callee := comesTo_of_descent called (within.of_move entered)
      cases outcome with
      | error error =>
          have halted :=
            construct_of_calleeRefused within unreadEq (by decide) entered callee pieces
          cases found.symm.trans halted
      | ok last =>
          have lastWithin := (within.of_move entered).of_reached (called.reached rfl)
          cases unreadAt : last.unread with
          | nil =>
              have halted :=
                construct_of_unclosed within unreadEq entered called callee unreadAt pieces
              cases found.symm.trans halted
          | cons c rest =>
              obtain rfl : c = ')' := by simpa [unreadAt] using called.ends rfl
              obtain ⟨id, innermost, closed⟩ := construct_of_closing within unreadEq entered called
                callee unreadAt pieces
              cases found.symm.trans closed
              exact .group unreadEq (.head entered (called.reached rfl)) unreadAt innermost
    · cases found.symm.trans (construct_of_refused within unreadEq refused pieces)
  by_cases closing : head = ')'
  · subst closing
    rw [construct] at found
    cases found
  by_cases bar : head = '|'
  · subst bar
    exact absurd found construct_bar_ne_atom
  · have ordinary : head ∉ ['(', '|', ')'] := by simp [opening, bar, closing]
    rw [construct_of_ordinary within unreadEq ordinary] at found
    cases read : Atom.read scan.pos head tail with
    | error error =>
        rw [read] at found
        cases found
    | ok span =>
        rw [read] at found
        cases found
        exact .leaf unreadEq ordinary (Atom.read_take read)

theorem EndsAt.inside {text : List Char} {scan : Scan} {atom : Atom} {stop : Nat}
    (endsAt : EndsAt scan atom stop) (within : Within text scan) :
    scan.pos ≤ stop ∧ stop < text.length := by
  cases endsAt with
  | leaf unreadEq _ read =>
      have taken := Atom.length_le_of_read read
      have lengthEq := Text.length_of_drop (within.drop_pos.trans unreadEq)
      rw [List.length_take] at taken
      simp only at taken
      omega
  | group _ reached closing =>
      exact ⟨Scan.pos_le_of_reached reached, (within.of_reached reached).pos_lt closing⟩

end Guarded

/-- A pattern is read under guard as it is without: no move is cut short, nothing is cut out of a
list that does not lie in it, and nothing missing is replaced, whether the text is a pattern or is
refused.  The same holds from wherever a scan stands.  What an escape takes is less than the text
after the backslash.  A construct that is no bar and no end of a sequence is left at the last of its
characters, which lies in the text. -/
theorem Pattern.parse_guarded (text : String) :
    (∀ options, Guarded.parse options text = Guarded.lift (parse options text)) ∧
    (∀ pos key rest span, Escape.decode pos key rest = .ok span →
      span.length < (key :: rest).length) ∧
    ∀ scan, Relation.ReflTransGen Scan.Move { unread := text.toList } scan →
      (∀ lapse, Guarded.sequence text.toList (.of scan) scan.draft.pieces.reverse ≠
        .error (.lapse lapse)) ∧
      ∀ head tail pieces atom last, scan.unread = head :: tail →
        Guarded.construct text.toList (.of scan) head pieces = .ok (.atom atom, last) →
          scan.pos ≤ last.pos ∧ last.pos < text.length ∧ Guarded.EndsAt scan atom last.pos := by
  refine ⟨fun options => Guarded.parse_eq options text, ?_, fun scan reached => ⟨?_, ?_⟩⟩
  · intro pos key rest span decoded
    exact Nat.lt_succ_of_le (Escape.length_le_of_decode decoded)
  · intro lapse lapsed
    obtain ⟨events, outcome, descent⟩ := Scan.exists_descent scan
    have within := (Scan.within_start text.toList).of_reached reached
    cases Guarded.comesTo_of_descent descent within with
    | ok read _ => cases lapsed.symm.trans read
    | refused read => cases lapsed.symm.trans read
  · intro head tail pieces atom last unreadEq found
    have within := (Scan.within_start text.toList).of_reached reached
    have endsAt := Guarded.endsAt_of_construct within unreadEq found
    have inside := endsAt.inside within
    rw [String.length_toList] at inside
    exact ⟨inside.1, inside.2, endsAt⟩

/-- A text that breaks off in a code point, in braces and in a group is refused for the group. -/
theorem Pattern.parse_guarded_unclosed :
    Guarded.parse {} "(a\\u\x7b41" = .error (.refusal ⟨0, .unclosedGroup⟩) := by
  obtain ⟨parseEq, _⟩ := Pattern.parse_guarded "(a\\u\x7b41"
  have refused : Pattern.parse {} "(a\\u\x7b41" = .error ⟨0, .unclosedGroup⟩ := by decide +kernel
  rw [parseEq, refused]
  rfl

end PatternTree
