import Mathlib.Logic.ExistsUnique
import PatternTree.Proofs.Scan.Calls

/-!
# Reading by recursive descent

A scan reads a text with one loop.  The same text can be read by calls, one for each
sequence: a call looks at one construct after the other, and makes a further call for what a
parenthesis or a bar opens.  `Descent` is a reading of this kind.  It is made of the moves and
the refusals of scans, and it records what happens on the way.

`exists_descent` finds a descent wherever a scan stands, by recursion on the length of the
unread text, and `Descent.unique` says that there is no other.  The reading of a pattern comes
to what the descent comes to, by `Descent.parse_eq`.
-/

namespace PatternTree

namespace Scan

/-- What happens in a descent. -/
inductive Event where
  /-- The construct at `pos` is looked at. -/
  | dispatch (pos : Nat)
  /-- A call is made for the sequence at `pos`, which the construct at `caller` has opened. -/
  | enter (caller pos : Nat)
  /-- A call ends at `pos`, with success. -/
  | leave (pos : Nat)
  deriving DecidableEq

/-- Where a construct is looked at, if the event is a dispatch. -/
def Event.dispatched? : Event → Option Nat
  | dispatch pos => some pos
  | enter _ _ | leave _ => none

/-- The positions of the constructs that are looked at. -/
def dispatches (events : List Event) : List Nat :=
  events.filterMap Event.dispatched?

section

variable (caller pos : Nat) (events more : List Event)

@[simp] theorem dispatches_nil : dispatches [] = [] := rfl

@[simp] theorem dispatches_dispatch :
    dispatches (.dispatch pos :: events) = pos :: dispatches events := rfl

@[simp] theorem dispatches_enter :
    dispatches (.enter caller pos :: events) = dispatches events := rfl

@[simp] theorem dispatches_leave : dispatches (.leave pos :: events) = dispatches events := rfl

@[simp] theorem dispatches_append :
    dispatches (events ++ more) = dispatches events ++ dispatches more :=
  List.filterMap_append

end

/-- `Descent scan events outcome` is a call for the sequence at the front of `scan`.  It ends
with a scan that stands at the end of that sequence, or is refused. -/
inductive Descent : Scan → List Event → Except ParseError Scan → Prop where
  | endOfText {scan : Scan} (unreadEq : scan.unread = []) :
      Descent scan [.leave scan.pos] (.ok scan)
  /-- A closing parenthesis ends the sequence, and is left to the caller. -/
  | closing {scan : Scan} {tail : List Char} (unreadEq : scan.unread = ')' :: tail) :
      Descent scan [.dispatch scan.pos, .leave scan.pos] (.ok scan)
  | refused {scan : Scan} {head : Char} {tail : List Char} {error : ParseError}
      (unreadEq : scan.unread = head :: tail) (notClosing : head ≠ ')')
      (refused : Refused scan error) : Descent scan [.dispatch scan.pos] (.error error)
  | atom {scan next : Scan} {head : Char} {tail : List Char} {events : List Event}
      {outcome : Except ParseError Scan} (unreadEq : scan.unread = head :: tail)
      (ordinary : head ∉ ['(', '|', ')']) (move : Move scan next)
      (rest : Descent next events outcome) :
      Descent scan (.dispatch scan.pos :: events) outcome
  /-- The sequence in a group or after a bar is refused. -/
  | calleeRefused {scan next : Scan} {head : Char} {tail : List Char} {events : List Event}
      {error : ParseError} (unreadEq : scan.unread = head :: tail) (opens : head ∈ ['(', '|'])
      (entered : Move scan next) (called : Descent next events (.error error)) :
      Descent scan (.dispatch scan.pos :: .enter scan.pos next.pos :: events) (.error error)
  /-- After a bar nothing is left of the sequence. -/
  | bar {scan next last : Scan} {tail : List Char} {events : List Event}
      (unreadEq : scan.unread = '|' :: tail) (entered : Move scan next)
      (called : Descent next events (.ok last)) :
      Descent scan
        (.dispatch scan.pos :: .enter scan.pos next.pos :: (events ++ [.leave last.pos]))
        (.ok last)
  /-- The text ends inside a group. -/
  | unclosed {scan body last : Scan} {tail : List Char} {events : List Event}
      (opening : scan.unread = '(' :: tail) (entered : Move scan body)
      (called : Descent body events (.ok last)) (ended : last.unread = []) :
      Descent scan (.dispatch scan.pos :: .enter scan.pos body.pos :: events)
        (.error ⟨scan.pos, .unclosedGroup⟩)
  /-- The quantifier of a group is refused. -/
  | groupQuantifier {scan body last : Scan} {tail rest : List Char} {events : List Event}
      {error : ParseError} (opening : scan.unread = '(' :: tail) (entered : Move scan body)
      (called : Descent body events (.ok last)) (closing : last.unread = ')' :: rest)
      (refused : Refused last error) :
      Descent scan (.dispatch scan.pos :: .enter scan.pos body.pos :: events) (.error error)
  | group {scan body last next : Scan} {tail rest : List Char} {events more : List Event}
      {outcome : Except ParseError Scan} (opening : scan.unread = '(' :: tail)
      (entered : Move scan body) (called : Descent body events (.ok last))
      (closing : last.unread = ')' :: rest) (closed : Move last next)
      (afterwards : Descent next more outcome) :
      Descent scan (.dispatch scan.pos :: .enter scan.pos body.pos :: (events ++ more)) outcome

namespace Descent

variable {scan last : Scan} {events : List Event} {outcome : Except ParseError Scan}

/-- A descent that succeeds is a finished call. -/
theorem call (descent : Descent scan events outcome) (succeeds : outcome = .ok last)
    (count : Nat) : Call .sequence scan count last count := by
  induction descent generalizing last count with
  | endOfText unreadEq | closing unreadEq =>
      cases succeeds
      exact .done (by simp [unreadEq])
  | refused | calleeRefused | unclosed | groupQuantifier => cases succeeds
  | atom unreadEq ordinary move _ ih => exact .atom unreadEq ordinary move (ih succeeds count)
  | bar unreadEq entered _ ih => exact .alternatives (.bar unreadEq entered (ih succeeds _))
  | group opening entered _ closing closed _ bodyCall restCall =>
      have group := Call.parenthesized opening entered (bodyCall rfl (count + 1)) closing closed
      exact .group group (restCall succeeds count)

/-- A descent ends at the end of the text or before a closing parenthesis. -/
theorem ends (descent : Descent scan events outcome) (succeeds : outcome = .ok last) :
    last.unread.head? ∈ [none, some ')'] := by
  induction descent generalizing last with
  | endOfText unreadEq | closing unreadEq =>
      cases succeeds
      simp [unreadEq]
  | refused | calleeRefused | unclosed | groupQuantifier => cases succeeds
  | atom _ _ _ _ ih | bar _ _ _ ih | group _ _ _ _ _ _ _ ih => exact ih succeeds

/-- A descent goes where a scan goes. -/
theorem reached (descent : Descent scan events outcome) (succeeds : outcome = .ok last) :
    Relation.ReflTransGen Move scan last := by
  induction descent generalizing last with
  | endOfText | closing =>
      cases succeeds
      exact .refl
  | refused | calleeRefused | unclosed | groupQuantifier => cases succeeds
  | atom _ _ move _ ih => exact .head move (ih succeeds)
  | bar _ entered _ ih => exact .head entered (ih succeeds)
  | group _ entered _ _ closed _ throughBody afterwards =>
      exact (Relation.ReflTransGen.head entered (throughBody rfl)).trans
        (.head closed (afterwards succeeds))

end Descent

/-- A step succeeds with a move or is refused. -/
theorem exists_move_or_refused {scan : Scan} {head : Char} {tail : List Char}
    (unreadEq : scan.unread = head :: tail) :
    (∃ next, Move scan next) ∨ ∃ error, Refused scan error := by
  cases stepped : scan.step head tail with
  | ok next => exact .inl ⟨next, move_of_step unreadEq stepped⟩
  | error error => exact .inr ⟨error, refused_of_step unreadEq stepped⟩

/-- A scan can go on in one way at most. -/
@[grind →] theorem Move.unique {scan first second : Scan} (one : Move scan first)
    (other : Move scan second) : first = second := by
  obtain ⟨head, tail, unreadEq, stepped⟩ := step_of_move one
  obtain ⟨_, _, sameEq, steppedToo⟩ := step_of_move other
  cases unreadEq.symm.trans sameEq
  exact Except.ok.inj (stepped.symm.trans steppedToo)

@[grind →] theorem Refused.unique {scan : Scan} {first second : ParseError}
    (one : Refused scan first) (other : Refused scan second) : first = second := by
  obtain ⟨head, tail, unreadEq, failed⟩ := step_of_refused one
  obtain ⟨_, _, sameEq, failedToo⟩ := step_of_refused other
  cases unreadEq.symm.trans sameEq
  exact Except.error.inj (failed.symm.trans failedToo)

/-- What is refused is no move. -/
@[grind →] theorem not_move_of_refused {scan next : Scan} {error : ParseError}
    (refused : Refused scan error) (move : Move scan next) : False := by
  obtain ⟨head, tail, unreadEq, stepped⟩ := step_of_move move
  obtain ⟨_, _, sameEq, failed⟩ := step_of_refused refused
  cases unreadEq.symm.trans sameEq
  cases stepped.symm.trans failed

theorem not_move_of_unread_nil {scan next : Scan} (unreadEq : scan.unread = []) :
    ¬Move scan next := by
  intro move
  obtain ⟨head, tail, consEq, _⟩ := step_of_move move
  cases unreadEq.symm.trans consEq

/-- There is one descent at most: the next character and the step that it asks for leave no
choice, and the callee's own descent decides the rest. -/
theorem Descent.unique {scan : Scan} {events more : List Event}
    {outcome other : Except ParseError Scan} (first : Descent scan events outcome)
    (second : Descent scan more other) : events = more ∧ outcome = other := by
  induction first generalizing more other with
  | endOfText | closing | refused | atom | calleeRefused | bar | unclosed | groupQuantifier
  | group =>
      -- The constructors of `second` that begin with another character or step are absurd.
      cases second <;> grind

/-- What a descent does after an opening parenthesis, when it is known what any shorter text
comes to. -/
theorem exists_descent_of_opening {scan body : Scan} {tail : List Char}
    (opening : scan.unread = '(' :: tail) (entered : Move scan body)
    (shorter : ∀ inner : Scan, inner.unread.length < scan.unread.length →
      ∃ events outcome, Descent inner events outcome) :
    ∃ events outcome, Descent scan events outcome := by
  have bodyLt := length_unread_lt_of_move entered
  obtain ⟨events, outcome, called⟩ := shorter body bodyLt
  cases outcome with
  | error error => exact ⟨_, _, .calleeRefused opening (by decide) entered called⟩
  | ok last =>
      cases unreadEq : last.unread with
      | nil => exact ⟨_, _, .unclosed opening entered called unreadEq⟩
      | cons head rest =>
          have ends := called.ends rfl
          obtain rfl : head = ')' := by simpa [unreadEq] using ends
          rcases exists_move_or_refused unreadEq with ⟨next, closed⟩ | ⟨error, refused⟩
          · have lastLe := (unread_suffix_of_reached (called.reached rfl)).length_le
            have nextLt := length_unread_lt_of_move closed
            obtain ⟨more, outcome, afterwards⟩ := shorter next (by omega)
            exact ⟨_, _, .group opening entered called unreadEq closed afterwards⟩
          · exact ⟨_, _, .groupQuantifier opening entered called unreadEq refused⟩

/-- Wherever a scan stands, there is a descent. -/
theorem exists_descent (scan : Scan) : ∃ events outcome, Descent scan events outcome := by
  -- The recursion is on the unread text: a call is made only after a move.
  induction lengthEq : scan.unread.length using Nat.strongRecOn generalizing scan with
  | ind length ih =>
      have shorter (inner : Scan) (lt : inner.unread.length < scan.unread.length) :
          ∃ events outcome, Descent inner events outcome :=
        ih inner.unread.length (lengthEq ▸ lt) inner rfl
      cases unreadEq : scan.unread with
      | nil => exact ⟨_, _, .endOfText unreadEq⟩
      | cons head tail =>
          by_cases closing : head = ')'
          · subst closing
            exact ⟨_, _, .closing unreadEq⟩
          rcases exists_move_or_refused unreadEq with ⟨next, move⟩ | ⟨error, refused⟩
          · have nextLt := length_unread_lt_of_move move
            by_cases opening : head = '('
            · subst opening
              exact exists_descent_of_opening unreadEq move shorter
            obtain ⟨events, outcome, called⟩ := shorter next nextLt
            by_cases bar : head = '|'
            · subst bar
              cases outcome with
              | error error => exact ⟨_, _, .calleeRefused unreadEq (by decide) move called⟩
              | ok last => exact ⟨_, _, .bar unreadEq move called⟩
            · have ordinary : head ∉ ['(', '|', ')'] := by simp [opening, bar, closing]
              exact ⟨_, _, .atom unreadEq ordinary move called⟩
          · exact ⟨_, _, .refused unreadEq closing refused⟩

/-- The outcome of a call is a function of the scan, and so is all that happens on the way. -/
theorem existsUnique_descent (scan : Scan) :
    ∃! call : List Event × Except ParseError Scan, Descent scan call.1 call.2 := by
  obtain ⟨events, outcome, descent⟩ := exists_descent scan
  refine ⟨(events, outcome), descent, fun other otherDescent => ?_⟩
  obtain ⟨eventsEq, outcomeEq⟩ := otherDescent.unique descent
  exact Prod.ext eventsEq outcomeEq

/-- A descent that is refused is refused as the scan is. -/
theorem Descent.run_bind_finish {scan : Scan} {events : List Event}
    {outcome : Except ParseError Scan} {error : ParseError}
    (descent : Descent scan events outcome) (fails : outcome = .error error) :
    scan.run.bind finish = .error error := by
  induction descent with
  | endOfText | closing | bar => cases fails
  | refused _ _ refused =>
      cases fails
      rw [run_of_refused refused]
      rfl
  | atom _ _ move _ ih | calleeRefused _ _ move _ ih =>
      rw [run_of_move move]
      exact ih fails
  | unclosed opening entered called ended =>
      cases fails
      -- The group is the innermost that is open where the text ends.
      obtain ⟨_, _, enclosingEq⟩ := effect_of_move opening entered
      rw [run_of_move entered, run_of_reached (called.reached rfl), run_of_unread_nil ended]
      simp only [Except.bind, finish]
      rw [(called.call rfl 0).enclosing_eq, enclosingEq]
  | groupQuantifier _ entered called _ refused =>
      cases fails
      rw [run_of_move entered, run_of_reached (called.reached rfl), run_of_refused refused]
      rfl
  | group _ entered called _ closed _ _ ih =>
      rw [run_of_move entered, run_of_reached (called.reached rfl), run_of_move closed]
      exact ih fails

/-! ## Dispatches and steps -/

namespace Descent

variable {scan found : Scan} {events : List Event} {outcome : Except ParseError Scan}

/-- A dispatch is where the scan takes a step. -/
theorem exists_reached_of_dispatched {pos : Nat} (descent : Descent scan events outcome)
    (dispatched : pos ∈ dispatches events) :
    ∃ found, Relation.ReflTransGen Move scan found ∧ found.pos = pos ∧ found.unread ≠ [] := by
  induction descent with
  | endOfText => simp at dispatched
  | closing unreadEq | refused unreadEq =>
      obtain rfl : pos = _ := by simpa using dispatched
      exact ⟨_, .refl, rfl, by simp [unreadEq]⟩
  | atom unreadEq _ move _ ih | calleeRefused unreadEq _ move _ ih | bar unreadEq move _ ih
  | unclosed unreadEq move _ _ ih | groupQuantifier unreadEq move _ _ _ ih =>
      simp only [dispatches_dispatch, dispatches_enter, dispatches_append, dispatches_leave,
        dispatches_nil, List.append_nil, List.mem_cons] at dispatched
      rcases dispatched with rfl | dispatched
      · exact ⟨_, .refl, rfl, by simp [unreadEq]⟩
      · obtain ⟨found, reached, foundAt⟩ := ih dispatched
        exact ⟨found, .head move reached, foundAt⟩
  | group opening entered called _ closed _ bodyIh restIh =>
      simp only [dispatches_dispatch, dispatches_enter, dispatches_append, List.mem_cons,
        List.mem_append] at dispatched
      rcases dispatched with rfl | dispatched | dispatched
      · exact ⟨_, .refl, rfl, by simp [opening]⟩
      · obtain ⟨found, reached, foundAt⟩ := bodyIh dispatched
        exact ⟨found, .head entered reached, foundAt⟩
      · obtain ⟨found, reached, foundAt⟩ := restIh dispatched
        have afterBody := (called.reached rfl).trans (.head closed reached)
        exact ⟨found, .head entered afterBody, foundAt⟩

/-- Where the scan takes a step there is a dispatch, unless the step comes after the end of the
descent. -/
theorem dispatched_of_reached (descent : Descent scan events outcome)
    (reached : Relation.ReflTransGen Move scan found) (unread : found.unread ≠ []) :
    found.pos ∈ dispatches events ∨ ∃ last next, outcome = .ok last ∧ Move last next ∧
      Relation.ReflTransGen Move next found := by
  induction descent with
  | endOfText unreadEq =>
      rcases reached.cases_head with rfl | ⟨next, move, _⟩
      · exact absurd unreadEq unread
      · exact absurd move (not_move_of_unread_nil unreadEq)
  | closing unreadEq =>
      rcases reached.cases_head with rfl | ⟨next, move, reached⟩
      · simp
      · exact .inr ⟨_, next, rfl, move, reached⟩
  | refused _ _ refused =>
      rcases reached.cases_head with rfl | ⟨next, move, _⟩
      · simp
      · exact absurd move (not_move_of_refused refused)
  | atom _ _ taken _ ih | calleeRefused _ _ taken _ ih | bar _ taken _ ih =>
      rcases reached.cases_head with rfl | ⟨next, move, reached⟩
      · simp
      · obtain rfl := taken.unique move
        refine (ih reached).imp (fun dispatched => ?_) id
        simp [dispatched]
  | unclosed _ entered _ ended ih =>
      rcases reached.cases_head with rfl | ⟨body, move, reached⟩
      · simp
      · obtain rfl := entered.unique move
        rcases ih reached with dispatched | ⟨last, next, lastEq, beyond, _⟩
        · simp [dispatched]
        · cases lastEq
          exact absurd beyond (not_move_of_unread_nil ended)
  | groupQuantifier _ entered _ _ refused ih =>
      rcases reached.cases_head with rfl | ⟨body, move, reached⟩
      · simp
      · obtain rfl := entered.unique move
        rcases ih reached with dispatched | ⟨last, next, lastEq, beyond, _⟩
        · simp [dispatched]
        · cases lastEq
          exact absurd beyond (not_move_of_refused refused)
  | group _ entered _ _ closed _ bodyIh restIh =>
      rcases reached.cases_head with rfl | ⟨body, move, reached⟩
      · simp
      · obtain rfl := entered.unique move
        rcases bodyIh reached with dispatched | ⟨last, next, lastEq, beyond, reached⟩
        · simp [dispatched]
        · cases lastEq
          obtain rfl := closed.unique beyond
          refine (restIh reached).imp (fun dispatched => ?_) id
          simp [dispatched]

/-- In the descent of a text the dispatches are the steps of the scan. -/
theorem mem_dispatches_iff {pos : Nat} (outermost : scan.enclosing = [])
    (descent : Descent scan events outcome) :
    pos ∈ dispatches events ↔
      ∃ found, Relation.ReflTransGen Move scan found ∧ found.pos = pos ∧ found.unread ≠ [] := by
  refine ⟨descent.exists_reached_of_dispatched, ?_⟩
  rintro ⟨found, reached, rfl, unread⟩
  rcases descent.dispatched_of_reached reached unread with dispatched | ⟨last, next, rfl, move, _⟩
  · exact dispatched
  · -- Nothing is open in which the descent could have ended early.
    have lastOutermost := ((descent.call rfl 0).enclosing_eq).trans outermost
    obtain ⟨head, tail, unreadEq, _⟩ := step_of_move move
    obtain rfl : head = ')' := by simpa [unreadEq] using descent.ends rfl
    exact absurd move (not_move_of_refused (.unmatched unreadEq lastOutermost))

end Descent

/-! ## The reading of a pattern -/

/-- The pattern whose outermost sequence has been read as far as `last`.  It must be all of
the text. -/
def conclude (options : LimitOptions) (last : Scan) : Except ParseError Pattern :=
  if last.unread.isEmpty then
    .ok { pieces := last.draft.finish, groupCount := last.groupCount, limits := options.resolve }
  else .error ⟨last.pos, .unmatchedParenthesis⟩

/-- The reading of a pattern is what a descent comes to. -/
theorem Descent.parse_eq {text : String} {events : List Event}
    {outcome : Except ParseError Scan}
    (descent : Descent { unread := text.toList } events outcome) (options : LimitOptions) :
    Pattern.parse options text = outcome.bind (conclude options) := by
  cases outcome with
  | error error =>
      have failed := descent.run_bind_finish rfl
      rw [Pattern.parse]
      cases ran : Scan.run { unread := text.toList } with
      | error found =>
          rw [ran] at failed
          cases failed
          rfl
      | ok last =>
          rw [ran] at failed
          have unfinished : last.finish = .error error := failed
          simp only [unfinished]
          rfl
  | ok last =>
      have ran := run_of_reached (descent.reached rfl)
      have ends := descent.ends rfl
      have outermost := (descent.call rfl 0).enclosing_eq
      simp only [Except.bind, conclude]
      cases unreadEq : last.unread with
      | nil =>
          rw [run_of_unread_nil unreadEq] at ran
          exact Pattern.parse_eq_ok_iff.mpr ⟨last, ran, outermost, rfl⟩
      | cons head rest =>
          obtain rfl : head = ')' := by simpa [unreadEq] using ends
          rw [run_of_refused (.unmatched unreadEq outermost)] at ran
          exact Pattern.parse_eq_error_iff.mpr (.inl ran)

end Scan

end PatternTree
