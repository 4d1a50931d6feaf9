import PatternTree.Pattern
import PatternTree.Proofs.Guarded.Atom
import PatternTree.Proofs.Guarded.Quantifier

/-!
# Patterns under guard

A pattern is read by two calls that make each other.  One reads a sequence, and asks the other for
each construct in it; the other reads a construct, and asks the first for what a parenthesis or a
bar opens.  All that they share is a position and two counters.

The calls are not told that they come to an end.  A position that has not moved is one more lapse,
and with this guard the text that is left decides the recursion.
-/

namespace PatternTree.Guarded

/-- What the calls share. -/
structure Reader where
  pos : Nat := 0
  /-- How many groups have been opened, closed or not. -/
  groupCount : Nat := 0
  /-- How many calls have been entered and not left. -/
  depth : Nat := 0
  deriving DecidableEq, Repr

/-- Count a call for a group or for the text after a bar. -/
def Reader.enter (reader : Reader) : Guarded Reader :=
  if nestingLimit ≤ reader.depth then .error (.refusal ⟨reader.pos, .tooDeep⟩)
  else .ok { reader with depth := reader.depth + 1 }

/-- Count the end of such a call. -/
def Reader.leave (reader : Reader) : Guarded Reader :=
  if reader.depth = 0 then .error (.lapse .notEntered)
  else .ok { reader with depth := reader.depth - 1 }

/-- What stands where a construct may begin. -/
inductive Found where
  | atom (atom : Atom)
  /-- A bar, with what its sequence has before it and what comes after it. -/
  | choice (left right : Sequence)
  /-- The end of a sequence, which is left to the caller. -/
  | closing
  deriving DecidableEq

/-- Enter the group whose parenthesis stands at the position of the reader. -/
def openGroup (text : List Char) (reader : Reader) : Guarded (Option String × Reader) := do
  let entered ← reader.enter
  let (id, body) ← opening text reader.pos (reader.groupCount + 1)
  pure (id, ⟨body, reader.groupCount + 1, entered.depth⟩)

/-- Leave the group that was entered at `start`, where its sequence has ended. -/
def closeGroup (text : List Char) (start : Nat) (id : Option String) (content : Sequence)
    (reader : Reader) : Guarded (Found × Reader) := do
  if text[reader.pos]? = some ')' then
    let left ← reader.leave
    pure (.atom (.group id content), left)
  else .error (.refusal ⟨start, .unclosedGroup⟩)

/-- Enter the text after the bar at the position of the reader. -/
def openAlternative (text : List Char) (reader : Reader) : Guarded Reader := do
  let entered ← reader.enter
  let next ← advance text reader.pos 1
  pure { entered with pos := next }

/-- Move from the last character of an atom past its quantifier. -/
def complete (text : List Char) (pos : Nat) (atom : Atom) : Guarded (Piece × Nat) := do
  let next ← advance text pos 1
  quantified text next atom

/-- Add a piece to a sequence.  A bare boundary leaves none. -/
def add (pieces : Sequence) : Piece → Sequence
  | ⟨.once, .boundary⟩ => pieces
  | piece => pieces ++ [piece]

/-- A position further on in a text, or at its end. -/
def Further (text : List Char) (pos next : Nat) : Prop :=
  pos < next ∧ next ≤ text.length

instance (text : List Char) (pos next : Nat) : Decidable (Further text pos next) :=
  inferInstanceAs (Decidable (_ ∧ _))

/-- From a position further on, less of the text is left. -/
theorem Further.remaining_lt {text : List Char} {pos next : Nat} (further : Further text pos next) :
    text.length - next < text.length - pos :=
  Nat.sub_lt_sub_left (Nat.lt_of_lt_of_le further.1 further.2) further.1

mutual

/-- Read the sequence that has begun with `pieces`. -/
def sequence (text : List Char) (reader : Reader) (pieces : Sequence) :
    Guarded (Sequence × Reader) :=
  match text[reader.pos]? with
  | none => pure (pieces, reader)
  | some c => do
      let (found, last) ← construct text reader c pieces
      match found with
      | .closing => pure (pieces, last)
      | .choice left right => pure ([⟨.once, .either left right⟩], last)
      | .atom atom =>
          let (piece, next) ← complete text last.pos atom
          if _ : Further text reader.pos next then
            sequence text { last with pos := next } (add pieces piece)
          else .error (.lapse .standstill)
termination_by (text.length - reader.pos, 1)
decreasing_by
  · exact Prod.Lex.right _ (Nat.zero_lt_one)
  · exact Prod.Lex.left _ _ (Further.remaining_lt ‹_›)

/-- Read the construct that begins with `c`, in a sequence that has begun with `pieces`. -/
def construct (text : List Char) (reader : Reader) (c : Char) (pieces : Sequence) :
    Guarded (Found × Reader) :=
  match c with
  | '(' => do
      let (id, body) ← openGroup text reader
      if _ : Further text reader.pos body.pos then
        let (content, last) ← sequence text body []
        closeGroup text reader.pos id content last
      else .error (.lapse .standstill)
  | ')' => pure (.closing, reader)
  | '|' => do
      let next ← openAlternative text reader
      if _ : Further text reader.pos next.pos then
        let (right, last) ← sequence text next []
        let left ← last.leave
        pure (.choice pieces right, left)
      else .error (.lapse .standstill)
  | _ => do
      let (atom, stop) ← leaf text reader.pos c
      pure (.atom atom, { reader with pos := stop })
termination_by (text.length - reader.pos, 0)
decreasing_by all_goals exact Prod.Lex.left _ _ (Further.remaining_lt ‹_›)

end

/-- Read a pattern. -/
def parse (options : LimitOptions) (text : String) : Guarded Pattern := do
  let (pieces, last) ← sequence text.toList {} []
  if last.pos < text.toList.length then .error (.refusal ⟨last.pos, .unmatchedParenthesis⟩)
  else pure { pieces, groupCount := last.groupCount, limits := options.resolve }

/-! ## Sequences -/

section

variable {text tail : List Char} {reader last : Reader} {c : Char} {pieces : Sequence}

theorem sequence_of_end (ended : text.drop reader.pos = []) (pieces : Sequence) :
    sequence text reader pieces = .ok (pieces, reader) := by
  have none : text[reader.pos]? = none := by rw [← List.head?_drop, ended, List.head?_nil]
  rw [sequence, none]
  rfl

theorem sequence_of_closing (closing : text.drop reader.pos = ')' :: tail) (pieces : Sequence) :
    sequence text reader pieces = .ok (pieces, reader) := by
  have some := Text.getElem?_of_drop closing
  have found : construct text reader ')' pieces = .ok (.closing, reader) := by
    rw [construct]
    rfl
  rw [sequence, some]
  simp only [found, ok_bind, pure_eq_ok]

/-- A sequence stops where a construct in it does. -/
theorem sequence_of_halt (here : text.drop reader.pos = c :: tail) {halt : Halt}
    (halted : construct text reader c pieces = .error halt) :
    sequence text reader pieces = .error halt := by
  have some := Text.getElem?_of_drop here
  rw [sequence, some]
  simp only [halted, error_bind]

theorem sequence_of_choice (here : text.drop reader.pos = c :: tail) {left right : Sequence}
    (found : construct text reader c pieces = .ok (.choice left right, last)) :
    sequence text reader pieces = .ok ([⟨.once, .either left right⟩], last) := by
  have some := Text.getElem?_of_drop here
  rw [sequence, some]
  simp only [found, ok_bind, pure_eq_ok]

/-- A bar leads to a choice if to anything. -/
theorem construct_bar_ne_atom {atom : Atom} :
    construct text reader '|' pieces ≠ .ok (.atom atom, last) := by
  intro found
  rw [construct] at found
  obtain ⟨next, _, called⟩ := exists_of_bind_eq_ok found
  split at called
  · obtain ⟨_, _, ended⟩ := exists_of_bind_eq_ok called
    obtain ⟨_, _, left⟩ := exists_of_bind_eq_ok ended
    cases left
  · cases called

theorem sequence_of_unquantified (here : text.drop reader.pos = c :: tail) {atom : Atom}
    {halt : Halt} (found : construct text reader c pieces = .ok (.atom atom, last))
    (halted : complete text last.pos atom = .error halt) :
    sequence text reader pieces = .error halt := by
  have some := Text.getElem?_of_drop here
  rw [sequence, some]
  simp only [found, halted, ok_bind, error_bind]

theorem sequence_of_atom (here : text.drop reader.pos = c :: tail) {atom : Atom} {piece : Piece}
    {next : Nat} (found : construct text reader c pieces = .ok (.atom atom, last))
    (completed : complete text last.pos atom = .ok (piece, next))
    (further : Further text reader.pos next) :
    sequence text reader pieces = sequence text { last with pos := next } (add pieces piece) := by
  have some := Text.getElem?_of_drop here
  rw [sequence, some]
  simp only [found, completed, ok_bind, dif_pos further]

end

/-- The quantifier after the character at a position is read as it is without guard. -/
theorem complete_eq {text : List Char} {pos : Nat} (inside : pos < text.length) (atom : Atom) :
    complete text pos atom =
      lift ((Piece.read atom (pos + 1) (text.drop (pos + 1))).map
        fun span => (span.value, pos + 1 + span.length)) := by
  have advanced : advance text pos 1 = .ok (pos + 1) := advance_of_le inside
  simp only [complete, advanced, ok_bind, quantified_eq]

theorem pieces_push (draft : Draft) (piece : Piece) :
    (draft.push piece).pieces.reverse = add draft.pieces.reverse piece := by
  unfold Draft.push add
  split <;> simp

end PatternTree.Guarded
