import PatternTree.Scan

/-!
# The outline of a text

Whether an unadorned text is a pattern can be told place by place.  All that
counts at a place is what is open there, which its outline keeps as a list of
marks: one for each group that is not closed, and one for each bar of a sequence
that has not ended.

`Outline.refusal?` looks at the places in order and names the first obstacle.
`refusal?_eq_sweep?` turns it into a single pass that carries the marks along.
-/

namespace PatternTree

namespace Outline

/-- What is open at a place of a text. -/
inductive Mark where
  /-- A group, with the place of its parenthesis. -/
  | group (start : Nat)
  /-- An alternative that a bar has begun. -/
  | alternative
  deriving DecidableEq, Repr

/-- The place of the parenthesis, if the mark is a group. -/
def Mark.start? : Mark → Option Nat
  | .group start => some start
  | .alternative => none

/-- Where the innermost group begins.  The latest mark comes first. -/
def innermost? (marks : List Mark) : Option Nat :=
  marks.findSome? Mark.start?

/-- The marks that are left when the innermost group closes: its alternatives
end with it. -/
def close : List Mark → List Mark
  | [] => []
  | .group _ :: outer => outer
  | .alternative :: rest => close rest

/-- The marks after the character at `pos`. -/
def track (marks : List Mark) (pos : Nat) : Char → List Mark
  | '(' => .group pos :: marks
  | '|' => .alternative :: marks
  | ')' => close marks
  | _ => marks

/-- The marks after a text. -/
def marksAfter (text : List Char) : List Mark :=
  text.zipIdx.foldl (fun marks entry => track marks entry.2 entry.1) []

/-- What is wrong with the text at `pos` after an opening parenthesis. -/
def modifier? (pos : Nat) : List Char → Option ParseError
  | '?' :: ':' :: _ => none
  | '?' :: '=' :: _ | '?' :: '!' :: _ => some ⟨pos, .lookahead⟩
  | '?' :: modifier :: _ => some ⟨pos, .groupModifier modifier⟩
  | _ => none

/-- What is wrong with a character at `pos` that comes before `tail`, where
`marks` are open. -/
def obstacle? (marks : List Mark) (pos : Nat) (head : Char) (tail : List Char) :
    Option ParseError :=
  match head with
  | '^' | 'A' => if pos = 0 then none else some ⟨pos, .anchor⟩
  | '$' | 'z' | 'Z' => if tail = [] then none else some ⟨pos, .anchor⟩
  | '(' => if 128 ≤ marks.length then some ⟨pos, .tooDeep⟩ else modifier? (pos + 1) tail
  | '|' => if 128 ≤ marks.length then some ⟨pos, .tooDeep⟩ else none
  | ')' => if innermost? marks = none then some ⟨pos, .unmatchedParenthesis⟩ else none
  | _ => none

/-- What is wrong with the text at its place `pos`. -/
def violation? (text : List Char) (pos : Nat) : Option ParseError :=
  match text.drop pos with
  | [] => none
  | head :: tail => obstacle? (marksAfter (text.take pos)) pos head tail

/-- What is wrong when the text ends where `marks` are open. -/
def unclosed? (marks : List Mark) : Option ParseError :=
  (innermost? marks).map (⟨·, .unclosedGroup⟩)

/-- Why the text is refused: for the first obstacle in it, or for the last group
that it leaves open. -/
def refusal? (text : List Char) : Option ParseError :=
  ((List.range text.length).findSome? (violation? text)).or (unclosed? (marksAfter text))

/-! ## Marks -/

@[simp] theorem innermost?_group (start : Nat) (rest : List Mark) :
    innermost? (.group start :: rest) = some start := rfl

@[simp] theorem innermost?_alternatives (count : Nat) (rest : List Mark) :
    innermost? (List.replicate count .alternative ++ rest) = innermost? rest := by
  induction count with
  | zero => rfl
  | succ count ih => exact ih

@[simp] theorem close_alternatives (count : Nat) (rest : List Mark) :
    close (List.replicate count .alternative ++ rest) = close rest := by
  induction count with
  | zero => rfl
  | succ count ih => exact ih

theorem marksAfter_concat (before : List Char) (c : Char) :
    marksAfter (before ++ [c]) = track (marksAfter before) before.length c := by
  simp [marksAfter, List.zipIdx_append]

/-! ## One pass -/

/-- Why a text is refused whose part from `pos` on is still to be looked at,
where `marks` are open. -/
def sweep? (marks : List Mark) (pos : Nat) : List Char → Option ParseError
  | [] => unclosed? marks
  | head :: tail =>
      (obstacle? marks pos head tail).or (sweep? (track marks pos head) (pos + 1) tail)

theorem violation?_length {text before tail : List Char} {head : Char}
    (textEq : text = before ++ head :: tail) :
    violation? text before.length = obstacle? (marksAfter before) before.length head tail := by
  rw [violation?, textEq, List.drop_left, List.take_left]

theorem sweep?_eq_or {text before after : List Char} (textEq : text = before ++ after) :
    sweep? (marksAfter before) before.length after =
      ((List.range' before.length after.length).findSome? (violation? text)).or
        (unclosed? (marksAfter text)) := by
  induction after generalizing before with
  | nil =>
      rw [textEq, List.append_nil]
      rfl
  | cons head tail ih =>
      have later := @ih (before ++ [head]) (by simp [textEq])
      rw [marksAfter_concat, List.length_append, List.length_singleton] at later
      rw [sweep?, later, List.length_cons, List.range'_succ, List.findSome?_cons,
        violation?_length textEq]
      cases obstacle? (marksAfter before) before.length head tail with
      | none => rfl
      | some error => rfl

theorem refusal?_eq_sweep? (text : List Char) : refusal? text = sweep? [] 0 text := by
  have swept := sweep?_eq_or (List.nil_append text).symm
  rw [refusal?, List.range_eq_range']
  exact swept.symm

/-! ## Characters that leave the marks alone -/

/-- Whether a character can be an obstacle or change the marks. -/
def isMarked (c : Char) : Bool :=
  c ∈ ['^', 'A', '$', 'z', 'Z', '(', '|', ')']

theorem sweep?_append_of_unmarked {chunk : List Char}
    (unmarked : ∀ c ∈ chunk, isMarked c = false) (marks : List Mark) (pos : Nat)
    (rest : List Char) :
    sweep? marks pos (chunk ++ rest) = sweep? marks (pos + chunk.length) rest := by
  induction chunk generalizing pos with
  | nil => rfl
  | cons head tail ih =>
      rw [List.forall_mem_cons] at unmarked
      have headUnmarked := unmarked.1
      simp only [isMarked, List.mem_cons, List.not_mem_nil, or_false, not_or,
        decide_eq_false_iff_not] at headUnmarked
      have noObstacle : obstacle? marks pos head (tail ++ rest) = none := by
        simp [obstacle?, headUnmarked]
      have marksEq : track marks pos head = marks := by
        simp [track, headUnmarked]
      rw [List.cons_append, sweep?, noObstacle, marksEq, Option.none_or, ih unmarked.2,
        List.length_cons, Nat.add_assoc, Nat.add_comm 1]

/-- Characters that leave the marks alone are passed over. -/
theorem sweep?_drop_of_unmarked {text : List Char} {count : Nat} (inside : count ≤ text.length)
    (unmarked : ∀ c ∈ text.take count, isMarked c = false) (marks : List Mark) (pos : Nat) :
    sweep? marks pos text = sweep? marks (pos + count) (text.drop count) := by
  have swept := sweep?_append_of_unmarked unmarked marks pos (text.drop count)
  rwa [List.take_append_drop, List.length_take, Nat.min_eq_left inside] at swept

end Outline

end PatternTree
