import PatternTree.CharClass.Members
import PatternTree.Error
import PatternTree.Text

/-!
# Bracket expressions

A bracket expression runs to the first closing bracket that is not escaped, and
a closing bracket right after the opening one is a member.  Between the two,
nothing has the meaning that it has elsewhere in a pattern.

A bracket is escaped when the run of backslashes just before it is odd, since
each backslash of an even run is the partner of another.
-/

namespace PatternTree.CharClass

/-- How many characters stand before the first closing bracket that is not
escaped.  A run of `slashes` backslashes stands just before the text. -/
def lengthToClose? (slashes : Nat) : List Char → Option Nat
  | [] => none
  | c :: rest =>
      if c = ']' ∧ slashes % 2 = 0 then some 0
      else (lengthToClose? (if c = '\\' then slashes + 1 else 0) rest).map (· + 1)

/-- The length of the text between the brackets, after the opening one. -/
def contentLength? : List Char → Option Nat
  | ']' :: rest => (lengthToClose? 0 rest).map (· + 1)
  | text => lengthToClose? 0 text

/-- Whether a text after an opening bracket begins with a named set such as
`[:alpha:]`. -/
def startsNamedSet : List Char → Bool
  | '[' :: ':' :: text =>
      match text.takeWhile (· != ':'), text.dropWhile (· != ':') with
      | _ :: _, ':' :: ']' :: _ => true
      | _, _ => false
  | _ => false

theorem startsNamedSet_iff {text : List Char} :
    startsNamedSet text = true ↔
      ∃ name rest, name ≠ [] ∧ ':' ∉ name ∧
        text = '[' :: ':' :: (name ++ ':' :: ']' :: rest) := by
  constructor
  · intro starts
    simp only [startsNamedSet] at starts
    split at starts
    · next tail =>
        split at starts
        · next head more rest taken dropped =>
            refine ⟨head :: more, rest, by simp, taken ▸ Text.not_mem_takeWhile_ne ':' tail, ?_⟩
            rw [← taken, ← dropped, List.takeWhile_append_dropWhile]
        · simp at starts
    · simp at starts
  · rintro ⟨name, rest, nonempty, absent, rfl⟩
    simp only [startsNamedSet]
    rw [Text.takeWhile_ne_append absent, Text.dropWhile_ne_append absent]
    cases name with
    | nil => exact absurd rfl nonempty
    | cons head tail => rfl

/-- Read the class of the bracket expression at `pos`, whose text follows the
opening bracket. -/
def read (pos : Nat) (text : List Char) : Except ParseError (Span CharClass) :=
  if startsNamedSet text then .error ⟨pos, .posixBracket⟩
  else
    match contentLength? text with
    | none => .error ⟨pos, .unterminatedClass⟩
    | some length => .ok ⟨ofMembers (text.take length), length + 1⟩

/-- A closing bracket lies inside the text that it was looked for in. -/
theorem lt_length_of_lengthToClose? {slashes : Nat} {text : List Char} {length : Nat}
    (found : lengthToClose? slashes text = some length) : length < text.length := by
  induction text generalizing slashes length with
  | nil => simp [lengthToClose?] at found
  | cons c rest ih =>
      simp only [lengthToClose?] at found
      split at found
      · cases found
        simp
      · obtain ⟨inner, innerFound, rfl⟩ := Option.map_eq_some_iff.mp found
        simpa using ih innerFound

theorem lt_length_of_contentLength? {text : List Char} {length : Nat}
    (found : contentLength? text = some length) : length < text.length := by
  simp only [contentLength?] at found
  split at found
  · obtain ⟨inner, innerFound, rfl⟩ := Option.map_eq_some_iff.mp found
    simpa using lt_length_of_lengthToClose? innerFound
  · exact lt_length_of_lengthToClose? found

/-- A bracket expression lies inside the text, its closing bracket included. -/
theorem length_le_of_read {pos : Nat} {text : List Char} {span : Span CharClass}
    (found : read pos text = .ok span) : span.length ≤ text.length := by
  simp only [read] at found
  split at found
  · cases found
  · split at found
    · cases found
    · next length closed =>
        cases found
        exact lt_length_of_contentLength? closed

end PatternTree.CharClass
