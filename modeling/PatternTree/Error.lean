import PatternTree.Count

/-!
# Why a pattern is refused

A refusal names its cause and the position of the text that is to blame.  The
causes fall into three kinds: some constructs describe no regular language, so
no finite tree of pieces stands for them; some could be read and are not; and
some texts are no pattern at all.
-/

namespace PatternTree

/-- The cause of a refusal. -/
inductive Fault where
  | anchor
  | lookahead
  | lookbehind
  | posixBracket
  | namedProperty (name : String)
  | subexpressionCall
  | groupModifier (modifier : Char)
  | unterminatedClass
  | unclosedGroup
  | unmatchedParenthesis
  | trailingBackslash
  | unterminatedGroupName
  | invalidScalar (value : Nat)
  | invertedRange (min max : Count)
  | tooDeep
  deriving DecidableEq, Repr

/-- The kinds of causes. -/
inductive Fault.Kind where
  /-- The construct describes no regular language. -/
  | irregular
  /-- The construct is regular but is not read. -/
  | unsupported
  /-- The text is no pattern. -/
  | malformed
  deriving DecidableEq, Repr

namespace Fault

/-- The kind of a cause. -/
def kind : Fault → Kind
  | .anchor | .lookahead | .lookbehind => .irregular
  | .posixBracket | .namedProperty _ | .subexpressionCall | .groupModifier _ => .unsupported
  | .unterminatedClass | .unclosedGroup | .unmatchedParenthesis | .trailingBackslash
  | .unterminatedGroupName | .invalidScalar _ | .invertedRange _ _ | .tooDeep => .malformed

/-- The wording of a cause.  Scalar values are written in hexadecimal. -/
def message : Fault → String
  | .anchor => "anchors cannot be supported, as they are not regular"
  | .lookahead => "lookaheads are not regular; cannot generate examples"
  | .lookbehind => "lookbehinds are not regular; cannot generate examples"
  | .posixBracket => "POSIX bracket expressions are not yet implemented"
  | .namedProperty name => s!"named properties (\\p\x7b{name}\x7d) are not yet supported"
  | .subexpressionCall => "subexpression calls (\\g) are not yet supported"
  | .groupModifier modifier => s!"group modifier '(?{modifier}' is not supported"
  | .unterminatedClass => "missing ']' for character class"
  | .unclosedGroup => "missing ')' for group"
  | .unmatchedParenthesis => "unmatched ')'"
  | .trailingBackslash => "pattern ends with '\\'"
  | .unterminatedGroupName => "missing '>' after group name"
  | .invalidScalar value =>
      let digits := String.ofList (Nat.toDigits 16 value)
      s!"invalid character scalar value 0x{digits}"
  | .invertedRange min max =>
      s!"repetition range \x7b{min},{max}\x7d has its maximum below its minimum"
  | .tooDeep => "groups and alternations nest too deeply"

end Fault

/-- A refusal: its cause, and the position of the text to blame, counted in
characters from the start of the pattern. -/
structure ParseError where
  pos : Nat
  fault : Fault
  deriving DecidableEq, Repr

/-- The wording of a refusal, which opens with the kind of its cause. -/
def ParseError.message (error : ParseError) : String :=
  let opening := match error.fault.kind with
    | .irregular => "illegal syntax"
    | .unsupported => "unsupported syntax"
    | .malformed => "malformed pattern"
  let position := toString error.pos
  let cause := error.fault.message
  s!"{opening} at {position}: {cause}"

/-- What is made from a result succeeds only where the result does. -/
theorem ParseError.exists_of_map_eq_ok {α β : Type} {image : α → β}
    {result : Except ParseError α} {value : β} (mapped : result.map image = .ok value) :
    ∃ found, result = .ok found ∧ image found = value := by
  cases result with
  | error error => cases mapped
  | ok found =>
      cases mapped
      exact ⟨found, rfl, rfl⟩

theorem ParseError.eq_error_of_map_eq_error {α β : Type} {image : α → β}
    {result : Except ParseError α} {error : ParseError}
    (mapped : result.map image = .error error) : result = .error error := by
  cases result with
  | error found =>
      cases mapped
      rfl
  | ok found => cases mapped

end PatternTree
