import PatternTree.Error
import PatternTree.Text

/-!
# Opening a group

A group opens with a parenthesis, and a question mark after it gives the group
a kind: one that captures nothing, one with a name, or one that is refused.
-/

namespace PatternTree.Opening

/-- Read what stands between the parenthesis at `start` and the body of the
group.  A group captures under the name that it gives or, with no question mark,
under its number; the answer is the number or name, if there is one. -/
def read (start number : Nat) : List Char → Except ParseError (Span (Option String))
  | '?' :: ':' :: _ => .ok ⟨none, 2⟩
  | '?' :: '=' :: _ | '?' :: '!' :: _ => .error ⟨start + 1, .lookahead⟩
  | '?' :: '<' :: '=' :: _ | '?' :: '<' :: '!' :: _ => .error ⟨start + 1, .lookbehind⟩
  | '?' :: '<' :: text =>
      match Text.enclosed? '>' text with
      | some name => .ok ⟨some (.ofList name), name.length + 3⟩
      | none => .error ⟨start + 1, .unterminatedGroupName⟩
  | '?' :: modifier :: _ => .error ⟨start + 1, .groupModifier modifier⟩
  | ['?'] => .error ⟨start, .unclosedGroup⟩
  | _ => .ok ⟨some (toString number), 0⟩

/-- What opens a group lies inside the text. -/
theorem length_le_of_read {start number : Nat} {text : List Char}
    {span : Span (Option String)} (opened : read start number text = .ok span) :
    span.length ≤ text.length := by
  simp only [read] at opened
  split at opened
  · cases opened
    simp
  · cases opened
  · cases opened
  · cases opened
  · cases opened
  · next rest _ _ =>
      split at opened
      · next name found =>
          cases opened
          have inside := Text.length_lt_of_enclosed? found
          simp only [List.length_cons]
          omega
      · cases opened
  · cases opened
  · cases opened
  · cases opened
    simp

end PatternTree.Opening
