import PatternTree.Error
import PatternTree.Quantifier.Basic
import PatternTree.Text

/-!
# Reading quantifiers

Text in braces is a quantifier only if it has the form of one, with at least one
number and no number beyond a word.  Any other brace is an ordinary character,
so a reader of braces that finds none takes nothing and leaves no error.
-/

namespace PatternTree

/-- The bound that a run of decimal digits writes.  No digits write no bound,
and too great a number is refused. -/
def Braces.bound? : List Char → Option (Option Count)
  | [] => some none
  | digits => (Count.ofDigits? digits).map some

/-- Read the content of braces and the closing brace, after an opening brace.
There is either a single number, or a comma with a number on one side of it at
least. -/
def Braces.read? (text : List Char) : Option (Span Braces) :=
  let low := text.takeWhile Char.isDigit
  match text.dropWhile Char.isDigit with
  | '\x7d' :: _ =>
      match bound? low with
      | some (some min) => some ⟨⟨some min, false, none⟩, low.length + 1⟩
      | _ => none
  | ',' :: afterComma =>
      let high := afterComma.takeWhile Char.isDigit
      match afterComma.dropWhile Char.isDigit, bound? low, bound? high with
      | '\x7d' :: _, some min, some max =>
          if min.isNone && max.isNone then none
          else some ⟨⟨min, true, max⟩, low.length + high.length + 2⟩
      | _, _, _ => none
  | _ => none

/-- The bounds of the braces, if they stand in the wrong order. -/
def Braces.inverted? (braces : Braces) : Option (Count × Count) :=
  match braces.min, braces.max with
  | some min, some max => if max < min then some (min, max) else none
  | _, _ => none

/-- Read the quantifier at the front of the text at `pos`.  Bounds in the wrong
order would repeat nothing and are refused. -/
def Quantifier.read (pos : Nat) : List Char → Except ParseError (Span Quantifier)
  | '*' :: _ => .ok ⟨.star, 1⟩
  | '+' :: _ => .ok ⟨.plus, 1⟩
  | '?' :: _ => .ok ⟨.optional, 1⟩
  | '\x7b' :: text =>
      match Braces.read? text with
      | none => .ok ⟨.once, 0⟩
      | some ⟨bounds, length⟩ =>
          match bounds.inverted? with
          | some (min, max) => .error ⟨pos, .invertedRange min max⟩
          | none => .ok ⟨.braces bounds, length + 1⟩
  | _ => .ok ⟨.once, 0⟩

/-- How many characters a reluctant or possessive marker takes.  Such a marker
changes how a match is sought and not what matches. -/
def Quantifier.markerLength : List Char → Nat
  | '?' :: _ | '+' :: _ => 1
  | _ => 0

/-! ## Extent -/

/-- Braces that make a quantifier lie inside the text, the closing one
included. -/
theorem Braces.length_le_of_read? {text : List Char} {span : Span Braces}
    (found : Braces.read? text = some span) : span.length ≤ text.length := by
  have lowLength := congrArg List.length
    (List.takeWhile_append_dropWhile (p := Char.isDigit) (l := text))
  rw [List.length_append] at lowLength
  simp only [Braces.read?] at found
  split at found
  · next closed =>
      rw [closed, List.length_cons] at lowLength
      split at found
      · cases found
        simp only
        omega
      · cases found
  · next afterComma separated =>
      rw [separated, List.length_cons] at lowLength
      have highLength := congrArg List.length
        (List.takeWhile_append_dropWhile (p := Char.isDigit) (l := afterComma))
      rw [List.length_append] at highLength
      split at found
      · next closed _ _ =>
          rw [closed, List.length_cons] at highLength
          split at found
          · cases found
          · cases found
            simp only
            omega
      · cases found
  · cases found

theorem Quantifier.length_le_of_read {pos : Nat} {text : List Char} {span : Span Quantifier}
    (found : Quantifier.read pos text = .ok span) : span.length ≤ text.length := by
  simp only [Quantifier.read] at found
  split at found
  · cases found
    simp
  · cases found
    simp
  · cases found
    simp
  · split at found
    · cases found
      simp
    · next bounds length read =>
        split at found
        · cases found
        · cases found
          have inside := Braces.length_le_of_read? read
          simpa using inside
  · cases found
    simp

theorem Quantifier.markerLength_le (text : List Char) :
    Quantifier.markerLength text ≤ text.length := by
  cases text with
  | nil => simp [Quantifier.markerLength]
  | cons head tail =>
      simp only [Quantifier.markerLength]
      split <;> simp

end PatternTree
