import PatternTree.Anchor
import PatternTree.CharClass.Shorthand
import PatternTree.Text

/-!
# Escapes

What a backslash begins is read in two steps.  Its form is found first, from
the text alone, and every text has one: where no longer form fits, the first
character stands for itself.  What a form means can depend on its place in the
pattern, and some forms have no meaning in a tree.
-/

namespace PatternTree

/-- The form of the text after a backslash. -/
inductive Escape where
  /-- A group by number or name. -/
  | reference (id : String)
  | shorthand (cls : CharClass)
  /-- A character by its code point. -/
  | code (value : Nat)
  | property (name : String)
  | call
  | anchor (place : Anchor)
  | literal (c : Char)
  deriving DecidableEq, Repr

namespace Escape

/-- The escapes that carry a name in brackets. -/
def named? : Char → List Char → Option (Span Escape)
  | 'k', '<' :: text =>
      (Text.enclosed? '>' text).map fun name => ⟨.reference (.ofList name), name.length + 2⟩
  | 'p', '\x7b' :: text =>
      (Text.enclosed? '\x7d' text).map fun name => ⟨.property (.ofList name), name.length + 2⟩
  | _, _ => none

/-- The escapes that give a code point.  A control character is given by any
character with the same five low bits; the others write the number in
hexadecimal, with one or two digits, with four, or with up to four in braces. -/
def code? : Char → List Char → Option (Span Nat)
  | 'c', c :: _ => some ⟨c.toNat % 32, 1⟩
  | 'C', '-' :: c :: _ => some ⟨c.toNat % 32, 2⟩
  | 'x', text =>
      let digits := Text.hexRun 2 text
      if digits.isEmpty then none else some ⟨Text.hexValue digits, digits.length⟩
  | 'u', '\x7b' :: text =>
      let digits := Text.hexRun 4 text
      if !digits.isEmpty && (text.drop digits.length).head? == some '\x7d' then
        some ⟨Text.hexValue digits, digits.length + 2⟩
      else none
  | 'u', text =>
      let digits := Text.hexRun 4 text
      if digits.length = 4 then some ⟨Text.hexValue digits, 4⟩ else none
  | _, _ => none

/-- The escape that a character forms by itself. -/
def ofChar (key : Char) : Escape :=
  match CharClass.ofShorthand? key, Anchor.ofEscaped? key with
  | some cls, _ => .shorthand cls
  | none, some place => .anchor place
  | none, none => if key = 'g' then .call else .literal key

/-- The form of the escape whose first character after the backslash is `key`.
The length counts the characters after `key`. -/
def read (key : Char) (rest : List Char) : Span Escape :=
  if key.isDigit then
    let digits := rest.takeWhile Char.isDigit
    ⟨.reference (.ofList (key :: digits)), digits.length⟩
  else
    match named? key rest, code? key rest with
    | some span, _ => span
    | none, some span => span.map .code
    | none, none => ⟨ofChar key, 0⟩

/-- The atom of an escape whose first character after the backslash stands at
`pos`. -/
def atom (pos : Nat) (atEnd : Bool) : Escape → Except ParseError Atom
  | .reference id => .ok (.backReference id)
  | .shorthand cls => .ok (.oneOf cls)
  | .code value =>
      match Text.scalar? value with
      | some c => .ok (.literal c)
      | none => .error ⟨pos, .invalidScalar value⟩
  | .property name => .error ⟨pos, .namedProperty name⟩
  | .call => .error ⟨pos, .subexpressionCall⟩
  | .anchor place => place.atom pos (pos == 1) atEnd
  | .literal c => .ok (.literal c)

/-- Read the atom of the escape whose first character `key` stands at `pos`,
just after the backslash. -/
def decode (pos : Nat) (key : Char) (rest : List Char) : Except ParseError (Span Atom) :=
  let form := read key rest
  match form.value.atom pos rest.isEmpty with
  | .ok atom => .ok ⟨atom, form.length⟩
  | .error error => .error error

/-! ## Extent -/

theorem length_le_of_named? {key : Char} {rest : List Char} {span : Span Escape}
    (found : named? key rest = some span) : span.length ≤ rest.length := by
  simp only [named?] at found
  split at found
  · obtain ⟨name, nameFound, rfl⟩ := Option.map_eq_some_iff.mp found
    have inside := Text.length_lt_of_enclosed? nameFound
    simp only [List.length_cons]
    omega
  · obtain ⟨name, nameFound, rfl⟩ := Option.map_eq_some_iff.mp found
    have inside := Text.length_lt_of_enclosed? nameFound
    simp only [List.length_cons]
    omega
  · cases found

theorem length_le_of_code? {key : Char} {rest : List Char} {span : Span Nat}
    (found : code? key rest = some span) : span.length ≤ rest.length := by
  simp only [code?] at found
  split at found
  · cases found
    simp
  · cases found
    simp
  · split at found
    · cases found
    · cases found
      have inside := Text.length_hexRun_le 2 rest
      simp only
      omega
  · next text =>
      split at found
      · next closed =>
          cases found
          rw [Bool.and_eq_true, beq_iff_eq, List.head?_drop] at closed
          obtain ⟨inside, _⟩ := List.getElem?_eq_some_iff.mp closed.2
          simp only [List.length_cons]
          omega
      · cases found
  · split at found
    · cases found
      have inside := Text.length_hexRun_le 4 rest
      simp only
      omega
    · cases found
  · cases found

theorem length_read_le (key : Char) (rest : List Char) :
    (read key rest).length ≤ rest.length := by
  simp only [read]
  split
  · exact (List.takeWhile_prefix _).length_le
  · split
    · next found => exact length_le_of_named? found
    · next found => exact length_le_of_code? found
    · exact Nat.zero_le _

/-- An escape lies inside the text. -/
theorem length_le_of_decode {pos : Nat} {key : Char} {rest : List Char} {span : Span Atom}
    (decoded : decode pos key rest = .ok span) : span.length ≤ rest.length := by
  simp only [decode] at decoded
  split at decoded
  · cases decoded
    exact length_read_le key rest
  · cases decoded

end Escape

end PatternTree
