import PatternTree.Proofs.Tree.Extension
import PatternTree.Scan

/-!
# The text to blame

A refusal names a position, and the text around it shows what is wrong there.
`Fault.Grounds` says for each cause what the text before a position and the text
from it on have to be.  A construct of several characters is blamed at the first
of them or, where a mark of one character introduces it, right after the mark.

The lemmas `isGrounded_of_read` say that each reader refuses a text only on such
grounds.
-/

namespace PatternTree

/-- How many characters of a text open a group or an alternative, wherever they
stand. -/
def Text.openingCount (text : List Char) : Nat :=
  text.countP (· ∈ ['(', '|'])

/-- What stands before and after a position at which a refusal blames the text. -/
inductive Fault.Grounds : (before after : List Char) → Fault → Prop where
  /-- An anchor to the start of the pattern has something before it. -/
  | startAnchor {before rest : List Char} {c : Char} (mark : c ∈ ['^', 'A'])
      (late : before ≠ []) : Grounds before (c :: rest) .anchor
  /-- An anchor to the end of the pattern has something after it. -/
  | stopAnchor {before rest : List Char} {c : Char} (mark : c ∈ ['$', 'z', 'Z'])
      (early : rest ≠ []) : Grounds before (c :: rest) .anchor
  | innerAnchor {before rest : List Char} {c : Char} (mark : c ∈ ['G', 'b', 'B']) :
      Grounds (before ++ ['\\']) (c :: rest) .anchor
  | lookahead {before rest : List Char} {c : Char} (sign : c ∈ ['=', '!']) :
      Grounds (before ++ ['(']) ('?' :: c :: rest) .lookahead
  | lookbehind {before rest : List Char} {c : Char} (sign : c ∈ ['=', '!']) :
      Grounds (before ++ ['(']) ('?' :: '<' :: c :: rest) .lookbehind
  | groupModifier {before rest : List Char} {c : Char} (other : c ∉ [':', '=', '!', '<']) :
      Grounds (before ++ ['(']) ('?' :: c :: rest) (.groupModifier c)
  | posixBracket {before name rest : List Char} (nonempty : name ≠ []) (absent : ':' ∉ name) :
      Grounds before ('[' :: '[' :: ':' :: (name ++ ':' :: ']' :: rest)) .posixBracket
  | namedProperty {before name rest : List Char} (nonempty : name ≠ [])
      (absent : '\x7d' ∉ name) :
      Grounds (before ++ ['\\']) ('p' :: '\x7b' :: (name ++ '\x7d' :: rest))
        (.namedProperty (.ofList name))
  | subexpressionCall {before rest : List Char} :
      Grounds (before ++ ['\\']) ('g' :: rest) .subexpressionCall
  | unterminatedClass {before rest : List Char} : Grounds before ('[' :: rest) .unterminatedClass
  | unclosedGroup {before rest : List Char} : Grounds before ('(' :: rest) .unclosedGroup
  | unmatchedParenthesis {before rest : List Char} :
      Grounds before (')' :: rest) .unmatchedParenthesis
  | trailingBackslash {before : List Char} : Grounds before ['\\'] .trailingBackslash
  /-- The name of the group is empty or does not end. -/
  | unterminatedGroupName {before rest : List Char}
      (unnamed : '>' ∉ rest ∨ rest.head? = some '>') :
      Grounds (before ++ ['(']) ('?' :: '<' :: rest) .unterminatedGroupName
  /-- Four digits write a surrogate. -/
  | invalidScalar {before digits rest : List Char} {value : Nat}
      (written : Text.WritesHex digits value) (four : digits.length = 4)
      (surrogate : 0xD800 ≤ value ∧ value ≤ 0xDFFF) :
      Grounds (before ++ ['\\']) ('u' :: (digits ++ rest)) (.invalidScalar value)
  /-- Digits in braces write a surrogate. -/
  | invalidScalarInBraces {before digits rest : List Char} {value : Nat}
      (written : Text.WritesHex digits value) (oneToFour : 1 ≤ digits.length ∧ digits.length ≤ 4)
      (surrogate : 0xD800 ≤ value ∧ value ≤ 0xDFFF) :
      Grounds (before ++ ['\\']) ('u' :: '\x7b' :: (digits ++ '\x7d' :: rest))
        (.invalidScalar value)
  /-- Both bounds of a repetition are written, the greater one first. -/
  | invertedRange {before low high rest : List Char} {min max : Count}
      (lowDigits : low ≠ [] ∧ ∀ c ∈ low, c.isDigit = true)
      (highDigits : high ≠ [] ∧ ∀ c ∈ high, c.isDigit = true)
      (lowValue : min.toNat = Nat.ofDigitChars 10 low 0)
      (highValue : max.toNat = Nat.ofDigitChars 10 high 0)
      (inverted : max < min) :
      Grounds before ('\x7b' :: (low ++ ',' :: (high ++ '\x7d' :: rest)))
        (.invertedRange min max)
  /-- There have been openings enough to fill the depth that is allowed. -/
  | tooDeep {before rest : List Char} {c : Char} (opens : c ∈ ['(', '|'])
      (full : 128 ≤ Text.openingCount before) :
      Grounds before (c :: rest) .tooDeep

/-- A refusal of `text` that blames a place in it, and rightly so. -/
structure ParseError.IsGrounded (text : List Char) (error : ParseError) : Prop where
  inside : error.pos < text.length
  grounds : error.fault.Grounds (text.take error.pos) (text.drop error.pos)

namespace ParseError

variable {text rest : List Char} {pos : Nat} {fault : Fault}

theorem isGrounded_of_drop {c : Char} (here : text.drop pos = c :: rest)
    (grounds : fault.Grounds (text.take pos) (c :: rest)) :
    ParseError.IsGrounded text ⟨pos, fault⟩ where
  inside := Text.lt_length_of_drop here
  grounds := by rwa [here]

/-- The blame falls after the mark that introduces a construct. -/
theorem isGrounded_of_drop_mark {mark c : Char} (here : text.drop pos = mark :: c :: rest)
    (grounds : fault.Grounds (text.take pos ++ [mark]) (c :: rest)) :
    ParseError.IsGrounded text ⟨pos + 1, fault⟩ := by
  have after : text.drop (pos + 1) = c :: rest := by
    rw [← List.drop_drop, here, List.drop_succ_cons, List.drop_zero]
  exact isGrounded_of_drop after (Text.take_succ_of_drop here ▸ grounds)

end ParseError

variable {text : List Char} {pos : Nat} {error : ParseError}

/-! ## Openings -/

/-- No name is enclosed where the closing mark is missing or comes at once. -/
theorem Text.enclosed?_eq_none {stop : Char} {rest : List Char}
    (missing : enclosed? stop rest = none) : stop ∉ rest ∨ rest.head? = some stop := by
  by_cases member : stop ∈ rest
  · obtain ⟨name, after, rfl, absent⟩ := List.eq_append_cons_of_mem member
    cases name with
    | nil => exact .inr rfl
    | cons head tail =>
        rw [enclosed?_eq_some_iff.mpr ⟨by simp, absent, after, rfl⟩] at missing
        cases missing
  · exact .inl member

theorem Opening.isGrounded_of_read {number : Nat} {tail : List Char}
    (here : text.drop pos = '(' :: tail) (failed : Opening.read pos number tail = .error error) :
    error.IsGrounded text := by
  simp only [Opening.read] at failed
  split at failed
  · cases failed
  · cases failed
    exact ParseError.isGrounded_of_drop_mark here (.lookahead (by decide))
  · cases failed
    exact ParseError.isGrounded_of_drop_mark here (.lookahead (by decide))
  · cases failed
    exact ParseError.isGrounded_of_drop_mark here (.lookbehind (by decide))
  · cases failed
    exact ParseError.isGrounded_of_drop_mark here (.lookbehind (by decide))
  · split at failed
    · cases failed
    · next missing =>
        cases failed
        exact ParseError.isGrounded_of_drop_mark here
          (.unterminatedGroupName (Text.enclosed?_eq_none missing))
  · next notColon notEquals notExclamation _ _ notAngle =>
      cases failed
      exact ParseError.isGrounded_of_drop_mark here (.groupModifier (by simp_all))
  · cases failed
    exact ParseError.isGrounded_of_drop here .unclosedGroup
  · cases failed

/-! ## Quantifiers -/

theorem Braces.lt_of_inverted? {braces : Braces} {min max : Count}
    (found : braces.inverted? = some (min, max)) :
    braces.min = some min ∧ braces.max = some max ∧ max < min := by
  simp only [Braces.inverted?] at found
  split at found
  · next minEq maxEq =>
      split at found
      · next less =>
          cases found
          exact ⟨minEq, maxEq, less⟩
      · cases found
  · cases found

theorem Quantifier.isGrounded_of_read {rest : List Char} (here : text.drop pos = rest)
    (failed : Quantifier.read pos rest = .error error) : error.IsGrounded text := by
  simp only [Quantifier.read] at failed
  split at failed
  · cases failed
  · cases failed
  · cases failed
  · split at failed
    · cases failed
    · next bounds length found =>
        split at failed
        · next inverted =>
            cases failed
            cases bounds with
            | mk min comma max =>
                obtain ⟨rfl, rfl, less⟩ := Braces.lt_of_inverted? inverted
                obtain ⟨content, after, spelled, rfl, _⟩ := Braces.exists_spelled_of_read? found
                cases spelled with
                | between minWritten maxWritten =>
                    rw [List.append_assoc, List.cons_append, List.append_assoc] at here
                    exact ParseError.isGrounded_of_drop here
                      (.invertedRange ⟨minWritten.nonempty, minWritten.isDigit⟩
                        ⟨maxWritten.nonempty, maxWritten.isDigit⟩
                        minWritten.value.symm maxWritten.value.symm less)
        · cases failed
  · cases failed

theorem Piece.isGrounded_of_read {atom : Atom} {rest : List Char} (here : text.drop pos = rest)
    (failed : Piece.read atom pos rest = .error error) : error.IsGrounded text :=
  Quantifier.isGrounded_of_read here (Piece.quantifier_read_of_error failed)

/-! ## Classes -/

theorem CharClass.isGrounded_of_read {tail : List Char} (here : text.drop pos = '[' :: tail)
    (failed : CharClass.read pos tail = .error error) : error.IsGrounded text := by
  simp only [CharClass.read] at failed
  split at failed
  · next starts =>
      cases failed
      obtain ⟨name, rest, nonempty, absent, rfl⟩ := startsNamedSet_iff.mp starts
      exact ParseError.isGrounded_of_drop here (.posixBracket nonempty absent)
  · split at failed
    · cases failed
      exact ParseError.isGrounded_of_drop here .unterminatedClass
    · cases failed

/-! ## Anchors -/

namespace Anchor

variable {anchor : Anchor}

/-- An anchor is refused away from the edge that it names. -/
theorem eq_of_atom_eq_error {atStart atEnd : Bool}
    (failed : anchor.atom pos atStart atEnd = .error error) :
    error = ⟨pos, .anchor⟩ ∧ (anchor = .start → atStart = false) ∧
      (anchor = .stop → atEnd = false) := by
  cases anchor with
  | within =>
      cases failed
      exact ⟨rfl, nofun, nofun⟩
  | start =>
      cases atStart with
      | false =>
          cases failed
          exact ⟨rfl, fun _ => rfl, nofun⟩
      | true => cases failed
  | stop =>
      cases atEnd with
      | false =>
          cases failed
          exact ⟨rfl, nofun, fun _ => rfl⟩
      | true => cases failed

theorem isGrounded_of_atom {head : Char} {tail : List Char} (here : text.drop pos = head :: tail)
    (written : ofChar? head = some anchor)
    (failed : anchor.atom pos (pos == 0) tail.isEmpty = .error error) :
    error.IsGrounded text := by
  obtain ⟨rfl, atStart, atEnd⟩ := eq_of_atom_eq_error failed
  apply ParseError.isGrounded_of_drop here
  rcases mem_of_ofChar? written with ⟨rfl, mark⟩ | ⟨rfl, mark⟩
  · have late : text.take pos ≠ [] := by
      rw [Ne, List.take_eq_nil_iff]
      rintro (first | empty)
      · simp [first] at atStart
      · simp [empty] at here
    exact .startAnchor mark late
  · exact .stopAnchor mark (by simpa using atEnd)

theorem isGrounded_of_escaped {head : Char} {tail : List Char} {atStart : Bool}
    (here : text.drop pos = '\\' :: head :: tail) (written : ofEscaped? head = some anchor)
    (failed : anchor.atom (pos + 1) atStart tail.isEmpty = .error error) :
    error.IsGrounded text := by
  obtain ⟨rfl, _, atEnd⟩ := eq_of_atom_eq_error failed
  apply ParseError.isGrounded_of_drop_mark here
  rcases mem_of_ofEscaped? written with ⟨rfl, rfl⟩ | ⟨rfl, mark⟩ | ⟨rfl, mark⟩
  · exact .startAnchor (by decide) (by simp)
  · exact .stopAnchor (List.mem_cons_of_mem _ mark) (by simpa using atEnd)
  · exact .innerAnchor mark

end Anchor

/-! ## Escapes -/

namespace Escape

variable {key : Char} {rest : List Char}

/-- No more than four digits are read, so a number that names no character is a
surrogate. -/
theorem surrogate_of_not_isValidChar {front : List Char}
    (invalid : ¬(Text.hexValue (Text.hexRun 4 front)).isValidChar) :
    0xD800 ≤ Text.hexValue (Text.hexRun 4 front) ∧
      Text.hexValue (Text.hexRun 4 front) ≤ 0xDFFF := by
  have bounded := Text.hexValue_hexRun_lt 4 front
  simp only [Nat.isValidChar] at invalid
  omega

theorem isGrounded_of_code? {span : Span Nat} (here : text.drop pos = '\\' :: key :: rest)
    (found : code? key rest = some span) (invalid : ¬span.value.isValidChar) :
    ParseError.IsGrounded text ⟨pos + 1, .invalidScalar span.value⟩ := by
  have isU : key = 'u' := by
    by_contra other
    exact invalid (.inl (Nat.lt_trans (value_lt_of_code? found other) (by decide)))
  have written (front : List Char) :
      Text.WritesHex (Text.hexRun 4 front) (Text.hexValue (Text.hexRun 4 front)) :=
    Text.writesHex_hexValue fun _ => Text.isHexDigit_of_mem_hexRun
  simp only [code?] at found
  split at found
  · exact absurd isU (by decide)
  · exact absurd isU (by decide)
  · exact absurd isU (by decide)
  · next front =>
      split at found
      · next closed =>
          cases found
          rw [Bool.and_eq_true, Bool.not_eq_true', List.isEmpty_eq_false_iff, beq_iff_eq] at closed
          obtain ⟨nonempty, closes⟩ := closed
          obtain ⟨after, afterEq⟩ := List.head?_eq_some_iff.mp closes
          have frontEq := List.prefix_iff_eq_append.mp (Text.hexRun_prefix 4 front)
          have short := Nat.le_trans (Text.length_hexRun_le 4 front) (Nat.min_le_left _ _)
          rw [afterEq] at frontEq
          have grounds : Fault.Grounds (text.take pos ++ ['\\'])
              ('u' :: '\x7b' :: (Text.hexRun 4 front ++ '\x7d' :: after))
              (.invalidScalar (Text.hexValue (Text.hexRun 4 front))) :=
            .invalidScalarInBraces (written front) ⟨List.length_pos_iff.mpr nonempty, short⟩
              (surrogate_of_not_isValidChar invalid)
          rw [frontEq] at grounds
          exact ParseError.isGrounded_of_drop_mark here grounds
      · cases found
  · split at found
    · next four =>
        cases found
        have restEq := List.prefix_iff_eq_append.mp (Text.hexRun_prefix 4 rest)
        have grounds : Fault.Grounds (text.take pos ++ ['\\'])
            ('u' :: (Text.hexRun 4 rest ++ rest.drop (Text.hexRun 4 rest).length))
            (.invalidScalar (Text.hexValue (Text.hexRun 4 rest))) :=
          .invalidScalar (written rest) four (surrogate_of_not_isValidChar invalid)
        rw [restEq] at grounds
        exact ParseError.isGrounded_of_drop_mark here grounds
    · cases found
  · cases found

theorem isGrounded_of_decode (here : text.drop pos = '\\' :: key :: rest)
    (failed : decode (pos + 1) key rest = .error error) : error.IsGrounded text := by
  simp only [decode] at failed
  split at failed
  · cases failed
  · next meant =>
      cases failed
      have written := written_read key rest
      generalize (read key rest).value = form at meant written
      cases written with
      | reference | shorthand | literal => cases meant
      | code found =>
          simp only [Escape.atom, Text.scalar?] at meant
          split at meant
          · cases meant
          · next missing =>
              cases meant
              refine isGrounded_of_code? here found ?_
              intro valid
              rw [if_pos valid] at missing
              cases missing
      | property keyEq restEq nonempty absent =>
          subst keyEq restEq
          cases meant
          exact ParseError.isGrounded_of_drop_mark here (.namedProperty nonempty absent)
      | call keyEq =>
          subst keyEq
          cases meant
          exact ParseError.isGrounded_of_drop_mark here .subexpressionCall
      | anchor found => exact Anchor.isGrounded_of_escaped here found meant

end Escape

/-! ## Atoms -/

theorem Atom.isGrounded_of_read {head : Char} {tail : List Char}
    (here : text.drop pos = head :: tail) (failed : Atom.read pos head tail = .error error) :
    error.IsGrounded text := by
  simp only [Atom.read] at failed
  split at failed
  · cases failed
  · exact CharClass.isGrounded_of_read here (ParseError.eq_error_of_map_eq_error failed)
  · split at failed
    · cases failed
      exact ParseError.isGrounded_of_drop here .trailingBackslash
    · exact Escape.isGrounded_of_decode here (ParseError.eq_error_of_map_eq_error failed)
  · split at failed
    · next written =>
        exact Anchor.isGrounded_of_atom here written (ParseError.eq_error_of_map_eq_error failed)
    · cases failed

end PatternTree
