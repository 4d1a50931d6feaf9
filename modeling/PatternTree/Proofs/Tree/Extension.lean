import Mathlib.Data.List.Infix
import PatternTree.Proofs.Escape
import PatternTree.Proofs.Text
import PatternTree.Proofs.Tree.Reader

/-!
# Readers before a longer text

A reader can look past the characters that it takes, and what it finds there may
be the end of the text.  So adding to a text can change what is read in front.
It does so only in two ways.  Some constructs are looked for up to a closing mark
that can come arbitrarily late, and a settled text has none of them.  Others are
cut off by the end of the text, and then all that the reader leaves is inert: it
is made of characters that stand for themselves and are never refused.

The lemmas `…_append` say that in all other cases a reader finds the same in the
longer text.
-/

namespace PatternTree

/-- A text without the constructs that a later closing mark decides on. -/
structure IsSettled (text : List Char) : Prop where
  noNamedSet : ¬['[', '[', ':'] <:+: text
  noNamedReference : ¬['\\', 'k', '<'] <:+: text
  noProperty : ¬['\\', 'p', '\x7b'] <:+: text
  noCodePoint : ¬['\\', 'u'] <:+: text

instance (text : List Char) : Decidable (IsSettled text) :=
  decidable_of_iff
    (¬['[', '[', ':'] <:+: text ∧ ¬['\\', 'k', '<'] <:+: text ∧
      ¬['\\', 'p', '\x7b'] <:+: text ∧ ¬['\\', 'u'] <:+: text)
    ⟨fun holds => ⟨holds.1, holds.2.1, holds.2.2.1, holds.2.2.2⟩,
      fun holds => ⟨holds.noNamedSet, holds.noNamedReference, holds.noProperty,
        holds.noCodePoint⟩⟩

theorem IsSettled.of_suffix {text rest : List Char} (settled : IsSettled text)
    (suffix : rest <:+ text) : IsSettled rest where
  noNamedSet found := settled.noNamedSet (found.trans suffix.isInfix)
  noNamedReference found := settled.noNamedReference (found.trans suffix.isInfix)
  noProperty found := settled.noProperty (found.trans suffix.isInfix)
  noCodePoint found := settled.noCodePoint (found.trans suffix.isInfix)

/-- Whether a refusal blames the end of the text, so that more text could mend it. -/
def Fault.isOpenEnded : Fault → Bool
  | .unclosedGroup | .unterminatedClass | .trailingBackslash | .unterminatedGroupName => true
  | _ => false

/-- A text that the end of a pattern can cut off from the construct it begins: the
digits and the comma of a quantifier in braces, or the dash of a control
character. -/
def IsInert (text : List Char) : Prop :=
  ∀ c ∈ text, c.isDigit = true ∨ c ∈ ['\x7b', ',', '-']

namespace IsInert

variable {text rest : List Char}

theorem nil : IsInert [] := by
  simp [IsInert]

theorem of_digits (digits : ∀ c ∈ text, c.isDigit = true) : IsInert text :=
  fun c member => .inl (digits c member)

theorem append (front : IsInert text) (back : IsInert rest) : IsInert (text ++ rest) := by
  intro c member
  cases List.mem_append.mp member with
  | inl inFront => exact front c inFront
  | inr inBack => exact back c inBack

theorem cons {c : Char} (isMark : c ∈ ['\x7b', ',', '-']) (tail : IsInert text) :
    IsInert (c :: text) := by
  intro other member
  cases member with
  | head => exact .inr isMark
  | tail _ member => exact tail other member

theorem drop (inert : IsInert text) (count : Nat) : IsInert (text.drop count) :=
  fun c member => inert c (List.mem_of_mem_drop member)

theorem exists_cons {count : Nat} (active : ¬IsInert (text.drop count)) :
    ∃ head tail, text = head :: tail := by
  cases text with
  | nil =>
      rw [List.drop_nil] at active
      exact absurd nil active
  | cons head tail => exact ⟨head, tail, rfl⟩

end IsInert

/-! ## Openings -/

namespace Opening

variable {start number length : Nat} {tail : List Char}

theorem read_append {id : Option String} (opened : read start number tail = .ok ⟨id, length⟩)
    (active : ¬IsInert (tail.drop length)) (more : List Char) :
    read start number (tail ++ more) = .ok ⟨id, length⟩ := by
  apply read_of_form
  cases form_of_read opened with
  | unnamed => exact .unnamed
  | named isName =>
      rw [List.cons_append, List.cons_append, List.append_assoc]
      exact .named isName
  | numbered noMark =>
      refine .numbered ?_
      cases tail with
      | nil => exact absurd .nil active
      | cons head rest => exact noMark

theorem read_of_modifier {modifier : Char} (notColon : modifier ≠ ':') (notEquals : modifier ≠ '=')
    (notExclamation : modifier ≠ '!') (notAngle : modifier ≠ '<') (rest : List Char) :
    read start number ('?' :: modifier :: rest) =
      .error ⟨start + 1, .groupModifier modifier⟩ := by
  unfold read
  split <;> simp_all

theorem read_append_of_error {error : ParseError} (failed : read start number tail = .error error)
    (definite : error.fault.isOpenEnded = false) (more : List Char) :
    read start number (tail ++ more) = .error error := by
  simp only [read] at failed
  split at failed
  · cases failed
  · cases failed
    rfl
  · cases failed
    rfl
  · cases failed
    rfl
  · cases failed
    rfl
  · split at failed
    · cases failed
    · cases failed
      cases definite
  · next notColon notEquals notExclamation _ _ notAngle =>
      cases failed
      exact read_of_modifier notColon notEquals notExclamation notAngle _
  · cases failed
    cases definite
  · cases failed

end Opening

/-! ## Quantifiers -/

namespace Braces

/-- Braces that are read are closed inside the text. -/
theorem mem_of_read? {text : List Char} {span : Span Braces} (found : read? text = some span) :
    '\x7d' ∈ text := by
  obtain ⟨content, rest, spelled, rfl, _⟩ := exists_spelled_of_read? found
  generalize span.value = bounds at spelled
  cases spelled <;> simp

theorem read?_append {text : List Char} (active : ¬IsInert text) (more : List Char) :
    read? (text ++ more) = read? text := by
  have lowDigits : IsInert (text.takeWhile Char.isDigit) :=
    .of_digits (isDigit_of_mem_takeWhile text)
  have lowEq := List.takeWhile_append_dropWhile (p := Char.isDigit) (l := text)
  cases afterLow : text.dropWhile Char.isDigit with
  | nil =>
      rw [afterLow, List.append_nil] at lowEq
      exact absurd (lowEq ▸ lowDigits) active
  | cons head tail =>
      have stops : text.dropWhile Char.isDigit ≠ [] := by simp [afterLow]
      rw [read?, read?]
      simp only [Text.takeWhile_append_of_stops stops, Text.dropWhile_append_of_stops stops,
        afterLow, List.cons_append]
      by_cases closes : head = '\x7d'
      · simp [closes]
      · by_cases comma : head = ','
        · subst comma
          have highDigits : IsInert (tail.takeWhile Char.isDigit) :=
            .of_digits (isDigit_of_mem_takeWhile tail)
          have highEq := List.takeWhile_append_dropWhile (p := Char.isDigit) (l := tail)
          cases afterHigh : tail.dropWhile Char.isDigit with
          | nil =>
              rw [afterHigh, List.append_nil] at highEq
              rw [afterLow] at lowEq
              have inert : IsInert text :=
                lowEq ▸ lowDigits.append (.cons (by decide) (highEq ▸ highDigits))
              exact absurd inert active
          | cons last rest =>
              have highStops : tail.dropWhile Char.isDigit ≠ [] := by simp [afterHigh]
              simp only [Text.takeWhile_append_of_stops highStops,
                Text.dropWhile_append_of_stops highStops, afterHigh, List.cons_append]
              by_cases ends : last = '\x7d'
              · subst ends
                cases bound? (text.takeWhile Char.isDigit) <;>
                  cases bound? (tail.takeWhile Char.isDigit) <;> rfl
              · simp [ends]
        · simp [closes, comma]

end Braces

namespace Quantifier

theorem read_append {text : List Char} (active : ¬IsInert text) (pos : Nat) (more : List Char) :
    read pos (text ++ more) = read pos text := by
  cases text with
  | nil => exact absurd .nil active
  | cons head tail =>
      by_cases brace : head = '\x7b'
      · subst brace
        have activeTail : ¬IsInert tail := fun inert => active (.cons (by decide) inert)
        simp only [List.cons_append, read, Braces.read?_append activeTail]
      · rw [List.cons_append]
        unfold read
        split <;> simp_all

/-- No quantifier is refused in an inert text, since its braces are not closed. -/
theorem read_ne_error_of_isInert {text : List Char} (inert : IsInert text) (pos : Nat)
    (error : ParseError) : read pos text ≠ .error error := by
  intro failed
  simp only [read] at failed
  split at failed
  · cases failed
  · cases failed
  · cases failed
  · split at failed
    · cases failed
    · next found =>
        have closes := inert _ (List.mem_cons_of_mem _ (Braces.mem_of_read? found))
        exact absurd closes (by decide)
  · cases failed

theorem markerLength_append {text : List Char} (nonempty : text ≠ []) (more : List Char) :
    markerLength (text ++ more) = markerLength text := by
  cases text with
  | nil => exact absurd rfl nonempty
  | cons head tail =>
    rw [List.cons_append]
    unfold markerLength
    split <;> simp_all

end Quantifier

namespace Piece

variable {atom : Atom} {pos length : Nat} {text : List Char} {piece : Piece}

theorem read_append (found : Piece.read atom pos text = .ok ⟨piece, length⟩)
    (active : ¬IsInert (text.drop length)) (more : List Char) :
    Piece.read atom pos (text ++ more) = .ok ⟨piece, length⟩ := by
  have textActive : ¬IsInert text := fun inert => active (inert.drop length)
  have quantifierEq := Quantifier.read_append textActive pos more
  have rest_ne_nil {count : Nat} (le : count ≤ length) : text.drop count ≠ [] := by
    intro empty
    have dropped := List.drop_eq_nil_iff.mp empty
    rw [List.drop_eq_nil_of_le (Nat.le_trans dropped le)] at active
    exact active .nil
  simp only [Piece.read, quantifierEq] at found ⊢
  split at found
  · cases found
  · exact found
  · next quantifier count _ read =>
      have inside := Quantifier.length_le_of_read read
      have dropEq : (text ++ more).drop count = text.drop count ++ more :=
        List.drop_append_of_le_length inside
      simp only [dropEq]
      split at found
      · next asked =>
          cases found
          rw [Bool.and_eq_true, beq_iff_eq] at asked
          obtain ⟨tail, restEq⟩ := List.head?_eq_some_iff.mp asked.2
          have tailEq : text.drop (count + 1) = tail := by
            rw [← List.drop_drop, restEq, List.drop_succ_cons, List.drop_zero]
          have tailNonempty : tail ≠ [] := tailEq ▸ rest_ne_nil (Nat.le_add_right _ _)
          simp [asked.1, restEq, Quantifier.markerLength_append tailNonempty]
      · next notAsked =>
          cases found
          have restNonempty := rest_ne_nil (Nat.le_add_right count _)
          rw [List.head?_append_of_ne_nil _ restNonempty, if_neg notAsked,
            Quantifier.markerLength_append restNonempty]

/-- A piece is refused only for its quantifier. -/
theorem quantifier_read_of_error {error : ParseError}
    (failed : Piece.read atom pos text = .error error) :
    Quantifier.read pos text = .error error := by
  simp only [Piece.read] at failed
  split at failed
  · next quantifierFailed =>
      cases failed
      exact quantifierFailed
  · cases failed
  · split at failed <;> cases failed

theorem active_of_read_error {error : ParseError}
    (failed : Piece.read atom pos text = .error error) : ¬IsInert text := fun inert =>
  Quantifier.read_ne_error_of_isInert inert pos error (quantifier_read_of_error failed)

theorem read_append_of_error {error : ParseError} (failed : Piece.read atom pos text = .error error)
    (more : List Char) : Piece.read atom pos (text ++ more) = .error error := by
  have active := active_of_read_error failed
  rw [Piece.read, Quantifier.read_append active, quantifier_read_of_error failed]

end Piece

/-! ## Classes -/

namespace CharClass

theorem lengthToClose?_append {slashes length : Nat} {text : List Char}
    (found : lengthToClose? slashes text = some length) (more : List Char) :
    lengthToClose? slashes (text ++ more) = some length := by
  induction text generalizing slashes length with
  | nil => simp [lengthToClose?] at found
  | cons c rest ih =>
      rw [List.cons_append]
      simp only [lengthToClose?] at found ⊢
      split at found
      · next closes =>
          rw [if_pos closes]
          exact found
      · next goesOn =>
          obtain ⟨inner, innerFound, rfl⟩ := Option.map_eq_some_iff.mp found
          rw [if_neg goesOn, ih innerFound, Option.map_some]

theorem contentLength?_append {length : Nat} {text : List Char}
    (found : contentLength? text = some length) (more : List Char) :
    contentLength? (text ++ more) = some length := by
  cases text with
  | nil => simp [contentLength?, lengthToClose?] at found
  | cons head rest =>
      rw [List.cons_append]
      by_cases bracket : head = ']'
      · subst bracket
        obtain ⟨inner, innerFound, rfl⟩ := Option.map_eq_some_iff.mp found
        rw [contentLength?, lengthToClose?_append innerFound, Option.map_some]
      · have plain (after : List Char) :
            contentLength? (head :: after) = lengthToClose? 0 (head :: after) := by
          unfold contentLength?
          split
          · next equal =>
              cases equal
              exact absurd rfl bracket
          · rfl
        rw [plain] at found ⊢
        exact lengthToClose?_append found more

theorem not_startsNamedSet {text : List Char} (settled : IsSettled ('[' :: text)) :
    startsNamedSet text = false := by
  rw [Bool.eq_false_iff]
  intro starts
  obtain ⟨name, rest, _, _, rfl⟩ := startsNamedSet_iff.mp starts
  exact settled.noNamedSet ⟨[], name ++ ':' :: ']' :: rest, by simp⟩

theorem read_append {pos length : Nat} {text : List Char} {cls : CharClass}
    (settled : IsSettled ('[' :: text)) (found : CharClass.read pos text = .ok ⟨cls, length⟩)
    (more : List Char) : CharClass.read pos (text ++ more) = .ok ⟨cls, length⟩ := by
  simp only [CharClass.read, not_startsNamedSet settled, Bool.false_eq_true, if_false] at found
  split at found
  · cases found
  · next content closed =>
      cases found
      have inside := lt_length_of_contentLength? closed
      -- The two characters after the bracket tell whether a named set begins.
      have noNamedSet : startsNamedSet (text ++ more) = false := by
        have notEmpty := contentLength?_ne_zero text
        rw [closed] at notEmpty
        rw [Bool.eq_false_iff]
        intro starts
        obtain ⟨name, rest, _, _, textEq⟩ := startsNamedSet_iff.mp starts
        cases text with
        | nil => simp at inside
        | cons first tail =>
            cases tail with
            | nil =>
                have contentEq : content = 0 := by simpa using inside
                exact notEmpty (by rw [contentEq])
            | cons second after =>
                simp only [List.cons_append, List.cons.injEq] at textEq
                obtain ⟨rfl, rfl, _⟩ := textEq
                exact settled.noNamedSet ⟨[], after, by simp⟩
      rw [CharClass.read, contentLength?_append closed, noNamedSet]
      simp [List.take_append_of_le_length (Nat.le_of_lt inside)]

/-- A settled class is refused for nothing but its end. -/
theorem isOpenEnded_of_read {pos : Nat} {text : List Char} {error : ParseError}
    (settled : IsSettled ('[' :: text)) (failed : CharClass.read pos text = .error error) :
    error.fault.isOpenEnded = true := by
  simp only [CharClass.read, not_startsNamedSet settled, Bool.false_eq_true, if_false] at failed
  split at failed
  · cases failed
    rfl
  · cases failed

end CharClass

/-! ## Escapes -/

namespace Anchor

variable {anchor : Anchor} {pos : Nat} {atStart : Bool} {tail : List Char}

theorem atom_append_of_error {error : ParseError}
    (failed : anchor.atom pos atStart tail.isEmpty = .error error) (more : List Char) :
    anchor.atom pos atStart (tail ++ more).isEmpty = .error error := by
  cases tail with
  | cons head rest => exact failed
  | nil =>
      cases anchor with
      | start => exact failed
      | stop => cases failed
      | within => exact failed

end Anchor

namespace Escape

variable {key : Char} {rest : List Char}

theorem named?_of_settled {c : Char} {tail : List Char}
    (settled : IsSettled ('\\' :: key :: c :: tail)) (after : List Char) :
    named? key (c :: after) = none := by
  unfold named?
  split
  · next equal =>
      cases equal
      exact absurd ⟨[], tail, by simp⟩ settled.noNamedReference
  · next equal =>
      cases equal
      exact absurd ⟨[], tail, by simp⟩ settled.noProperty
  · rfl

theorem code?_append (settled : IsSettled ('\\' :: key :: rest))
    (active : ¬IsInert (rest.drop ((code? key rest).elim 0 Span.length))) (more : List Char) :
    code? key (rest ++ more) = code? key rest := by
  obtain ⟨c, tail, rfl⟩ := IsInert.exists_cons active
  obtain rfl | rfl | rfl | rfl | other :
      key = 'c' ∨ key = 'C' ∨ key = 'x' ∨ key = 'u' ∨ key ∉ ['c', 'C', 'x', 'u'] := by
    simp only [List.mem_cons, List.not_mem_nil, or_false]
    tauto
  · rfl
  · by_cases dash : c = '-'
    · subst dash
      cases tail with
      | nil => exact absurd (.cons (by decide) .nil) active
      | cons => rfl
    · simp [code?, dash]
  · have stops : (Text.hexRun 2 (c :: tail)).length < (c :: tail).length := by
      refine Nat.lt_of_not_le fun whole => active ?_
      simp only [code?]
      split
      · next empty =>
          rw [List.isEmpty_iff] at empty
          simp [empty] at whole
      · rw [Option.elim_some, List.drop_eq_nil_of_le whole]
        exact .nil
    simp only [code?, Text.hexRun_append stops]
  · exact absurd ⟨[], c :: tail, by simp⟩ settled.noCodePoint
  · simp only [List.mem_cons, List.not_mem_nil, or_false, not_or] at other
    simp [code?, other]

theorem read_append (settled : IsSettled ('\\' :: key :: rest))
    (active : ¬IsInert (rest.drop (read key rest).length)) (more : List Char) :
    read key (rest ++ more) = read key rest := by
  by_cases digit : key.isDigit = true
  · have stops : rest.dropWhile Char.isDigit ≠ [] := by
      rw [← Text.drop_length_takeWhile]
      intro empty
      simp only [read, digit, if_true, empty] at active
      exact active .nil
    simp only [read, digit, if_true, Text.takeWhile_append_of_stops stops]
  · obtain ⟨c, tail, rfl⟩ := IsInert.exists_cons active
    have noName := named?_of_settled settled
    have codeActive : ¬IsInert ((c :: tail).drop ((code? key (c :: tail)).elim 0 Span.length)) := by
      simp only [read, digit, noName, Bool.false_eq_true, if_false] at active
      cases code : code? key (c :: tail) with
      | none =>
          rw [code] at active
          exact active
      | some span =>
          rw [code] at active
          exact active
    have codeEq := code?_append settled codeActive more
    rw [List.cons_append] at codeEq ⊢
    simp only [read, digit, Bool.false_eq_true, if_false, noName, codeEq]

/-- Two hexadecimal digits, or the low bits of a character, name a character. -/
theorem value_lt_of_code? {span : Span Nat} (found : code? key rest = some span)
    (noCodePoint : key ≠ 'u') : span.value < 256 := by
  simp only [code?] at found
  split at found
  · cases found
    simp only
    omega
  · cases found
    simp only
    omega
  · split at found
    · cases found
    · cases found
      exact Text.hexValue_hexRun_lt 2 rest
  · exact absurd rfl noCodePoint
  · exact absurd rfl noCodePoint
  · cases found

/-- The first characters of the escapes that are refused wherever they end. -/
theorem mem_of_atom_eq_error {pos : Nat} {atEnd : Bool} {error : ParseError}
    (settled : IsSettled ('\\' :: key :: rest))
    (failed : (read key rest).value.atom pos atEnd = .error error) :
    key ∈ ['g', 'G', 'b', 'B', 'A', 'z', 'Z'] := by
  have written := written_read key rest
  generalize (read key rest).value = form at failed written
  cases written with
  | reference | shorthand | literal => cases failed
  | @code span found =>
      have notU : key ≠ 'u' := by
        rintro rfl
        exact settled.noCodePoint ⟨[], rest, rfl⟩
      have small := Nat.lt_trans (value_lt_of_code? found notU) (by decide : 256 < 0xd800)
      have valid : span.value.isValidChar := .inl small
      simp [Escape.atom, Text.scalar?, valid] at failed
  | @property name after keyEq restEq =>
      subst keyEq restEq
      exact absurd ⟨[], name ++ '\x7d' :: after, by simp⟩ settled.noProperty
  | call keyEq => simp [keyEq]
  | anchor found =>
      have key_mem := Anchor.mem_of_ofEscaped? found
      simp only [List.mem_cons, List.not_mem_nil, or_false] at key_mem ⊢
      tauto

theorem read_of_mem (member : key ∈ ['g', 'G', 'b', 'B', 'A', 'z', 'Z']) (text : List Char) :
    read key text = ⟨ofChar key, 0⟩ := by
  simp only [List.mem_cons, List.not_mem_nil, or_false] at member
  rcases member with rfl | rfl | rfl | rfl | rfl | rfl | rfl <;> rfl

theorem decode_append {pos length : Nat} {atom : Atom} (settled : IsSettled ('\\' :: key :: rest))
    (decoded : decode pos key rest = .ok ⟨atom, length⟩) (active : ¬IsInert (rest.drop length))
    (more : List Char) : decode pos key (rest ++ more) = .ok ⟨atom, length⟩ := by
  simp only [decode] at decoded ⊢
  split at decoded
  · next meant =>
      cases decoded
      rw [read_append settled active]
      obtain ⟨c, tail, rfl⟩ := IsInert.exists_cons active
      rw [List.isEmpty_cons] at meant
      simp only [List.cons_append, List.isEmpty_cons, meant]
  · cases decoded

theorem decode_append_of_error {pos : Nat} {error : ParseError}
    (settled : IsSettled ('\\' :: key :: rest)) (failed : decode pos key rest = .error error)
    (more : List Char) : decode pos key (rest ++ more) = .error error := by
  simp only [decode] at failed ⊢
  split at failed
  · cases failed
  · next meant =>
      cases failed
      have member := mem_of_atom_eq_error settled meant
      rw [read_of_mem member] at meant
      have longer : (ofChar key).atom pos (rest ++ more).isEmpty = .error error := by
        cases form : ofChar key with
        | anchor place =>
            rw [form] at meant
            exact Anchor.atom_append_of_error meant more
        | reference | shorthand | code | property | call | literal =>
            rw [form] at meant
            exact meant
      simp only [read_of_mem member, longer]

end Escape

/-! ## Atoms -/

namespace Atom

variable {pos : Nat} {head : Char} {tail : List Char}

/-- A character of an inert text stands for itself. -/
theorem read_of_isInert (inert : IsInert (head :: tail)) :
    Atom.read pos head tail = .ok ⟨.literal head, 0⟩ := by
  have headInert := inert head List.mem_cons_self
  have ne_of_not_inert {c : Char} (notInert : ¬(c.isDigit = true ∨ c ∈ ['\x7b', ',', '-'])) :
      head ≠ c := by
    rintro rfl
    exact notInert headInert
  have noAnchor : Anchor.ofChar? head = none := by
    simp [Anchor.ofChar?, ne_of_not_inert (c := '^') (by decide),
      ne_of_not_inert (c := 'A') (by decide), ne_of_not_inert (c := '$') (by decide),
      ne_of_not_inert (c := 'z') (by decide), ne_of_not_inert (c := 'Z') (by decide)]
  simp [Atom.read, ne_of_not_inert (c := '.') (by decide), ne_of_not_inert (c := '[') (by decide),
    ne_of_not_inert (c := '\\') (by decide), noAnchor]

theorem read_append {atom : Atom} {length : Nat} (settled : IsSettled (head :: tail))
    (found : Atom.read pos head tail = .ok ⟨atom, length⟩) (active : ¬IsInert (tail.drop length))
    (more : List Char) : Atom.read pos head (tail ++ more) = .ok ⟨atom, length⟩ := by
  simp only [Atom.read] at found ⊢
  split at found
  · exact found
  · obtain ⟨⟨cls, taken⟩, read, equal⟩ := ParseError.exists_of_map_eq_ok found
    cases equal
    rw [CharClass.read_append settled read]
    rfl
  · split at found
    · cases found
    · obtain ⟨⟨escape, taken⟩, decoded, equal⟩ := ParseError.exists_of_map_eq_ok found
      cases equal
      simp only [List.cons_append, Escape.decode_append settled decoded active]
      rfl
  · split at found
    · obtain ⟨edge, anchored, equal⟩ := ParseError.exists_of_map_eq_ok found
      cases equal
      obtain ⟨next, rest, rfl⟩ := IsInert.exists_cons active
      rw [List.isEmpty_cons] at anchored
      rw [List.cons_append, List.isEmpty_cons, anchored]
      rfl
    · exact found

theorem read_append_of_error {error : ParseError} (settled : IsSettled (head :: tail))
    (failed : Atom.read pos head tail = .error error)
    (definite : error.fault.isOpenEnded = false) (more : List Char) :
    Atom.read pos head (tail ++ more) = .error error := by
  simp only [Atom.read] at failed ⊢
  split at failed
  · cases failed
  · have openEnded :=
      CharClass.isOpenEnded_of_read settled (ParseError.eq_error_of_map_eq_error failed)
    rw [openEnded] at definite
    cases definite
  · split at failed
    · cases failed
      cases definite
    · have decodeFailed := ParseError.eq_error_of_map_eq_error failed
      simp only [List.cons_append, Escape.decode_append_of_error settled decodeFailed]
      rfl
  · split at failed
    · have anchorFailed := ParseError.eq_error_of_map_eq_error failed
      rw [Anchor.atom_append_of_error anchorFailed]
      rfl
    · cases failed

end Atom

end PatternTree
