import PatternTree.Proofs.Quantifier.Writing
import PatternTree.Proofs.Tree.Extension

/-!
# Readers before an anchor to the end

An anchor to the end of the pattern is written with characters that no construct goes on
with: none of them closes a bracket or a name, is a digit of any kind, or is a quantifier.
So a reader finds the same in front of such characters as at the end of the text.

Two kinds of text are otherwise.  A control escape takes any character at all, and an anchor
to the end is none if anything comes after it.  `IsEndable` rules them out.
-/

namespace PatternTree

/-- The ways to write an anchor to the end. -/
def Anchor.stops : List (List Char) :=
  [['$'], ['z'], ['Z'], ['\\', 'z'], ['\\', 'Z']]

theorem Anchor.mem_stops {text : List Char} :
    text ∈ stops ↔ text = ['$'] ∨ text = ['z'] ∨ text = ['Z'] ∨ text = ['\\', 'z'] ∨
      text = ['\\', 'Z'] := by
  simp only [stops, List.mem_cons, List.not_mem_nil, or_false]

/-- A text made of the characters that anchors to the end are written with. -/
def IsApart (text : List Char) : Prop :=
  ∀ c ∈ text, c ∈ ['$', 'z', 'Z', '\\']

/-- A text that an anchor to the end can follow: it has none yet, and does not end with
a control escape that waits for its character. -/
def IsEndable (text : List Char) : Prop :=
  ∀ ending ∈ [['$'], ['z'], ['Z'], ['\\', 'c'], ['\\', 'C', '-']], ¬ending <:+ text

instance (text : List Char) : Decidable (IsEndable text) :=
  inferInstanceAs (Decidable (∀ ending ∈ [['$'], ['z'], ['Z'], ['\\', 'c'], ['\\', 'C', '-']],
    ¬ending <:+ text))

theorem IsApart.of_mem_stops {text : List Char} (isStop : text ∈ Anchor.stops) :
    IsApart text := by
  rcases Anchor.mem_stops.mp isStop with rfl | rfl | rfl | rfl | rfl <;> simp [IsApart]

theorem IsEndable.of_suffix {text rest : List Char} (endable : IsEndable text)
    (suffix : rest <:+ text) : IsEndable rest := fun ending member found =>
  endable ending member (found.trans suffix)

namespace IsApart

variable {more : List Char}

theorem not_mem (apart : IsApart more) {c : Char} (foreign : c ∉ ['$', 'z', 'Z', '\\']) :
    c ∉ more := fun member => foreign (apart c member)

theorem head_fails (apart : IsApart more) {test : Char → Bool}
    (fails : ['$', 'z', 'Z', '\\'].any test = false) : ∀ c ∈ more.head?, test c = false := by
  intro c headEq
  have mark := apart c (List.mem_of_head? headEq)
  simpa using List.any_eq_false.mp fails c mark

theorem head?_ne (apart : IsApart more) {c : Char} (foreign : c ∉ ['$', 'z', 'Z', '\\']) :
    more.head? ≠ some c := fun headEq => apart.not_mem foreign (List.mem_of_head? headEq)

theorem absent (apart : IsApart more) : Quantifier.Absent more := by
  intro c headEq
  have mark := apart c (List.mem_of_head? headEq)
  simp only [List.mem_cons, List.not_mem_nil, or_false] at mark
  rcases mark with rfl | rfl | rfl | rfl <;> decide

end IsApart

variable {more : List Char}

/-! ## Openings -/

theorem Opening.read_append_of_isApart (apart : IsApart more) {start number length : Nat}
    {tail : List Char} {id : Option String} (opened : read start number tail = .ok ⟨id, length⟩) :
    read start number (tail ++ more) = .ok ⟨id, length⟩ := by
  apply read_of_form
  cases form_of_read opened with
  | unnamed => exact .unnamed
  | named isName =>
      rw [List.cons_append, List.cons_append, List.append_assoc]
      exact .named isName
  | numbered noMark =>
      refine .numbered ?_
      cases tail with
      | nil => exact apart.head?_ne (by decide)
      | cons head rest => exact noMark

/-! ## Quantifiers -/

theorem Braces.read?_append_of_isApart (apart : IsApart more) (text : List Char) :
    read? (text ++ more) = read? text := by
  have noDigit : ∀ c ∈ more.head?, c.isDigit = false := apart.head_fails rfl
  have noBrace : more.head? ≠ some '\x7d' := apart.head?_ne (by decide)
  have noComma : more.head? ≠ some ',' := apart.head?_ne (by decide)
  simp only [read?, Text.takeWhile_append_of_head noDigit, Text.dropWhile_append_of_head noDigit]
  cases text.dropWhile Char.isDigit with
  | nil =>
      rw [List.nil_append]
      split <;> simp_all
  | cons head tail =>
      by_cases comma : head = ','
      · subst comma
        simp only [List.cons_append, Text.takeWhile_append_of_head noDigit,
          Text.dropWhile_append_of_head noDigit]
        cases tail.dropWhile Char.isDigit with
        | nil =>
            rw [List.nil_append]
            split <;> simp_all
        | cons last rest =>
            rw [List.cons_append]
            split <;> simp_all
      · rw [List.cons_append]
        split <;> simp_all

theorem Quantifier.read_append_of_isApart (apart : IsApart more) (pos : Nat) (text : List Char) :
    read pos (text ++ more) = read pos text := by
  cases text with
  | nil => exact read_of_absent apart.absent pos
  | cons head tail =>
      by_cases brace : head = '\x7b'
      · subst brace
        simp only [List.cons_append, read, Braces.read?_append_of_isApart apart]
      · rw [List.cons_append]
        unfold read
        split <;> simp_all

theorem Quantifier.markerLength_append_of_isApart (apart : IsApart more) (text : List Char) :
    markerLength (text ++ more) = markerLength text := by
  cases text with
  | nil => exact markerLength_eq_zero apart.absent
  | cons head tail => exact markerLength_append (List.cons_ne_nil head tail) more

theorem Piece.read_append_of_isApart (apart : IsApart more) (atom : Atom) (pos : Nat)
    (text : List Char) : Piece.read atom pos (text ++ more) = Piece.read atom pos text := by
  have noQuestion : more.head? ≠ some '?' := apart.head?_ne (by decide)
  simp only [Piece.read, Quantifier.read_append_of_isApart apart]
  cases read : Quantifier.read pos text with
  | error error => rfl
  | ok span =>
      obtain ⟨quantifier, length⟩ := span
      have inside := Quantifier.length_le_of_read read
      have dropEq : (text ++ more).drop length = text.drop length ++ more :=
        List.drop_append_of_le_length inside
      cases quantifier with
      | once => rfl
      | star | plus | optional | braces =>
          simp only [dropEq, Quantifier.markerLength_append_of_isApart apart]
          cases text.drop length with
          | nil => simp [noQuestion]
          | cons head tail =>
              simp only [List.cons_append, List.head?_cons, List.tail_cons,
                Quantifier.markerLength_append_of_isApart apart]
              rfl

/-! ## Classes -/

theorem CharClass.startsNamedSet_append_of_isApart (apart : IsApart more) (text : List Char) :
    startsNamedSet (text ++ more) = startsNamedSet text := by
  rw [Bool.eq_iff_iff, startsNamedSet_iff, startsNamedSet_iff]
  constructor
  · rintro ⟨name, rest, nonempty, absent, textEq⟩
    have found : '[' :: ':' :: (name ++ [':']) ++ [']'] <+: text ++ more :=
      ⟨rest, by simp [textEq]⟩
    obtain ⟨rest, textEq⟩ := Text.prefix_of_prefix_append found (apart.not_mem (by decide))
    exact ⟨name, rest, nonempty, absent, by simp [← textEq]⟩
  · rintro ⟨name, rest, nonempty, absent, rfl⟩
    exact ⟨name, rest ++ more, nonempty, absent, by simp⟩

theorem CharClass.read_append_of_isApart (apart : IsApart more) {pos length : Nat}
    {text : List Char} {cls : CharClass} (found : CharClass.read pos text = .ok ⟨cls, length⟩) :
    CharClass.read pos (text ++ more) = .ok ⟨cls, length⟩ := by
  simp only [CharClass.read, startsNamedSet_append_of_isApart apart] at found ⊢
  split at found
  · cases found
  · next noNamedSet =>
      rw [if_neg noNamedSet]
      split at found
      · cases found
      · next content closed =>
          cases found
          have inside := lt_length_of_contentLength? closed
          rw [contentLength?_append closed]
          simp only [List.take_append_of_le_length (Nat.le_of_lt inside)]

/-! ## Escapes -/

/-- Only an anchor to the end asks whether it stands there. -/
theorem Anchor.atom_eq_of_ne_stop {anchor : Anchor} (notStop : anchor ≠ .stop) (pos : Nat)
    (atStart before after : Bool) : anchor.atom pos atStart after = anchor.atom pos atStart before := by
  cases anchor with
  | start | within => rfl
  | stop => exact absurd rfl notStop

namespace Escape

variable {key : Char} {rest : List Char}

theorem named?_append_of_isApart (apart : IsApart more) (key : Char) (rest : List Char) :
    named? key (rest ++ more) = named? key rest := by
  have noAngle : more.head? ≠ some '<' := apart.head?_ne (by decide)
  have noBrace : more.head? ≠ some '\x7b' := apart.head?_ne (by decide)
  cases rest with
  | nil =>
      rw [List.nil_append]
      unfold named?
      split <;> simp_all
  | cons head tail =>
      rw [List.cons_append]
      unfold named?
      split
      · next equal =>
          cases equal
          rw [Text.enclosed?_append_of_not_mem (apart.not_mem (by decide))]
          rfl
      · next equal =>
          cases equal
          rw [Text.enclosed?_append_of_not_mem (apart.not_mem (by decide))]
          rfl
      · next notReference notProperty =>
          split
          · next equal =>
              cases equal
              exact (notReference _ rfl rfl).elim
          · next equal =>
              cases equal
              exact (notProperty _ rfl rfl).elim
          · rfl

theorem code?_append_of_isApart (apart : IsApart more) (endable : IsEndable ('\\' :: key :: rest)) :
    code? key (rest ++ more) = code? key rest := by
  have noHexDigit : ∀ c ∈ more.head?, c.isHexDigit = false := apart.head_fails rfl
  obtain rfl | rfl | rfl | rfl | other :
      key = 'c' ∨ key = 'C' ∨ key = 'x' ∨ key = 'u' ∨ key ∉ ['c', 'C', 'x', 'u'] := by
    simp only [List.mem_cons, List.not_mem_nil, or_false]
    tauto
  · cases rest with
    | nil => exact absurd List.suffix_rfl (endable ['\\', 'c'] (by decide))
    | cons => rfl
  · have noDash : more.head? ≠ some '-' := apart.head?_ne (by decide)
    cases rest with
    | nil => cases more <;> simp_all [code?]
    | cons head tail =>
        by_cases dash : head = '-'
        · subst dash
          cases tail with
          | nil => exact absurd List.suffix_rfl (endable ['\\', 'C', '-'] (by decide))
          | cons => rfl
        · simp [code?, dash]
  · simp only [code?, Text.hexRun_append_of_head noHexDigit]
  · have noOpening : more.head? ≠ some '\x7b' := apart.head?_ne (by decide)
    have noClosing : more.head? ≠ some '\x7d' := apart.head?_ne (by decide)
    cases rest with
    | nil =>
        have digits := Text.hexRun_append_of_head noHexDigit 4 []
        cases more with
        | nil => rfl
        | cons head tail => simp_all [code?]
    | cons head tail =>
        by_cases brace : head = '\x7b'
        · subst brace
          have inside := (Nat.le_min.mp (Text.length_hexRun_le 4 tail)).2
          simp only [List.cons_append, code?, Text.hexRun_append_of_head noHexDigit,
            List.drop_append_of_le_length inside]
          cases tail.drop (Text.hexRun 4 tail).length with
          | nil => simp [noClosing]
          | cons => rfl
        · have digits := Text.hexRun_append_of_head noHexDigit 4 (head :: tail)
          rw [List.cons_append] at digits ⊢
          simp [code?, brace, digits]
  · simp only [List.mem_cons, List.not_mem_nil, or_false, not_or] at other
    simp [code?, other]

theorem read_append_of_isApart (apart : IsApart more)
    (endable : IsEndable ('\\' :: key :: rest)) : read key (rest ++ more) = read key rest := by
  have noDigit : ∀ c ∈ more.head?, c.isDigit = false := apart.head_fails rfl
  simp only [read, Text.takeWhile_append_of_head noDigit, named?_append_of_isApart apart,
    code?_append_of_isApart apart endable]

/-- Only an escaped anchor to the end asks whether it stands there. -/
theorem atom_eq_of_ne_stop {form : Escape} (notStop : form ≠ .anchor .stop) (pos : Nat)
    (before after : Bool) : form.atom pos after = form.atom pos before := by
  cases form with
  | reference | shorthand | code | property | call | literal => rfl
  | anchor place =>
      apply Anchor.atom_eq_of_ne_stop
      rintro rfl
      exact notStop rfl

theorem ne_stop_of_isEndable (endable : IsEndable ['\\', key]) :
    (read key []).value ≠ .anchor .stop := by
  intro isStop
  have written := written_read key []
  rw [isStop] at written
  cases written with
  | anchor found =>
      rcases Anchor.mem_of_ofEscaped? found with ⟨stop, _⟩ | ⟨_, isEnding⟩ | ⟨stop, _⟩
      · cases stop
      · have ends : [key] <:+ ['\\', key] := ⟨['\\'], rfl⟩
        simp only [List.mem_cons, List.not_mem_nil, or_false] at isEnding
        rcases isEnding with rfl | rfl
        · exact endable ['z'] (by decide) ends
        · exact endable ['Z'] (by decide) ends
      · cases stop

theorem decode_append_of_isApart (apart : IsApart more)
    (endable : IsEndable ('\\' :: key :: rest)) {pos length : Nat} {atom : Atom}
    (decoded : decode pos key rest = .ok ⟨atom, length⟩) :
    decode pos key (rest ++ more) = .ok ⟨atom, length⟩ := by
  have atomEq : (read key rest).value.atom pos (rest ++ more).isEmpty =
      (read key rest).value.atom pos rest.isEmpty := by
    cases rest with
    | nil => exact atom_eq_of_ne_stop (ne_stop_of_isEndable endable) pos _ _
    | cons => rfl
  simpa only [decode, read_append_of_isApart apart endable, atomEq] using decoded

end Escape

/-! ## Atoms -/

theorem Atom.read_append_of_isApart (apart : IsApart more) {pos length : Nat} {head : Char}
    {tail : List Char} {atom : Atom} (endable : IsEndable (head :: tail))
    (found : Atom.read pos head tail = .ok ⟨atom, length⟩) :
    Atom.read pos head (tail ++ more) = .ok ⟨atom, length⟩ := by
  simp only [Atom.read] at found ⊢
  split at found
  · exact found
  · obtain ⟨⟨cls, taken⟩, read, equal⟩ := ParseError.exists_of_map_eq_ok found
    cases equal
    rw [CharClass.read_append_of_isApart apart read]
    rfl
  · split at found
    · cases found
    · obtain ⟨⟨escape, taken⟩, decoded, equal⟩ := ParseError.exists_of_map_eq_ok found
      cases equal
      simp only [List.cons_append, Escape.decode_append_of_isApart apart endable decoded]
      rfl
  · split at found
    · next anchor written =>
        have anchorEq : anchor.atom pos (pos == 0) (tail ++ more).isEmpty =
            anchor.atom pos (pos == 0) tail.isEmpty := by
          cases tail with
          | cons => rfl
          | nil =>
              apply Anchor.atom_eq_of_ne_stop
              rintro rfl
              have isEnding : head ∈ ['$', 'z', 'Z'] := by
                simpa using Anchor.mem_of_ofChar? written
              have alone : [head] ∈ [['$'], ['z'], ['Z'], ['\\', 'c'], ['\\', 'C', '-']] := by
                simpa using isEnding
              exact endable [head] alone List.suffix_rfl
        rw [anchorEq]
        exact found
    · exact found

end PatternTree
