import PatternTree.Proofs.Text
import PatternTree.Tree.Reader

/-!
# How escapes may be spelled

A character can be written by its code point, a group by its number or its name, and any mark
by itself.  `Escape.Spelled` gives these spellings as they stand after the backslash.  Most of
them end by themselves; a run of digits that could be longer ends where the text after it does
not go on with one.

Each spelling is read in full and without a character more, whatever text follows it, by
`Escape.read_of_spelled`.  What it comes to is said by `Escape.Means`.
-/

namespace PatternTree

namespace Escape

/-- The spellings of an escape after the backslash, where the text `following` comes next. -/
inductive Spelled (following : List Char) : List Char → Escape → Prop where
  | control (c : Char) : Spelled following ['c', c] (.code (c.toNat % 32))
  | dashedControl (c : Char) : Spelled following ['C', '-', c] (.code (c.toNat % 32))
  | twoDigits {digits : List Char} {value : Nat} (written : Text.WritesHex digits value)
      (two : digits.length = 2) : Spelled following ('x' :: digits) (.code value)
  | oneDigit {digit : Char} {value : Nat} (written : Text.WritesHex [digit] value)
      (ends : ∀ c ∈ following.head?, c.isHexDigit = false) :
      Spelled following ['x', digit] (.code value)
  | fourDigits {digits : List Char} {value : Nat} (written : Text.WritesHex digits value)
      (four : digits.length = 4) : Spelled following ('u' :: digits) (.code value)
  | inBraces {digits : List Char} {value : Nat} (written : Text.WritesHex digits value)
      (nonempty : digits ≠ []) (atMostFour : digits.length ≤ 4) :
      Spelled following ('u' :: '\x7b' :: (digits ++ ['\x7d'])) (.code value)
  | number {digits : List Char} (isDigit : ∀ c ∈ digits, c.isDigit = true)
      (nonempty : digits ≠ []) (ends : ∀ c ∈ following.head?, c.isDigit = false) :
      Spelled following digits (.reference (.ofList digits))
  | name {name : List Char} (nonempty : name ≠ []) (absent : '>' ∉ name) :
      Spelled following ('k' :: '<' :: (name ++ ['>'])) (.reference (.ofList name))
  /-- Whatever is no letter and no digit of ASCII stands for itself. -/
  | mark {c : Char} (mark : c.isAlphanum = false) : Spelled following [c] (.literal c)

/-- What an escape whose first character stands at `pos` comes to: a code point is the
character that has it, and is refused if it is a surrogate. -/
inductive Means (pos : Nat) : Escape → Except ParseError Atom → Prop where
  | reference (id : String) : Means pos (.reference id) (.ok (.backReference id))
  | literal (c : Char) : Means pos (.literal c) (.ok (.literal c))
  | code {value : Nat} {c : Char} (isChar : c.toNat = value) :
      Means pos (.code value) (.ok (.literal c))
  | surrogate {value : Nat} (low : 0xD800 ≤ value) (high : value ≤ 0xDFFF) :
      Means pos (.code value) (.error ⟨pos, .invalidScalar value⟩)

/-! ## Forms -/

variable {key : Char} {rest following : List Char} {form : Escape}

theorem isAlphanum_of_named? {span : Span Escape} (found : named? key rest = some span) :
    key.isAlphanum = true := by
  simp only [named?] at found
  split at found
  · rfl
  · rfl
  · cases found

theorem isAlphanum_of_code? {span : Span Nat} (found : code? key rest = some span) :
    key.isAlphanum = true := by
  simp only [code?] at found
  split at found
  · rfl
  · rfl
  · rfl
  · rfl
  · rfl
  · cases found

theorem isAlphanum_of_shorthand? {items : List CharClass.Item}
    (found : CharClass.shorthand? key = some items) : key.isAlphanum = true := by
  simp only [CharClass.shorthand?] at found
  split at found <;> first | rfl | cases found

theorem isAlphanum_of_ofEscaped? {place : Anchor} (found : Anchor.ofEscaped? key = some place) :
    key.isAlphanum = true := by
  simp only [Anchor.ofEscaped?] at found
  split at found <;> first | rfl | cases found

/-- All forms but a literal begin with a letter or a digit. -/
theorem read_of_mark (mark : key.isAlphanum = false) (rest : List Char) :
    read key rest = ⟨.literal key, 0⟩ := by
  have notAlphanum : ¬key.isAlphanum = true := by simp [mark]
  have notDigit : ¬key.isDigit = true := fun isDigit =>
    notAlphanum (by simp [Char.isAlphanum, isDigit])
  have noName : named? key rest = none :=
    Option.eq_none_iff_forall_ne_some.mpr fun _ found =>
      notAlphanum (isAlphanum_of_named? found)
  have noCode : code? key rest = none :=
    Option.eq_none_iff_forall_ne_some.mpr fun _ found =>
      notAlphanum (isAlphanum_of_code? found)
  have noShorthand : CharClass.shorthand? key = none :=
    Option.eq_none_iff_forall_ne_some.mpr fun _ found =>
      notAlphanum (isAlphanum_of_shorthand? found)
  have noAnchor : Anchor.ofEscaped? key = none :=
    Option.eq_none_iff_forall_ne_some.mpr fun _ found =>
      notAlphanum (isAlphanum_of_ofEscaped? found)
  have notCall : key ≠ 'g' := by
    rintro rfl
    exact notAlphanum rfl
  simp [read, notDigit, noName, noCode, ofChar, CharClass.ofShorthand?, noShorthand, noAnchor,
    notCall]

theorem read_of_digits {digits : List Char} (isDigit : ∀ c ∈ key :: digits, c.isDigit = true)
    (ends : ∀ c ∈ following.head?, c.isDigit = false) :
    read key (digits ++ following) = ⟨.reference (.ofList (key :: digits)), digits.length⟩ := by
  have keyDigit := isDigit key List.mem_cons_self
  have restDigit : ∀ c ∈ digits, c.isDigit = true :=
    fun c member => isDigit c (List.mem_cons_of_mem key member)
  have whole : (digits ++ []).takeWhile Char.isDigit = digits ++ [].takeWhile Char.isDigit :=
    List.takeWhile_append_of_pos restDigit
  have run : (digits ++ following).takeWhile Char.isDigit = digits := by
    rw [Text.takeWhile_append_of_head ends]
    simpa using whole
  simp only [read, keyDigit, if_true, run]

/-- A spelling is read in full, and nothing of what follows. -/
theorem read_of_spelled (spelled : Spelled following (key :: rest) form) :
    read key (rest ++ following) = ⟨form, rest.length⟩ := by
  cases spelled with
  | control c | dashedControl c => rfl
  | twoDigits written two =>
      have run : Text.hexRun 2 (rest ++ following) = rest :=
        Text.hexRun_append_of_fits written.isHexDigit (Nat.le_of_eq two) (by omega)
      have nonempty : rest.isEmpty = false := by
        cases rest with
        | nil => cases two
        | cons => rfl
      simp [read, named?, code?, run, nonempty, written.hexValue_eq, Span.map]
  | @oneDigit digit value written ends =>
      have run : Text.hexRun 2 ([digit] ++ following) = [digit] :=
        Text.hexRun_append_of_fits written.isHexDigit (by simp) fun _ => ends
      simp only [List.singleton_append] at run
      simp [read, named?, code?, run, written.hexValue_eq, Span.map]
  | fourDigits written four =>
      have run : Text.hexRun 4 (rest ++ following) = rest :=
        Text.hexRun_append_of_fits written.isHexDigit (Nat.le_of_eq four) (by omega)
      have noBrace : ∀ tail, rest ++ following ≠ '\x7b' :: tail := by
        intro tail equal
        cases rest with
        | nil => cases four
        | cons head digits =>
            obtain ⟨rfl, _⟩ := List.cons.inj equal
            exact absurd (written.isHexDigit '\x7b' List.mem_cons_self) (by decide)
      simp [read, named?, code?, run, four, noBrace, written.hexValue_eq, Span.map]
  | @inBraces digits value written nonempty atMostFour =>
      have run : Text.hexRun 4 (digits ++ '\x7d' :: following) = digits :=
        Text.hexRun_append_of_fits written.isHexDigit atMostFour
          fun _ => by simp [Char.isHexDigit]
      simp [read, named?, code?, run, nonempty, written.hexValue_eq, Span.map]
  | number isDigit _ ends => exact read_of_digits isDigit ends
  | @name name nonempty absent =>
      have enclosed := Text.enclosed?_eq_some_iff.mpr ⟨nonempty, absent, following, rfl⟩
      simp [read, named?, enclosed]
  | mark mark => exact read_of_mark mark following

/-! ## Meanings -/

/-- No spelling writes a code point of more than four digits, and only after `u` has it more than
two. -/
theorem value_lt_of_spelled {value : Nat}
    (spelled : Spelled following (key :: rest) (.code value)) :
    value < 0x10000 ∧ (key ≠ 'u' → value < 0x100) := by
  cases spelled with
  | control c | dashedControl c => omega
  | twoDigits written two =>
      have bounded := written.lt
      rw [two] at bounded
      omega
  | oneDigit written _ =>
      have bounded := written.lt
      rw [List.length_singleton] at bounded
      omega
  | fourDigits written four =>
      have bounded := written.lt
      rw [four] at bounded
      exact ⟨bounded, fun notU => absurd rfl notU⟩
  | @inBraces digits _ written _ atMostFour =>
      have power : 16 ^ digits.length ≤ 16 ^ 4 := Nat.pow_le_pow_right (by decide) atMostFour
      exact ⟨Nat.lt_of_lt_of_le written.lt power, fun notU => absurd rfl notU⟩

/-- An escape means one thing, whether or not the text ends with it. -/
theorem Means.atom_eq {pos : Nat} {outcome : Except ParseError Atom}
    (means : Means pos form outcome) (atEnd : Bool) : form.atom pos atEnd = outcome := by
  cases means with
  | reference | literal => rfl
  | code isChar => simp only [Escape.atom, Text.scalar?_eq_some_iff.mpr isChar]
  | @surrogate value low high =>
      have noChar : Text.scalar? value = none := by
        rw [Text.scalar?, if_neg]
        simp only [Nat.isValidChar]
        omega
      simp only [Escape.atom, noChar]

/-- A number of four hexadecimal digits is the code point of a character or a surrogate. -/
theorem exists_char_or_surrogate {value : Nat} (small : value < 0x10000) :
    (∃ c : Char, c.toNat = value) ∨ 0xD800 ≤ value ∧ value ≤ 0xDFFF := by
  by_cases surrogate : 0xD800 ≤ value ∧ value ≤ 0xDFFF
  · exact .inr surrogate
  · have valid : value.isValidChar := by
      simp only [Nat.isValidChar]
      omega
    exact .inl ⟨Char.ofNat value, Text.scalar?_eq_some_iff.mp (by rw [Text.scalar?, if_pos valid])⟩

theorem exists_means (pos : Nat) (spelled : Spelled following (key :: rest) form) :
    ∃ outcome, Means pos form outcome ∧ (key ≠ 'u' → ∃ atom, outcome = .ok atom) := by
  cases form with
  | reference id => exact ⟨_, .reference id, fun _ => ⟨_, rfl⟩⟩
  | literal c => exact ⟨_, .literal c, fun _ => ⟨_, rfl⟩⟩
  | code value =>
      obtain ⟨small, smaller⟩ := value_lt_of_spelled spelled
      rcases exists_char_or_surrogate small with ⟨c, isChar⟩ | ⟨low, high⟩
      · exact ⟨_, .code isChar, fun _ => ⟨_, rfl⟩⟩
      · refine ⟨_, .surrogate low high, fun notU => ?_⟩
        have tooSmall := smaller notU
        omega
  | shorthand | property | call | anchor => cases spelled

/-- An escape that is spelled in one of these ways is decoded as what the spelling means, and takes
its text and no more, whatever follows and wherever it stands.  Every spelling has a meaning, and
none is refused but after `u`. -/
theorem spelled_is_decoded (pos : Nat) (key : Char) (rest following : List Char) (form : Escape)
    (spelled : Spelled following (key :: rest) form) :
    (∀ outcome, Means (pos + 1) form outcome →
      decode (pos + 1) key (rest ++ following) = outcome.map (⟨·, rest.length⟩) ∧
      Atom.read pos '\\' (key :: rest ++ following) =
        outcome.map (⟨·, (key :: rest).length⟩)) ∧
    ∃ outcome, Means (pos + 1) form outcome ∧ (key ≠ 'u' → ∃ atom, outcome = .ok atom) := by
  refine ⟨fun outcome means => ?_, exists_means (pos + 1) spelled⟩
  have decoded : decode (pos + 1) key (rest ++ following) = outcome.map (⟨·, rest.length⟩) := by
    simp only [decode, read_of_spelled spelled, means.atom_eq]
    cases outcome <;> rfl
  refine ⟨decoded, ?_⟩
  simp only [Atom.read, List.cons_append, decoded]
  cases outcome <;> rfl

/-- A surrogate is refused in digits of any kind and either letter case, and the digit behind the
brace is none of them. -/
theorem spelled_is_decoded_surrogate :
    Spelled ['9', '\x7d'] ['u', '\x7b', 'd', '9', 'F', '0', '\x7d'] (.code 0xD9F0) ∧
      decode 1 'u' ['\x7b', 'd', '9', 'F', '0', '\x7d', '9', '\x7d'] =
        .error ⟨1, .invalidScalar 0xD9F0⟩ := by
  have written : Text.WritesHex ['d', '9', 'F', '0'] 0xD9F0 := ⟨by simp [Char.isHexDigit], rfl⟩
  have spelled : Spelled ['9', '\x7d'] ['u', '\x7b', 'd', '9', 'F', '0', '\x7d'] (.code 0xD9F0) :=
    .inBraces written (by decide) (by decide)
  obtain ⟨decoded, _⟩ := spelled_is_decoded 0 _ _ _ _ spelled
  exact ⟨spelled, (decoded _ (.surrogate (by decide) (by decide))).1⟩

end Escape

end PatternTree
