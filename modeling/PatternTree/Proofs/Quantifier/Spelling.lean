import PatternTree.Quantifier.Reader

/-!
# How braces may be spelled

A brace quantifier is an exact number, or a comma with a number on one side of it at least.
Numbers may have any number of digits and leading zeros, and their values must fit a word.
`Braces.Spelled` gives all spellings with the bounds that they write.  The reader of braces
accepts these and no others, by `Braces.read?_of_spelled` and `Braces.exists_spelled_of_read?`.
-/

namespace PatternTree

/-- A run of digits writes a count in decimal. -/
structure Count.IsWritten (count : Count) (digits : List Char) : Prop where
  nonempty : digits ≠ []
  isDigit : ∀ c ∈ digits, c.isDigit = true
  value : Nat.ofDigitChars 10 digits 0 = count.toNat

namespace Braces

/-- The spellings of a quantifier in braces after the opening one, and the bounds that they
write. -/
inductive Spelled : List Char → Braces → Prop where
  | exactly {digits : List Char} {count : Count} (written : count.IsWritten digits) :
      Spelled (digits ++ ['\x7d']) ⟨some count, false, none⟩
  | atLeast {digits : List Char} {least : Count} (written : least.IsWritten digits) :
      Spelled (digits ++ [',', '\x7d']) ⟨some least, true, none⟩
  | atMost {digits : List Char} {most : Count} (written : most.IsWritten digits) :
      Spelled (',' :: (digits ++ ['\x7d'])) ⟨none, true, some most⟩
  | between {low high : List Char} {least most : Count} (leastWritten : least.IsWritten low)
      (mostWritten : most.IsWritten high) :
      Spelled (low ++ ',' :: (high ++ ['\x7d'])) ⟨some least, true, some most⟩

/-! ## Bounds -/

variable {digits low high : List Char}

theorem bound?_eq_some_none_iff : bound? digits = some none ↔ digits = [] := by
  cases digits with
  | nil => simp [bound?]
  | cons head tail => simp [bound?]

theorem bound?_eq_some_some_iff {count : Count} (isDigit : ∀ c ∈ digits, c.isDigit = true) :
    bound? digits = some (some count) ↔ count.IsWritten digits := by
  cases digits with
  | nil =>
      refine iff_of_false (by simp [bound?]) ?_
      intro written
      exact written.nonempty rfl
  | cons head tail =>
      have value_iff : Count.ofDigits? (head :: tail) = some count ↔
          Nat.ofDigitChars 10 (head :: tail) 0 = count.toNat :=
        Count.ofNat?_eq_some_iff.trans eq_comm
      simp only [bound?, Option.map_eq_some_iff, Option.some.injEq, exists_eq_right, value_iff]
      exact ⟨fun value => ⟨by simp, isDigit, value⟩, fun written => written.value⟩

theorem bound?_of_isWritten {count : Count} (written : count.IsWritten digits) :
    bound? digits = some (some count) :=
  (bound?_eq_some_some_iff written.isDigit).mpr written

/-- A run of digits ends at the first character that is no digit. -/
theorem takeWhile_digits (isDigit : ∀ c ∈ digits, c.isDigit = true) {stop : Char}
    (notDigit : stop.isDigit = false) (rest : List Char) :
    (digits ++ stop :: rest).takeWhile Char.isDigit = digits := by
  rw [List.takeWhile_append_of_pos isDigit]
  simp [notDigit]

theorem dropWhile_digits (isDigit : ∀ c ∈ digits, c.isDigit = true) {stop : Char}
    (notDigit : stop.isDigit = false) (rest : List Char) :
    (digits ++ stop :: rest).dropWhile Char.isDigit = stop :: rest := by
  rw [List.dropWhile_append_of_pos isDigit]
  simp [notDigit]

theorem isDigit_of_mem_takeWhile (text : List Char) :
    ∀ c ∈ text.takeWhile Char.isDigit, c.isDigit = true :=
  fun _ member => List.all_eq_true.mp List.all_takeWhile _ member

/-! ## Braces -/

theorem read?_of_exact {count : Count} (written : count.IsWritten digits) (rest : List Char) :
    read? (digits ++ '\x7d' :: rest) = some ⟨⟨some count, false, none⟩, digits.length + 1⟩ := by
  have notDigit : Char.isDigit '\x7d' = false := by decide
  simp only [read?, takeWhile_digits written.isDigit notDigit,
    dropWhile_digits written.isDigit notDigit, bound?_of_isWritten written]

/-- Braces with a comma are read in one way, whichever bound is left out. -/
theorem read?_of_comma {min max : Option Count} (lowDigit : ∀ c ∈ low, c.isDigit = true)
    (highDigit : ∀ c ∈ high, c.isDigit = true) (minRead : bound? low = some min)
    (maxRead : bound? high = some max) (bounded : (min.isNone && max.isNone) = false)
    (rest : List Char) :
    read? (low ++ ',' :: (high ++ '\x7d' :: rest)) =
      some ⟨⟨min, true, max⟩, low.length + high.length + 2⟩ := by
  have comma : Char.isDigit ',' = false := by decide
  have brace : Char.isDigit '\x7d' = false := by decide
  simp only [read?, takeWhile_digits lowDigit comma, dropWhile_digits lowDigit comma,
    takeWhile_digits highDigit brace, dropWhile_digits highDigit brace, minRead, maxRead, bounded,
    Bool.false_eq_true, if_false]

theorem read?_of_spelled {content : List Char} {braces : Braces} (spelled : Spelled content braces)
    (rest : List Char) : read? (content ++ rest) = some ⟨braces, content.length⟩ := by
  have noDigits : ∀ c ∈ ([] : List Char), c.isDigit = true := by simp
  cases spelled with
  | exactly written =>
      have found := read?_of_exact written rest
      simpa using found
  | atLeast written =>
      have found := read?_of_comma written.isDigit noDigits (bound?_of_isWritten written) rfl rfl rest
      simpa using found
  | atMost written =>
      have found := read?_of_comma noDigits written.isDigit rfl (bound?_of_isWritten written) rfl rest
      simpa using found
  | between leastWritten mostWritten =>
      have found := read?_of_comma leastWritten.isDigit mostWritten.isDigit
        (bound?_of_isWritten leastWritten) (bound?_of_isWritten mostWritten) rfl rest
      simpa [Nat.add_assoc] using found

/-- Whatever the reader accepts is spelled at the front of the text. -/
theorem exists_spelled_of_read? {text : List Char} {span : Span Braces}
    (found : read? text = some span) :
    ∃ content rest, Spelled content span.value ∧ text = content ++ rest ∧
      content.length = span.length := by
  have lowDigit := isDigit_of_mem_takeWhile text
  have textEq := List.takeWhile_append_dropWhile (p := Char.isDigit) (l := text)
  simp only [read?] at found
  split at found
  · next rest closed =>
      rw [closed] at textEq
      split at found
      · next count lowRead =>
          cases found
          have written := (bound?_eq_some_some_iff lowDigit).mp lowRead
          exact ⟨_, rest, .exactly written, by simp [textEq], by simp⟩
      · cases found
  · next afterComma separated =>
      have highDigit := isDigit_of_mem_takeWhile afterComma
      have afterEq := List.takeWhile_append_dropWhile (p := Char.isDigit) (l := afterComma)
      rw [separated] at textEq
      split at found
      · next rest min max closed minRead maxRead =>
          rw [closed] at afterEq
          rw [← afterEq] at textEq
          generalize text.takeWhile Char.isDigit = low at *
          generalize afterComma.takeWhile Char.isDigit = high at *
          cases min with
          | none =>
              cases bound?_eq_some_none_iff.mp minRead
              cases max with
              | none => cases found
              | some most =>
                  cases found
                  have written := (bound?_eq_some_some_iff highDigit).mp maxRead
                  exact ⟨_, rest, .atMost written, by simp [← textEq], by simp⟩
          | some least =>
              have leastWritten := (bound?_eq_some_some_iff lowDigit).mp minRead
              cases max with
              | none =>
                  cases bound?_eq_some_none_iff.mp maxRead
                  cases found
                  exact ⟨_, rest, .atLeast leastWritten, by simp [← textEq], by simp⟩
              | some most =>
                  cases found
                  have mostWritten := (bound?_eq_some_some_iff highDigit).mp maxRead
                  exact ⟨_, rest, .between leastWritten mostWritten, by simp [← textEq],
                    by simp; omega⟩
      · cases found
  · cases found

theorem read?_eq_none_iff {text : List Char} :
    read? text = none ↔ ∀ content rest braces, Spelled content braces → text ≠ content ++ rest := by
  constructor
  · rintro none content rest braces spelled rfl
    rw [read?_of_spelled spelled] at none
    cases none
  · intro unspelled
    rw [Option.eq_none_iff_forall_ne_some]
    intro span found
    obtain ⟨content, rest, spelled, textEq, _⟩ := exists_spelled_of_read? found
    exact unspelled content rest span.value spelled textEq

end Braces

end PatternTree
