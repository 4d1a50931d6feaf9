import Mathlib.Algebra.Group.Nat.Defs
import Mathlib.Data.List.Induction
import Mathlib.Data.List.Infix
import Mathlib.Data.Nat.Digits.Defs
import PatternTree.Text

/-!
# Runs at the front of a text

A run of characters that stops inside the text is the same before a longer text, and so
is a run at the end of the text that the text behind it does not go on with.
A run of hexadecimal digits writes the number of `WritesHex`, which its length bounds.
-/

namespace PatternTree.Text

variable {test : Char → Bool} {text more : List Char}

/-! ## Runs that stop -/

theorem takeWhile_append_of_stops (stops : text.dropWhile test ≠ []) (more : List Char) :
    (text ++ more).takeWhile test = text.takeWhile test := by
  have longer := congrArg List.length (List.takeWhile_append_dropWhile (p := test) (l := text))
  have positive := List.length_pos_iff.mpr stops
  rw [List.length_append] at longer
  rw [List.takeWhile_append, if_neg (by omega)]

theorem dropWhile_append_of_stops (stops : text.dropWhile test ≠ []) (more : List Char) :
    (text ++ more).dropWhile test = text.dropWhile test ++ more := by
  rw [List.dropWhile_append, if_neg (by simpa using stops)]

/-- What comes after a run is the text without as many characters. -/
theorem drop_length_takeWhile (test : Char → Bool) (text : List Char) :
    text.drop (text.takeWhile test).length = text.dropWhile test := by
  have dropped : ((text.takeWhile test) ++ text.dropWhile test).drop (text.takeWhile test).length =
      text.dropWhile test := List.drop_left
  rwa [List.takeWhile_append_dropWhile] at dropped

theorem getElem?_length_takeWhile (test : Char → Bool) (text : List Char) :
    text[(text.takeWhile test).length]? = (text.dropWhile test).head? := by
  rw [← List.head?_drop, drop_length_takeWhile]

/-- What is taken up to a position is taken up to the next one, with the character that
stands there. -/
theorem take_succ_of_drop {pos : Nat} {c : Char} {rest : List Char}
    (here : text.drop pos = c :: rest) : text.take (pos + 1) = text.take pos ++ [c] := by
  rw [List.take_add, here, List.take_succ_cons, List.take_zero]

theorem lt_length_of_drop {pos : Nat} {c : Char} {rest : List Char}
    (here : text.drop pos = c :: rest) : pos < text.length := by
  have lengthEq := congrArg List.length here
  rw [List.length_drop, List.length_cons] at lengthEq
  omega

theorem drop_succ_of_drop {pos : Nat} {c : Char} {rest : List Char}
    (here : text.drop pos = c :: rest) : text.drop (pos + 1) = rest := by
  rw [← List.tail_drop, here, List.tail_cons]

theorem getElem?_of_drop {pos : Nat} {c : Char} {rest : List Char}
    (here : text.drop pos = c :: rest) : text[pos]? = some c := by
  rw [← List.head?_drop, here, List.head?_cons]

/-- What has been read, the next character and the rest make up the text. -/
theorem length_of_drop {pos : Nat} {c : Char} {rest : List Char}
    (here : text.drop pos = c :: rest) : text.length = pos + (rest.length + 1) := by
  have inside := lt_length_of_drop here
  have lengthEq := congrArg List.length here
  rw [List.length_drop, List.length_cons] at lengthEq
  omega

theorem exists_before_of_drop {pos : Nat} {c : Char} {rest : List Char}
    (here : text.drop pos = c :: rest) :
    ∃ before, text = before ++ c :: rest ∧ before.length = pos := by
  have inside := lt_length_of_drop here
  refine ⟨text.take pos, ?_, List.length_take_of_le (Nat.le_of_lt inside)⟩
  rw [← here, List.take_append_drop]

/-! ## Texts that a run does not go on into -/

theorem takeWhile_append_of_head (fails : ∀ c ∈ more.head?, test c = false) (text : List Char) :
    (text ++ more).takeWhile test = text.takeWhile test := by
  have none : more.takeWhile test = [] := by
    cases more with
    | nil => rfl
    | cons head tail => simp [fails head rfl]
  rw [List.takeWhile_append, none, List.append_nil]
  split
  · next whole => exact ((List.takeWhile_prefix test).eq_of_length whole).symm
  · rfl

theorem dropWhile_append_of_head (fails : ∀ c ∈ more.head?, test c = false) (text : List Char) :
    (text ++ more).dropWhile test = text.dropWhile test ++ more := by
  rw [← drop_length_takeWhile, ← drop_length_takeWhile, takeWhile_append_of_head fails]
  exact List.drop_append_of_le_length (List.takeWhile_prefix test).length_le

/-- Where the last character of a front is not in what is added, the front was there
before. -/
theorem prefix_of_prefix_append {front : List Char} {last : Char}
    (found : front ++ [last] <+: text ++ more) (absent : last ∉ more) :
    front ++ [last] <+: text := by
  rcases List.prefix_or_prefix_of_prefix found (List.prefix_append text more) with inside | longer
  · exact inside
  · obtain ⟨rest, restEq⟩ := longer
    rw [← restEq, List.prefix_append_right_inj] at found
    cases rest with
    | nil => exact ⟨[], by simpa using restEq.symm⟩
    | cons head tail =>
        have isLast := congrArg List.getLast? restEq
        rw [List.getLast?_append_of_ne_nil _ (by simp), List.getLast?_concat] at isLast
        exact absurd (found.subset (List.mem_of_getLast? isLast)) absent

theorem enclosed?_append_of_not_mem {stop : Char} (absent : stop ∉ more) (text : List Char) :
    enclosed? stop (text ++ more) = enclosed? stop text := by
  have here (name : List Char) : (∃ rest, text ++ more = name ++ stop :: rest) ↔
      ∃ rest, text = name ++ stop :: rest := by
    constructor
    · rintro ⟨rest, textEq⟩
      have found : name ++ [stop] <+: text ++ more := ⟨rest, by simp [textEq]⟩
      obtain ⟨rest, textEq⟩ := prefix_of_prefix_append found absent
      exact ⟨rest, by simp [← textEq]⟩
    · rintro ⟨rest, rfl⟩
      exact ⟨rest ++ more, by simp⟩
  apply Option.ext
  intro name
  rw [enclosed?_eq_some_iff, enclosed?_eq_some_iff, here]

/-! ## Hexadecimal digits -/

theorem hexRun_append {limit : Nat} (stops : (hexRun limit text).length < text.length)
    (more : List Char) : hexRun limit (text ++ more) = hexRun limit text := by
  unfold hexRun at stops ⊢
  by_cases inside : limit ≤ text.length
  · rw [List.take_append_of_le_length inside]
  · have whole := List.take_of_length_le (Nat.le_of_not_le inside)
    rw [whole] at stops ⊢
    rw [List.take_append, whole, List.takeWhile_append, if_neg (Nat.ne_of_lt stops)]

theorem hexRun_append_of_head (fails : ∀ c ∈ more.head?, c.isHexDigit = false)
    (limit : Nat) (text : List Char) : hexRun limit (text ++ more) = hexRun limit text := by
  unfold hexRun
  rw [List.take_append]
  apply takeWhile_append_of_head
  intro c headEq
  rw [List.head?_take] at headEq
  split at headEq
  · cases headEq
  · exact fails c headEq

/-- A run that is as long as allowed, or that the text behind it does not go on with, is taken
whole. -/
theorem hexRun_append_of_fits {limit : Nat} {digits : List Char}
    (hex : ∀ c ∈ digits, c.isHexDigit = true) (fits : digits.length ≤ limit)
    (ends : digits.length < limit → ∀ c ∈ more.head?, c.isHexDigit = false) :
    hexRun limit (digits ++ more) = digits := by
  have behind : (more.take (limit - digits.length)).takeWhile Char.isHexDigit = [] := by
    by_cases short : digits.length < limit
    · cases more with
      | nil => simp
      | cons head tail =>
          obtain ⟨room, roomEq⟩ := Nat.exists_eq_add_of_lt short
          have noDigit := ends short head rfl
          rw [roomEq, Nat.add_assoc, Nat.add_sub_cancel_left, List.take_succ_cons]
          simp [noDigit]
    · rw [Nat.sub_eq_zero_of_le (Nat.le_of_not_lt short), List.take_zero, List.takeWhile_nil]
  rw [hexRun, List.take_append, List.take_of_length_le fits,
    List.takeWhile_append_of_pos hex, behind, List.append_nil]

theorem hexRun_prefix (limit : Nat) (text : List Char) : hexRun limit text <+: text :=
  (List.takeWhile_prefix _).trans (List.take_prefix limit text)

theorem isHexDigit_of_mem_hexRun {limit : Nat} {c : Char} (member : c ∈ hexRun limit text) :
    c.isHexDigit = true :=
  List.all_eq_true.mp List.all_takeWhile c member

/-! ## Hexadecimal numbers -/

/-- The hexadecimal digits in the order of their values. -/
def hexDigits : List Char :=
  ['0', '1', '2', '3', '4', '5', '6', '7', '8', '9', 'a', 'b', 'c', 'd', 'e', 'f']

/-- A run of hexadecimal digits, each in either letter case, writes a number to base sixteen. -/
structure WritesHex (digits : List Char) (value : Nat) : Prop where
  isHexDigit : ∀ c ∈ digits, c.isHexDigit = true
  value_eq : Nat.ofDigits 16 (digits.reverse.map fun c => hexDigits.idxOf c.toLower) = value

/-- The hexadecimal digits are among the first characters, so what holds of them all can be
decided. -/
@[elab_as_elim]
theorem hexDigit_cases {holds : Char → Prop} {digit : Char} (isHex : digit.isHexDigit = true)
    (ascii : ∀ code < 128, (Char.ofNat code).isHexDigit = true → holds (.ofNat code)) :
    holds digit := by
  have small : digit.toNat < 128 := by
    simp only [Char.isHexDigit, Char.isDigit, Bool.or_eq_true, Bool.and_eq_true,
      decide_eq_true_eq, ge_iff_le, UInt32.le_iff_toNat_le, Char.reduceVal,
      UInt32.reduceToNat] at isHex
    simp only [Char.toNat]
    omega
  have found := ascii digit.toNat small
  rw [Char.ofNat_toNat] at found
  exact found isHex

theorem hexDigitValue_eq_idxOf {digit : Char} (isHex : digit.isHexDigit = true) :
    hexDigitValue digit = hexDigits.idxOf digit.toLower :=
  hexDigit_cases isHex (by decide +kernel)

theorem idxOf_hexDigits_lt {digit : Char} (isHex : digit.isHexDigit = true) :
    hexDigits.idxOf digit.toLower < 16 :=
  hexDigit_cases isHex (by decide +kernel)

theorem hexValue_eq_ofDigits (digits : List Char) :
    hexValue digits = Nat.ofDigits 16 (digits.reverse.map hexDigitValue) := by
  rw [Nat.ofDigits_eq_foldr, List.foldr_map, List.foldr_reverse, hexValue]
  simp only [Nat.cast_id, Nat.add_comm]

theorem writesHex_hexValue {digits : List Char} (hex : ∀ c ∈ digits, c.isHexDigit = true) :
    WritesHex digits (hexValue digits) where
  isHexDigit := hex
  value_eq := by
    rw [hexValue_eq_ofDigits]
    apply congrArg
    apply List.map_congr_left
    intro c member
    exact (hexDigitValue_eq_idxOf (hex c (List.mem_reverse.mp member))).symm

namespace WritesHex

variable {digits : List Char} {value : Nat}

theorem hexValue_eq (written : WritesHex digits value) : hexValue digits = value :=
  (writesHex_hexValue written.isHexDigit).value_eq.symm.trans written.value_eq

theorem lt (written : WritesHex digits value) : value < 16 ^ digits.length := by
  have small : ∀ weight ∈ digits.reverse.map fun c => hexDigits.idxOf c.toLower, weight < 16 := by
    intro weight member
    obtain ⟨c, inside, rfl⟩ := List.mem_map.mp member
    exact idxOf_hexDigits_lt (written.isHexDigit c (List.mem_reverse.mp inside))
  have bounded := Nat.ofDigits_lt_base_pow_length (by decide) small
  rwa [written.value_eq, List.length_map, List.length_reverse] at bounded

end WritesHex

theorem hexValue_lt {digits : List Char} (hex : ∀ c ∈ digits, c.isHexDigit = true) :
    hexValue digits < 16 ^ digits.length :=
  (writesHex_hexValue hex).lt

theorem hexValue_hexRun_lt (limit : Nat) (text : List Char) :
    hexValue (hexRun limit text) < 16 ^ limit := by
  have short := Nat.le_trans (length_hexRun_le limit text) (Nat.min_le_left _ _)
  have bounded : hexValue (hexRun limit text) < 16 ^ (hexRun limit text).length :=
    hexValue_lt fun _ member => isHexDigit_of_mem_hexRun member
  exact Nat.lt_of_lt_of_le bounded (Nat.pow_le_pow_right (by decide) short)

end PatternTree.Text
