import PatternTree.Escape
import PatternTree.Proofs.Guarded.Basic
import PatternTree.Proofs.Text

/-!
# Escapes under guard

The digits and names of an escape are cut out of the text, and its code point is computed digit by
digit.  `Guarded.decode` does both under guard, and comes to what `Escape.decode` comes to.
-/

namespace PatternTree.Guarded

/-- The control character with the same five low bits. -/
def control (c : Char) : Guarded Char :=
  match Text.scalar? (c.toNat % 32) with
  | some control => .ok control
  | none => .error (.lapse .noControl)

/-- The number that hexadecimal digits write, if four digits can write it. -/
def hexValue (digits : List Char) : Guarded Nat :=
  digits.foldlM (fun value digit =>
    let next := 16 * value + Text.hexDigitValue digit
    if next ≤ 0xFFFF then .ok next else .error (.lapse .overflow)) 0

/-- The character whose code point the digits write. -/
def scalar (pos : Nat) (digits : List Char) : Guarded Char := do
  let value ← hexValue digits
  match Text.scalar? value with
  | some c => .ok c
  | none => .error (.refusal ⟨pos, .invalidScalar value⟩)

/-- How many digits stand before a closing brace. -/
def bracedLength? (text : List Char) : Option Nat :=
  let length := (Text.hexRun 4 text).length
  if 0 < length ∧ text[length]? = some '\x7d' then some length else none

/-- The character that the first `length` characters of a text write, in an escape of `taken`
characters. -/
def number (pos : Nat) (text : List Char) (length taken : Nat) : Guarded (Option (Span Char)) := do
  let digits ← slice text 0 length
  let c ← scalar pos digits
  pure (some ⟨c, taken⟩)

/-- Decode a code point, if the text has the form of one. -/
def code? (pos : Nat) : Char → List Char → Guarded (Option (Span Char))
  | 'c', c :: _ => do
      let control ← control c
      pure (some ⟨control, 1⟩)
  | 'C', '-' :: c :: _ => do
      let control ← control c
      pure (some ⟨control, 2⟩)
  | 'x', text =>
      let length := (Text.hexRun 2 text).length
      if 0 < length then number pos text length length else pure none
  | 'u', '\x7b' :: text =>
      if (bracedLength? text).isSome then do
        let length ← match bracedLength? text with
          | some length => .ok length
          | none => .error (.lapse .noDigits)
        number pos text length (length + 2)
      else pure none
  | 'u', text => if (Text.hexRun 4 text).length = 4 then number pos text 4 4 else pure none
  | _, _ => pure none

/-- Decode a reference by name, if the text has the form of one. -/
def reference? : Char → List Char → Guarded (Option (Span Atom))
  | 'k', '<' :: text =>
      match Text.enclosed? '>' text with
      | some found => do
          let name ← slice text 0 found.length
          pure (some ⟨.backReference (.ofList name), found.length + 2⟩)
      | none => pure none
  | _, _ => pure none

/-- Decode the text after a backslash, whose first character stands at `pos`.  The length counts
the characters after that one. -/
def decode (text : List Char) (pos : Nat) (atEnd : Bool) : Guarded (Span Atom) :=
  match text with
  | [] => .error (.lapse .emptyEscape)
  | key :: rest => do
      let count := (text.takeWhile Char.isDigit).length
      if 0 < count then
        let digits ← slice text 0 count
        pure ⟨.backReference (.ofList digits), count - 1⟩
      else
        match ← reference? key rest with
        | some span => pure span
        | none =>
            match ← code? pos key rest with
            | some span => pure (span.map .literal)
            | none =>
                let form := (Escape.named? key rest).getD ⟨Escape.ofChar key, 0⟩
                let atom ← lift (form.value.atom pos atEnd)
                pure ⟨atom, form.length⟩

/-! ## Code points -/

/-- The low bits of a character are always the code point of one. -/
theorem exists_control (c : Char) :
    ∃ low, Text.scalar? (c.toNat % 32) = some low ∧ control c = .ok low := by
  have valid : (c.toNat % 32).isValidChar := .inl (by omega)
  have found : Text.scalar? (c.toNat % 32) = some (Char.ofNat (c.toNat % 32)) := if_pos valid
  exact ⟨_, found, by rw [control, found]⟩

/-- Four digits do not overflow, and nor does any beginning of them. -/
theorem hexValue_eq {digits : List Char} (hex : ∀ c ∈ digits, c.isHexDigit = true)
    (short : digits.length ≤ 4) : hexValue digits = .ok (Text.hexValue digits) := by
  induction digits using List.reverseRecOn with
  | nil => rfl
  | append_singleton front last ih =>
      have before : hexValue front = .ok (Text.hexValue front) := by
        refine ih (fun c member => hex c (by simp [member])) ?_
        rw [List.length_append] at short
        omega
      have bounded : Text.hexValue (front ++ [last]) < 16 ^ (front ++ [last]).length :=
        Text.hexValue_lt hex
      have power : 16 ^ (front ++ [last]).length ≤ 16 ^ 4 :=
        Nat.pow_le_pow_right (by decide) short
      have value : Text.hexValue (front ++ [last]) =
          16 * Text.hexValue front + Text.hexDigitValue last := by
        simp [Text.hexValue]
      have fits : 16 * Text.hexValue front + Text.hexDigitValue last ≤ 0xFFFF := by
        rw [← value]
        omega
      rw [hexValue] at before ⊢
      rw [List.foldlM_append, before, value]
      simp [fits]

/-- The answer for a code point: its character, or a refusal if it has none. -/
def answer (pos value length : Nat) : Guarded (Option (Span Char)) :=
  (Text.scalar? value).elim (.error (.refusal ⟨pos, .invalidScalar value⟩))
    (fun c => .ok (some ⟨c, length⟩))

theorem number_hexRun {limit : Nat} (short : limit ≤ 4) (pos : Nat) (text : List Char)
    (taken : Nat) :
    number pos text (Text.hexRun limit text).length taken =
      answer pos (Text.hexValue (Text.hexRun limit text)) taken := by
  have cut : slice text 0 (Text.hexRun limit text).length = .ok (Text.hexRun limit text) :=
    slice_front (Text.hexRun_prefix limit text)
  have fits := Nat.le_trans (Text.length_hexRun_le limit text) (Nat.min_le_left _ _)
  have value : hexValue (Text.hexRun limit text) = .ok (Text.hexValue (Text.hexRun limit text)) :=
    hexValue_eq (fun _ => Text.isHexDigit_of_mem_hexRun) (Nat.le_trans fits short)
  simp only [number, cut, scalar, value, ok_bind, answer]
  cases Text.scalar? (Text.hexValue (Text.hexRun limit text)) <;> rfl

theorem code?_eq (pos : Nat) (key : Char) (rest : List Char) :
    code? pos key rest =
      (Escape.code? key rest).elim (.ok none) fun span => answer pos span.value span.length := by
  unfold code?
  split
  · next c tail =>
      obtain ⟨low, found, controlEq⟩ := exists_control c
      simp [Escape.code?, controlEq, answer, found]
  · next c tail =>
      obtain ⟨low, found, controlEq⟩ := exists_control c
      simp [Escape.code?, controlEq, answer, found]
  · by_cases empty : Text.hexRun 2 rest = []
    · simp [Escape.code?, empty]
    · simp [Escape.code?, empty, List.length_pos_iff, number_hexRun]
  · next text =>
      by_cases braced : Text.hexRun 4 text ≠ [] ∧
          text[(Text.hexRun 4 text).length]? = some '\x7d'
      · have found : bracedLength? text = some (Text.hexRun 4 text).length := by
          simp [bracedLength?, List.length_pos_iff, braced]
        simp [Escape.code?, found, braced, number_hexRun]
      · have absent : bracedLength? text = none := by
          simp [bracedLength?, List.length_pos_iff, braced]
        simp only [Ne] at braced
        simp [Escape.code?, absent, braced]
  · by_cases four : (Text.hexRun 4 rest).length = 4
    · have run : number pos rest 4 4 = answer pos (Text.hexValue (Text.hexRun 4 rest)) 4 := by
        have cut := number_hexRun (Nat.le_refl 4) pos rest 4
        rwa [four] at cut
      simp [Escape.code?, four, run]
    · simp [Escape.code?, four]
  · have absent : Escape.code? key rest = none := by
      unfold Escape.code?
      split <;> simp_all
    rw [absent]
    rfl

/-! ## References and properties -/

/-- Where a name is enclosed, it is a reference that is cut out of the text or a property. -/
theorem named?_cases (key : Char) (rest : List Char) :
    (∃ id length, Escape.named? key rest = some ⟨.reference id, length⟩ ∧
      reference? key rest = .ok (some ⟨.backReference id, length⟩)) ∨
    reference? key rest = .ok none ∧
      (Escape.named? key rest = none ∨ ∃ name length, key = 'p' ∧
        Escape.named? key rest = some ⟨.property name, length⟩) := by
  unfold Escape.named?
  split
  · next text =>
      cases enclosed : Text.enclosed? '>' text with
      | none => exact .inr ⟨by simp [reference?, enclosed], .inl rfl⟩
      | some name =>
          obtain ⟨_, _, after, rfl⟩ := Text.enclosed?_eq_some_iff.mp enclosed
          refine .inl ⟨_, _, rfl, ?_⟩
          simp [reference?, enclosed, slice_zero]
  · next text =>
      cases enclosed : Text.enclosed? '\x7d' text with
      | none => exact .inr ⟨by simp [reference?], .inl rfl⟩
      | some name => exact .inr ⟨by simp [reference?], .inr ⟨_, _, rfl, rfl⟩⟩
  · refine .inr ⟨?_, .inl rfl⟩
    unfold reference?
    split <;> simp_all

theorem decode_of_digit {key : Char} (digit : key.isDigit = true) (pos : Nat) (rest : List Char)
    (atEnd : Bool) :
    decode (key :: rest) pos atEnd =
      .ok ⟨.backReference (.ofList (key :: rest.takeWhile Char.isDigit)),
        (rest.takeWhile Char.isDigit).length⟩ := by
  have run : (key :: rest).takeWhile Char.isDigit = key :: rest.takeWhile Char.isDigit :=
    List.takeWhile_cons_of_pos digit
  have cut := slice_front (List.takeWhile_prefix (l := key :: rest) Char.isDigit)
  rw [run, List.length_cons] at cut
  simp only [decode, run, cut, List.length_cons, Nat.zero_lt_succ, if_true, ok_bind, pure_eq_ok,
    Nat.add_sub_cancel]

/-- A guarded decoding has no lapse, and comes to what the decoding comes to. -/
theorem decode_eq (pos : Nat) (key : Char) (rest : List Char) :
    decode (key :: rest) pos rest.isEmpty = lift (Escape.decode pos key rest) := by
  by_cases digit : key.isDigit = true
  · rw [decode_of_digit digit]
    simp only [Escape.decode, Escape.read, digit, if_true, Escape.atom, lift_ok]
  have noDigits : ¬0 < ((key :: rest).takeWhile Char.isDigit).length := by simp [digit]
  simp only [decode, if_neg noDigits, Escape.decode, Escape.read, if_neg digit]
  rcases named?_cases key rest with ⟨id, length, named, found⟩ | ⟨absent, named⟩
  · simp only [found, named, ok_bind, pure_eq_ok, Escape.atom, lift_ok]
  simp only [absent, ok_bind, code?_eq]
  rcases named with none | ⟨name, length, rfl, named⟩
  · cases code : Escape.code? key rest with
    | none =>
        simp only [none, Option.elim_none, Option.getD_none, ok_bind]
        cases (Escape.ofChar key).atom pos rest.isEmpty <;> rfl
    | some span =>
        simp only [none, Option.elim_some, Span.map, Escape.atom, answer]
        cases Text.scalar? span.value <;> rfl
  · have noCode : Escape.code? 'p' rest = Option.none := rfl
    simp only [noCode, named, Option.elim_none, Option.getD_some, ok_bind]
    rfl

end PatternTree.Guarded
