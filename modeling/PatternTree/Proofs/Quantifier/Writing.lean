import PatternTree.Proofs.Quantifier.Spelling
import PatternTree.Proofs.Tree.Shape
import PatternTree.Tree.Reader

/-!
# Writing quantifiers

A quantifier is written as its mark, or as its bounds in braces with no leading
zeros.  What is written is read back as long as nothing that follows it could be
taken for a quantifier or a marker, which `Quantifier.Absent` asks of the text
that follows.
-/

namespace PatternTree

/-- The decimal digits of a count. -/
def Count.digits (count : Count) : List Char :=
  Nat.toDigits 10 count.toNat

/-- The digits of a bound, and nothing for a bound that is left out. -/
def Braces.writeBound : Option Count → List Char
  | none => []
  | some count => count.digits

/-- The text between the braces of a quantifier. -/
def Braces.writeContent (braces : Braces) : List Char :=
  writeBound braces.min ++ (if braces.comma then [','] else []) ++ writeBound braces.max

/-- A quantifier as it is written after an atom. -/
def Quantifier.write : Quantifier → List Char
  | .once => []
  | .star => ['*']
  | .plus => ['+']
  | .optional => ['?']
  | .braces bounds => '\x7b' :: (bounds.writeContent ++ ['\x7d'])

/-- A text that begins with no quantifier and no marker. -/
def Quantifier.Absent (text : List Char) : Prop :=
  ∀ c ∈ text.head?, c ∉ ['*', '+', '?', '\x7b']

/-! ## Numbers -/

theorem Count.isWritten_digits (count : Count) : count.IsWritten count.digits where
  nonempty := Nat.toDigits_ne_nil
  isDigit := fun _ member => Nat.isDigit_of_mem_toDigits (by decide) (by decide) member
  value := Nat.ofDigitChars_ten_toDigits

namespace Braces

/-- The content of well-formed braces spells them out. -/
theorem spelled_writeContent {braces : Braces} (wellFormed : braces.WellFormed) :
    Spelled (braces.writeContent ++ ['\x7d']) braces := by
  cases wellFormed with
  | exactly count =>
      have spelled := Spelled.exactly count.isWritten_digits
      simpa [writeContent, writeBound] using spelled
  | atLeast least =>
      have spelled := Spelled.atLeast least.isWritten_digits
      simpa [writeContent, writeBound] using spelled
  | atMost most =>
      have spelled := Spelled.atMost most.isWritten_digits
      simpa [writeContent, writeBound] using spelled
  | between least most =>
      have spelled := Spelled.between least.isWritten_digits most.isWritten_digits
      simpa [writeContent, writeBound] using spelled

/-- The content of well-formed braces is read back. -/
theorem read?_writeContent {braces : Braces} (wellFormed : braces.WellFormed)
    (rest : List Char) :
    read? (braces.writeContent ++ '\x7d' :: rest) =
      some ⟨braces, braces.writeContent.length + 1⟩ := by
  have found := read?_of_spelled (spelled_writeContent wellFormed) rest
  simpa using found

theorem inverted?_eq_none {braces : Braces} (wellFormed : braces.WellFormed) :
    braces.inverted? = none := by
  cases wellFormed with
  | exactly => rfl
  | atLeast => rfl
  | atMost => rfl
  | between least most ordered => simp [inverted?, UInt64.not_lt.mpr ordered]

end Braces

/-! ## Quantifiers -/

namespace Quantifier

theorem absent_nil : Absent [] := by
  simp [Absent]

theorem absent_cons {c : Char} (ordinary : c ∉ ['*', '+', '?', '\x7b']) (rest : List Char) :
    Absent (c :: rest) := by
  intro head headEq
  cases headEq
  exact ordinary

theorem markerLength_eq_zero {text : List Char} (absent : Absent text) :
    markerLength text = 0 := by
  cases text with
  | nil => rfl
  | cons head tail =>
      simp only [Absent, List.head?_cons, Option.mem_some_iff, forall_eq', List.mem_cons,
        List.not_mem_nil, or_false, not_or] at absent
      simp [markerLength, absent]

theorem head?_ne_question {text : List Char} (absent : Absent text) :
    text.head? ≠ some '?' := by
  intro headEq
  exact absurd (absent '?' headEq) (by decide)

theorem read_of_absent {text : List Char} (absent : Absent text) (pos : Nat) :
    read pos text = .ok ⟨.once, 0⟩ := by
  cases text with
  | nil => rfl
  | cons head tail =>
      simp only [Absent, List.head?_cons, Option.mem_some_iff, forall_eq', List.mem_cons,
        List.not_mem_nil, or_false, not_or] at absent
      simp [read, absent]

theorem read_write {quantifier : Quantifier} (wellFormed : quantifier.WellFormed)
    {rest : List Char} (absent : Absent rest) (pos : Nat) :
    read pos (quantifier.write ++ rest) = .ok ⟨quantifier, quantifier.write.length⟩ := by
  cases quantifier with
  | once => exact read_of_absent absent pos
  | star => rfl
  | plus => rfl
  | optional => rfl
  | braces bounds =>
      have read := Braces.read?_writeContent wellFormed rest
      have ordered := Braces.inverted?_eq_none wellFormed
      simp [write, Quantifier.read, read, ordered]

end Quantifier

/-- An atom with a quantifier is read back as a piece. -/
theorem Piece.read_write {quantifier : Quantifier} (wellFormed : quantifier.WellFormed)
    {rest : List Char} (absent : Quantifier.Absent rest) (atom : Atom) (pos : Nat) :
    Piece.read atom pos (quantifier.write ++ rest) =
      .ok ⟨⟨quantifier, atom⟩, quantifier.write.length⟩ := by
  have found := Quantifier.read_write wellFormed absent pos
  have noMarker := Quantifier.markerLength_eq_zero absent
  have notAsked := Quantifier.head?_ne_question absent
  rw [Piece.read, found]
  cases quantifier with
  | once => rfl
  | star | plus | optional | braces =>
      simp only [List.drop_left', noMarker, Nat.add_zero]
      rw [if_neg]
      simp [notAsked]

end PatternTree
