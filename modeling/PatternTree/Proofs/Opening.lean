import PatternTree.Opening

/-!
# The ways to open a group

Three forms open a group, and `Opening.Form` gives each with the number or name
that it stands for.  By `Opening.form_of_read` and `Opening.read_of_form` the
reader accepts these forms and no others, so a fact about opened groups is a fact
about three forms.
-/

namespace PatternTree

/-- A name that can stand before the mark `>`, such as that of a back
reference. -/
structure IsName (name : List Char) : Prop where
  nonempty : name ≠ []
  unmarked : '>' ∉ name

/-- A name that a group can have: it is not taken for the sign of a lookbehind. -/
structure IsGroupName (name : List Char) : Prop extends IsName name where
  head_ne_equals : name.head? ≠ some '='
  head_ne_exclamation : name.head? ≠ some '!'

instance (name : List Char) : Decidable (IsName name) :=
  decidable_of_iff (name ≠ [] ∧ '>' ∉ name)
    ⟨fun holds => ⟨holds.1, holds.2⟩, fun holds => ⟨holds.nonempty, holds.unmarked⟩⟩

instance (name : List Char) : Decidable (IsGroupName name) :=
  decidable_of_iff (IsName name ∧ name.head? ≠ some '=' ∧ name.head? ≠ some '!')
    ⟨fun holds => ⟨holds.1, holds.2.1, holds.2.2⟩,
      fun holds => ⟨holds.toIsName, holds.head_ne_equals, holds.head_ne_exclamation⟩⟩

theorem Text.enclosed?_eq_some_iff_isName {text name : List Char} :
    Text.enclosed? '>' text = some name ↔ IsName name ∧ ∃ rest, text = name ++ '>' :: rest := by
  rw [Text.enclosed?_eq_some_iff]
  constructor
  · intro found
    exact ⟨⟨found.1, found.2.1⟩, found.2.2⟩
  · intro found
    exact ⟨found.1.nonempty, found.1.unmarked, found.2⟩

/-- The decimal digits of a number make a name. -/
theorem isGroupName_toDigits (number : Nat) : IsGroupName (Nat.toDigits 10 number) := by
  have digit_of_mem {c : Char} (member : c ∈ Nat.toDigits 10 number) : c.isDigit = true :=
    Nat.isDigit_of_mem_toDigits (by decide) (by decide) member
  have head_ne {c : Char} (notDigit : c.isDigit = false) :
      (Nat.toDigits 10 number).head? ≠ some c := by
    intro headEq
    have digit := digit_of_mem (List.mem_of_head? headEq)
    rw [notDigit] at digit
    cases digit
  constructor
  · constructor
    · exact Nat.toDigits_ne_nil
    · intro member
      have digit := digit_of_mem member
      contradiction
  · exact head_ne rfl
  · exact head_ne rfl

namespace Opening

/-- The text after the parenthesis of a group, the group's number or name, and
the length of what opens it.  A group that gives no name has `number`. -/
inductive Form (number : Nat) : List Char → Option String → Nat → Prop where
  | unnamed {rest : List Char} : Form number ('?' :: ':' :: rest) none 2
  | named {name rest : List Char} (isName : IsGroupName name) :
      Form number ('?' :: '<' :: (name ++ '>' :: rest)) (some (.ofList name)) (name.length + 3)
  | numbered {text : List Char} (noMark : text.head? ≠ some '?') :
      Form number text (some (toString number)) 0

/-- A group that captures does so under a name. -/
theorem Form.isGroupName {number length : Nat} {text : List Char} {id : String}
    (form : Form number text (some id) length) : IsGroupName id.toList := by
  cases form with
  | named isName => rwa [String.toList_ofList]
  | numbered noMark =>
      have digits : (toString number).toList = Nat.toDigits 10 number := Nat.toList_repr
      rw [digits]
      exact isGroupName_toDigits number

theorem form_of_read {start number : Nat} {text : List Char} {id : Option String} {length : Nat}
    (opened : read start number text = .ok ⟨id, length⟩) : Form number text id length := by
  simp only [read] at opened
  split at opened
  · cases opened
    exact .unnamed
  · cases opened
  · cases opened
  · cases opened
  · cases opened
  · next text notEquals notExclamation =>
      split at opened
      · next name found =>
          cases opened
          obtain ⟨isName, rest, rfl⟩ := Text.enclosed?_eq_some_iff_isName.mp found
          refine .named ⟨isName, ?_, ?_⟩
          · intro headEq
            obtain ⟨more, rfl⟩ := List.head?_eq_some_iff.mp headEq
            exact notEquals (more ++ '>' :: rest) rfl
          · intro headEq
            obtain ⟨more, rfl⟩ := List.head?_eq_some_iff.mp headEq
            exact notExclamation (more ++ '>' :: rest) rfl
      · cases opened
  · cases opened
  · cases opened
  · next notModifier notAlone =>
      cases opened
      refine .numbered ?_
      intro headEq
      obtain ⟨rest, rfl⟩ := List.head?_eq_some_iff.mp headEq
      cases rest with
      | nil => exact notAlone rfl
      | cons modifier more => exact notModifier modifier more rfl

theorem read_of_form {number length : Nat} {text : List Char} {id : Option String}
    (start : Nat) (form : Form number text id length) :
    read start number text = .ok ⟨id, length⟩ := by
  cases form with
  | unnamed => rfl
  | @named name rest isName =>
      have found : Text.enclosed? '>' (name ++ '>' :: rest) = some name :=
        Text.enclosed?_eq_some_iff_isName.mpr ⟨isName.toIsName, rest, rfl⟩
      cases name with
      | nil => exact absurd rfl isName.nonempty
      | cons head more =>
          have notEquals : head ≠ '=' := by simpa using isName.head_ne_equals
          have notExclamation : head ≠ '!' := by simpa using isName.head_ne_exclamation
          rw [List.cons_append] at found ⊢
          simp [read, notEquals, notExclamation, found]
  | numbered noMark =>
      cases text with
      | nil => rfl
      | cons head more =>
          simp only [List.head?_cons, ne_eq, Option.some.injEq] at noMark
          simp [read, noMark]

end Opening

end PatternTree
