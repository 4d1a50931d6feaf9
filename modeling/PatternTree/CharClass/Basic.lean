/-!
# Character classes

A class is a list of items, each a single character or a closed range, and may
be negated.  Items keep the order and the form in which they were written: a
range may be reversed, and then holds nothing, and items may overlap.

Membership is over all characters, negated or not.  Listing the members of a
negated class would be of no use to a reader of examples, so a negated class
lists only its printable members.
-/

namespace PatternTree

namespace CharClass

/-- An item of a class: one character, or every character from `first` to
`last`. -/
inductive Item where
  | single (member : Char)
  | range (first last : Char)
  deriving DecidableEq, Repr

namespace Item

/-- Whether the item covers `c`. -/
def contains : Item → Char → Bool
  | .single member, c => member == c
  | .range first last, c => decide (first ≤ c) && decide (c ≤ last)

instance : Membership Char Item where
  mem item c := item.contains c = true

instance (c : Char) (item : Item) : Decidable (c ∈ item) :=
  inferInstanceAs (Decidable (item.contains c = true))

theorem contains_iff_mem {item : Item} {c : Char} : item.contains c = true ↔ c ∈ item := Iff.rfl

@[simp] theorem mem_single {c member : Char} : c ∈ single member ↔ c = member := by
  rw [← contains_iff_mem, contains, beq_iff_eq]
  exact eq_comm

@[simp] theorem mem_range {c first last : Char} :
    c ∈ range first last ↔ first ≤ c ∧ c ≤ last := by
  rw [← contains_iff_mem, contains, Bool.and_eq_true, decide_eq_true_eq, decide_eq_true_eq]

/-- The characters of an item in increasing order. -/
def toList : Item → List Char
  | .single member => [member]
  | .range first last => (first...=last).toList

@[simp] theorem mem_toList {item : Item} {c : Char} : c ∈ item.toList ↔ c ∈ item := by
  cases item with
  | single member => simp [toList]
  | range first last => simp [toList, Std.Rcc.mem_toList_iff_mem, Std.Rcc.mem_iff]

/-- The characters of an item are listed in increasing order, so none is listed
twice. -/
theorem pairwise_toList (item : Item) : item.toList.Pairwise (· < ·) := by
  cases item with
  | single member => simp [toList]
  | range first last => exact Std.Rcc.pairwise_toList_lt

end Item

end CharClass

/-- A set of characters as a pattern writes it. -/
structure CharClass where
  negated : Bool := false
  items : List CharClass.Item := []
  deriving DecidableEq, Repr

namespace CharClass

/-- Whether the class matches `c`: an item covers it, or none does and the class
is negated. -/
def contains (cls : CharClass) (c : Char) : Bool :=
  cls.items.any (·.contains c) != cls.negated

instance : Membership Char CharClass where
  mem cls c := cls.contains c = true

instance (c : Char) (cls : CharClass) : Decidable (c ∈ cls) :=
  inferInstanceAs (Decidable (cls.contains c = true))

theorem contains_iff_mem {cls : CharClass} {c : Char} : cls.contains c = true ↔ c ∈ cls := Iff.rfl

/-- A class matches exactly what its items cover, a negated one exactly the
rest. -/
theorem mem_iff {cls : CharClass} {c : Char} :
    c ∈ cls ↔ ((∃ item ∈ cls.items, c ∈ item) ↔ cls.negated = false) := by
  rw [← contains_iff_mem, contains, bne_iff_ne]
  have covered : cls.items.any (·.contains c) = true ↔ ∃ item ∈ cls.items, c ∈ item :=
    List.any_eq_true
  rw [← covered]
  cases cls.items.any (·.contains c) <;> cases cls.negated <;> simp

/-- The printable characters of ASCII, from which negated classes are listed. -/
def printable : List Char := (' ' ...= '~').toList

theorem mem_printable {c : Char} : c ∈ printable ↔ ' ' ≤ c ∧ c ≤ '~' := by
  simp [printable, Std.Rcc.mem_toList_iff_mem, Std.Rcc.mem_iff]

/-- The characters that the class can produce.  Items are listed one after the
other, so a character is listed once for each item that covers it; a negated
class lists its printable members. -/
def toList (cls : CharClass) : List Char :=
  if cls.negated then printable.filter cls.contains
  else cls.items.flatMap Item.toList

end CharClass

end PatternTree
