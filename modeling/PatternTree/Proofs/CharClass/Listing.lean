import PatternTree.CharClass.Basic

/-!
# Listing the characters of a class

A class is looked at in two ways: by asking whether it matches a character, and by listing the
characters that it can produce.  `CharClass.toList_counts_items` says that the two agree, with how
often each character is listed.  A class that is not negated lists the runs of its items one after
the other, so a character comes once for each item that covers it.  A negated class is listed from
the printable characters, each of them once at most.

Code points that name no character are passed over inside a run, and `Item.size` accounts for
them.
-/

namespace PatternTree.CharClass

/-- A list in increasing order names no character twice. -/
theorem count_of_increasing {chars : List Char} (increasing : chars.Pairwise (· < ·)) (c : Char) :
    chars.count c = if c ∈ chars then 1 else 0 := by
  have nodup : chars.Nodup := by
    apply increasing.imp
    intro earlier later less equal
    rw [equal] at less
    exact Char.lt_irrefl later less
  exact nodup.count

namespace Item

/-- How many characters an item covers.  The 2048 surrogates between the bounds of a range are
none, and a reversed range covers nothing. -/
def size : Item → Nat
  | .single _ => 1
  | .range first last =>
      if last < first then 0
      else if first.toNat < 0xD800 ∧ 0xDFFF < last.toNat then last.toNat - first.toNat + 1 - 2048
      else last.toNat - first.toNat + 1

/-- The place of a character among all of them is its code point, less the surrogates if it
comes after them. -/
theorem ordinal_cases (c : Char) :
    (c.toNat < 0xD800 ∧ (c.ordinal : Nat) = c.toNat) ∨
      (0xDFFF < c.toNat ∧ (c.ordinal : Nat) + 2048 = c.toNat) := by
  have placed : (c.ordinal : Nat) = if c.toNat < 0xD800 then c.toNat else c.toNat - 2048 :=
    Char.coe_ordinal
  rw [placed]
  rcases c.valid with low | ⟨high, _⟩
  · exact .inl ⟨low, if_pos low⟩
  · have notLow : ¬c.toNat < 0xD800 := Nat.not_lt.mpr (Nat.le_trans (by decide) high)
    refine .inr ⟨high, ?_⟩
    rw [if_neg notLow]
    exact Nat.sub_add_cancel (Nat.le_trans (by decide) high)

/-- A run is as long as its item is large. -/
theorem length_toList (item : Item) : item.toList.length = item.size := by
  cases item with
  | single member => rfl
  | range first last =>
      have ranged : (Item.range first last).toList.length = last.ordinal + 1 - first.ordinal :=
        Std.Rcc.length_toList
      have firstPlace := ordinal_cases first
      have lastPlace := ordinal_cases last
      have less_iff : last < first ↔ last.toNat < first.toNat := Iff.rfl
      rw [ranged, size]
      split
      · next reversed =>
          rw [less_iff] at reversed
          omega
      · next ordered =>
          rw [less_iff] at ordered
          split <;> omega

/-- The range of all characters. -/
example : Item.size (.range '\x00' (Char.ofNat 0x10FFFF)) = 0x110000 - 2048 := by
  decide

theorem count_toList (item : Item) (c : Char) :
    item.toList.count c = if item.contains c = true then 1 else 0 := by
  rw [count_of_increasing item.pairwise_toList]
  simp only [mem_toList, ← contains_iff_mem]

end Item

theorem count_flatMap_toList (items : List Item) (c : Char) :
    (items.flatMap Item.toList).count c = items.countP (·.contains c) := by
  induction items with
  | nil => rfl
  | cons item items ih =>
      rw [List.flatMap_cons, List.count_append, ih, Item.count_toList, List.countP_cons,
        Nat.add_comm]

theorem pairwise_printable : printable.Pairwise (· < ·) :=
  Std.Rcc.pairwise_toList_lt

variable {cls : CharClass}

theorem toList_of_plain (plain : cls.negated = false) :
    cls.toList = cls.items.flatMap Item.toList := by
  simp [toList, plain]

/-- A class that is not negated lists exactly what it matches. -/
theorem mem_toList_of_plain (plain : cls.negated = false) (c : Char) :
    c ∈ cls.toList ↔ c ∈ cls := by
  rw [toList_of_plain plain, mem_iff, List.mem_flatMap]
  simp [plain]

theorem toList_of_negated (negated : cls.negated = true) :
    cls.toList = printable.filter cls.contains := by
  simp [toList, negated]

theorem pairwise_toList_of_negated (negated : cls.negated = true) :
    cls.toList.Pairwise (· < ·) := by
  rw [toList_of_negated negated]
  exact pairwise_printable.filter cls.contains

/-- A negated class lists those of its characters that are printable. -/
theorem mem_toList_of_negated (negated : cls.negated = true) (c : Char) :
    c ∈ cls.toList ↔ ' ' ≤ c ∧ c ≤ '~' ∧ c ∈ cls := by
  rw [toList_of_negated negated, List.mem_filter, mem_printable, contains_iff_mem, and_assoc]

/-- The characters that a class lists are those that it matches, each as often as an item covers
it.  They stand in runs, one for each item in its order, that increase and are as long as the
item is large.  A negated class lists in increasing order the printable characters that it
matches. -/
theorem toList_counts_items (cls : CharClass) :
    (cls.negated = false →
      cls.toList = cls.items.flatMap Item.toList ∧
      (∀ item ∈ cls.items, item.toList.Pairwise (· < ·) ∧ (∀ c, c ∈ item.toList ↔ c ∈ item) ∧
        item.toList.length = item.size) ∧
      ∀ c, cls.toList.count c = cls.items.countP (·.contains c) ∧ (c ∈ cls.toList ↔ c ∈ cls)) ∧
    (cls.negated = true →
      cls.toList.Pairwise (· < ·) ∧
      ∀ c, cls.toList.count c = if ' ' ≤ c ∧ c ≤ '~' ∧ c ∈ cls then 1 else 0) := by
  constructor
  · intro plain
    refine ⟨toList_of_plain plain, ?_, ?_⟩
    · intro item _
      exact ⟨item.pairwise_toList, fun _ => Item.mem_toList, item.length_toList⟩
    · intro c
      refine ⟨?_, mem_toList_of_plain plain c⟩
      rw [toList_of_plain plain, count_flatMap_toList]
  · intro negated
    have increasing := pairwise_toList_of_negated negated
    refine ⟨increasing, ?_⟩
    intro c
    rw [count_of_increasing increasing]
    simp only [mem_toList_of_negated negated]

end PatternTree.CharClass
