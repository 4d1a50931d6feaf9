/-!
# Counts

The bounds of a repetition and the limits on examples are 64-bit words.  Sums
of counts stop at the greatest word and never wrap, and a numeral too great for
a word is no count at all.
-/

namespace PatternTree

/-- A bound on repetitions or results. -/
abbrev Count := UInt64

namespace Count

/-- The sum of two counts, or the greatest count where the sum exceeds it. -/
def addCapped (left right : Count) : Count :=
  .ofNatClamp (left.toNat + right.toNat)

theorem toNat_addCapped (left right : Count) :
    (addCapped left right).toNat = min (left.toNat + right.toNat) (UInt64.size - 1) := by
  rw [addCapped]
  by_cases fits : left.toNat + right.toNat < UInt64.size
  · rw [UInt64.toNat_ofNatClamp_of_lt fits]
    omega
  · rw [UInt64.toNat_ofNatClamp_of_le (Nat.le_of_not_lt fits)]
    omega

theorem toNat_min (left right : Count) :
    (min left right).toNat = min left.toNat right.toNat := by
  change (if left ≤ right then left else right).toNat = _
  split <;> next order => rw [UInt64.le_iff_toNat_le] at order; omega

/-- The count of a natural number, if a word can hold it. -/
def ofNat? (value : Nat) : Option Count :=
  if value < UInt64.size then some (.ofNat value) else none

theorem ofNat?_eq_some_iff {value : Nat} {count : Count} :
    ofNat? value = some count ↔ count.toNat = value := by
  rw [ofNat?]
  split
  · next fits =>
      rw [Option.some.injEq, ← UInt64.toNat_inj, UInt64.toNat_ofNat_of_lt' fits]
      exact eq_comm
  · next large =>
      simp only [reduceCtorEq, false_iff]
      rintro rfl
      exact large count.toNat_lt

/-- The count that a run of decimal digits writes.  Leading zeros are allowed. -/
def ofDigits? (digits : List Char) : Option Count :=
  ofNat? (Nat.ofDigitChars 10 digits 0)

end Count

end PatternTree
