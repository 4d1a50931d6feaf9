import PatternTree.Proofs.Tree.Shape

/-!
# Repetitions under limits

Limits decide how far the repetitions of a quantifier go, and nothing else about them:
they begin at the quantifier's own least number, and a greater variance only adds to
their end.  Sums that stop at the greatest word keep that order, so it holds near the
greatest word too.
-/

namespace PatternTree.Quantifier

variable {quantifier : Quantifier} {limits first second : Limits}

/-- The least number of repetitions that a quantifier asks for. -/
def least : Quantifier → Count
  | .once | .plus => 1
  | .star | .optional => 0
  | .braces bounds => bounds.min.getD 0

theorem lower_repetitions (limits : Limits) (quantifier : Quantifier) :
    (quantifier.repetitions limits).lower = quantifier.least := by
  cases quantifier with
  | once | star | plus | optional => rfl
  | braces bounds =>
      obtain ⟨min, comma, max⟩ := bounds
      cases max with
      | some most => rfl
      | none => cases comma <;> rfl

/-- A greater variance never takes a repetition away. -/
theorem upper_repetitions_le (le : first.variance ≤ second.variance) (quantifier : Quantifier) :
    (quantifier.repetitions first).upper ≤ (quantifier.repetitions second).upper := by
  have varianceLe := UInt64.le_iff_toNat_le.mp le
  cases quantifier with
  | once | optional => exact UInt64.le_refl _
  | star => exact le
  | plus =>
      simp only [repetitions, UInt64.le_iff_toNat_le, Count.toNat_addCapped]
      omega
  | braces bounds =>
      obtain ⟨min, comma, max⟩ := bounds
      cases max with
      | some most =>
          simp only [repetitions, UInt64.le_iff_toNat_le, Limits.toNat_clampMax]
          omega
      | none =>
          cases comma with
          | false => exact UInt64.le_refl _
          | true =>
              simp only [repetitions, UInt64.le_iff_toNat_le, Count.toNat_addCapped]
              omega

/-- Only bounds in the wrong order would leave no repetition at all. -/
theorem least_le_upper (wellFormed : quantifier.WellFormed) (limits : Limits) :
    quantifier.least ≤ (quantifier.repetitions limits).upper := by
  cases quantifier with
  | once => exact UInt64.le_refl _
  | star | optional => exact UInt64.zero_le
  | plus =>
      have fits : 1 < UInt64.size := by decide
      simp only [repetitions, least, UInt64.le_iff_toNat_le, Count.toNat_addCapped,
        UInt64.toNat_one]
      omega
  | braces bounds =>
      cases wellFormed with
      | exactly => exact UInt64.le_refl _
      | atLeast count =>
          have fits := count.toNat_lt_size
          simp only [repetitions, least, Option.getD_some, UInt64.le_iff_toNat_le,
            Count.toNat_addCapped]
          omega
      | atMost => exact UInt64.zero_le
      | between lower upper ordered =>
          simp only [repetitions, least, Option.getD_some, UInt64.le_iff_toNat_le,
            Limits.toNat_clampMax] at ordered ⊢
          omega

end PatternTree.Quantifier
