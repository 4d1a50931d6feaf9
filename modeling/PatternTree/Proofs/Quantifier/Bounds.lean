import PatternTree.Proofs.Quantifier.Repetitions
import PatternTree.Proofs.Scan.Shape
import PatternTree.Proofs.Tree.Preorder

/-!
# Repetitions within the bounds of a quantifier

A quantifier asks for a least number of repetitions and perhaps a greatest.  `Quantifier.Bounded`
has both as natural numbers, without an end where the quantifier has none.  The repetitions that
examples are tried with are the numbers between the two that a word can hold and, unless one
repetition or none is all that there is to choose, that go beyond the least by no more than the
variance.

Sums that stop at the greatest word are exact for this purpose: where such a sum stops, no word
lies beyond.  `Pattern.repetitions_within_bounds` says so of every piece of every tree that is
read.
-/

namespace PatternTree

namespace Quantifier

/-- The least and the greatest number of repetitions that a quantifier asks for. -/
inductive Bounded : Quantifier → Nat → Option Nat → Prop where
  | once : Bounded .once 1 (some 1)
  | star : Bounded .star 0 none
  | plus : Bounded .plus 1 none
  | optional : Bounded .optional 0 (some 1)
  | exactly (count : Count) :
      Bounded (.braces ⟨some count, false, none⟩) count.toNat (some count.toNat)
  | atLeast (least : Count) : Bounded (.braces ⟨some least, true, none⟩) least.toNat none
  | atMost (most : Count) : Bounded (.braces ⟨none, true, some most⟩) 0 (some most.toNat)
  | between (least most : Count) :
      Bounded (.braces ⟨some least, true, some most⟩) least.toNat (some most.toNat)

/-- Whether the variance limits the repetitions. -/
def isLimited : Quantifier → Bool
  | .once | .optional => false
  | .star | .plus | .braces _ => true

variable {quantifier : Quantifier} {low : Nat} {high : Option Nat}

/-- Every quantifier that can be written has bounds. -/
theorem exists_bounded (wellFormed : quantifier.WellFormed) :
    ∃ low high, quantifier.Bounded low high := by
  cases quantifier with
  | once => exact ⟨_, _, .once⟩
  | star => exact ⟨_, _, .star⟩
  | plus => exact ⟨_, _, .plus⟩
  | optional => exact ⟨_, _, .optional⟩
  | braces bounds =>
      cases wellFormed with
      | exactly count => exact ⟨_, _, .exactly count⟩
      | atLeast least => exact ⟨_, _, .atLeast least⟩
      | atMost most => exact ⟨_, _, .atMost most⟩
      | between least most _ => exact ⟨_, _, .between least most⟩

theorem Bounded.toNat_least (bounded : quantifier.Bounded low high) :
    quantifier.least.toNat = low := by
  cases bounded <;> rfl

/-- The last repetition is the greatest number that the bounds, the width of a word and the
variance allow. -/
theorem Bounded.le_upper_iff (bounded : quantifier.Bounded low high) (limits : Limits)
    (k : Nat) : k ≤ (quantifier.repetitions limits).upper.toNat ↔
      (∀ most ∈ high, k ≤ most) ∧ k < UInt64.size ∧
        (quantifier.isLimited = true → k ≤ low + limits.variance.toNat) := by
  have variance_lt := limits.variance.toNat_lt_size
  have size_pos : 1 < UInt64.size := by decide
  cases bounded with
  | once | optional =>
      simp only [repetitions, isLimited, Option.mem_def, Option.some.injEq, forall_eq',
        UInt64.toNat_one, Bool.false_eq_true, false_implies, and_true]
      omega
  | star =>
      simp only [repetitions, isLimited, Option.mem_def, reduceCtorEq, false_implies, implies_true,
        true_and, forall_const]
      omega
  | plus =>
      simp only [repetitions, isLimited, Option.mem_def, reduceCtorEq, false_implies, implies_true,
        true_and, forall_const, Count.toNat_addCapped, UInt64.toNat_one]
      omega
  | exactly count =>
      have count_lt := count.toNat_lt_size
      simp only [repetitions, isLimited, Option.mem_def, Option.some.injEq, forall_eq',
        forall_const, Option.getD_some]
      omega
  | atLeast least =>
      have least_lt := least.toNat_lt_size
      simp only [repetitions, isLimited, Option.mem_def, reduceCtorEq, false_implies, implies_true,
        true_and, forall_const, Option.getD_some, Count.toNat_addCapped]
      omega
  | atMost most =>
      have most_lt := most.toNat_lt_size
      simp only [repetitions, isLimited, Option.mem_def, Option.some.injEq, forall_eq',
        forall_const, Option.getD_none, Limits.toNat_clampMax, UInt64.toNat_zero]
      omega
  | between least most =>
      have most_lt := most.toNat_lt_size
      simp only [repetitions, isLimited, Option.mem_def, Option.some.injEq, forall_eq',
        forall_const, Option.getD_some, Limits.toNat_clampMax]
      omega

/-- A range of counts holds the numbers between its ends. -/
theorem exists_mem_iff {range : Std.Rcc Count} {k : Nat} :
    (∃ count ∈ range, count.toNat = k) ↔ range.lower.toNat ≤ k ∧ k ≤ range.upper.toNat := by
  simp only [Std.Rcc.mem_iff, UInt64.le_iff_toNat_le]
  constructor
  · rintro ⟨count, within, rfl⟩
    exact within
  · intro within
    have fits : k < UInt64.size := Nat.lt_of_le_of_lt within.2 range.upper.toNat_lt_size
    have value : (UInt64.ofNat k).toNat = k := UInt64.toNat_ofNat_of_lt' fits
    exact ⟨.ofNat k, by rwa [value], value⟩

/-- A number of repetitions is tried if the bounds, the width of a word and the variance allow
it. -/
theorem Bounded.exists_mem_repetitions_iff (bounded : quantifier.Bounded low high)
    (limits : Limits) (k : Nat) :
    (∃ count ∈ quantifier.repetitions limits, count.toNat = k) ↔
      low ≤ k ∧ (∀ most ∈ high, k ≤ most) ∧ k < UInt64.size ∧
        (quantifier.isLimited = true → k ≤ low + limits.variance.toNat) := by
  rw [exists_mem_iff, lower_repetitions, bounded.toNat_least, bounded.le_upper_iff]

/-- The least number of repetitions is always tried. -/
theorem lower_mem_repetitions (wellFormed : quantifier.WellFormed) (limits : Limits) :
    (quantifier.repetitions limits).lower ∈ quantifier.repetitions limits := by
  rw [Std.Rcc.mem_iff, lower_repetitions]
  exact ⟨UInt64.le_refl _, least_le_upper wellFormed limits⟩

end Quantifier

namespace Pattern

/-- The repetitions of every piece of a tree that is read are exactly the numbers within the
bounds of its quantifier that a word can hold and that go beyond the least of them by no more
than the variance, where that limits them at all.  The first is the least, and there always is
one. -/
theorem repetitions_within_bounds {options : LimitOptions} {text : String} {pattern : Pattern}
    (parsed : parse options text = .ok pattern) (limits : Limits) :
    ∀ visit ∈ pattern.visits,
      let quantifier := visit.piece.quantifier
      let repetitions := quantifier.repetitions limits
      ∃ low high, quantifier.Bounded low high ∧
        (∀ k : Nat, (∃ count ∈ repetitions, count.toNat = k) ↔
          low ≤ k ∧ (∀ most ∈ high, k ≤ most) ∧ k < UInt64.size ∧
            (quantifier.isLimited = true → k ≤ low + limits.variance.toNat)) ∧
        repetitions.lower ∈ repetitions ∧ repetitions.lower.toNat = low := by
  intro visit member quantifier repetitions
  have pieces := (wellShaped_of_parse parsed).1.pieces
  have wellFormed : quantifier.WellFormed :=
    (Sequence.wellShaped_of_mem_visits pieces visit member).wellFormed
  obtain ⟨low, high, bounded⟩ := Quantifier.exists_bounded wellFormed
  refine ⟨low, high, bounded, bounded.exists_mem_repetitions_iff limits,
    Quantifier.lower_mem_repetitions wellFormed limits, ?_⟩
  rw [Quantifier.lower_repetitions, bounded.toNat_least]

/-- The braces begin one short of the greatest word, which leaves room for one of the three
repetitions that the variance allows beyond the least. -/
theorem repetitions_within_bounds_capped :
    let limits : Limits := { variance := 3 }
    let inner : Piece := ⟨.braces ⟨some 18446744073709551614, true, none⟩, .literal 'a'⟩
    let pieces : Sequence := [⟨.star, .group (some "1") [inner]⟩]
    parse {} "(a\x7b18446744073709551614,\x7d)*" = .ok { pieces, groupCount := 1 } ∧
      ∀ k : Nat, (∃ count ∈ inner.quantifier.repetitions limits, count.toNat = k) ↔
        18446744073709551614 ≤ k ∧ k < UInt64.size := by
  intro limits inner pieces
  have parsed : parse {} "(a\x7b18446744073709551614,\x7d)*" =
      .ok { pieces, groupCount := 1 } := by
    decide +kernel
  have member : (⟨1, .body, inner⟩ : Visit) ∈ visits { pieces, groupCount := 1 } := by
    decide
  obtain ⟨low, high, bounded, tried, _⟩ := repetitions_within_bounds parsed limits _ member
  refine ⟨parsed, fun k => (tried k).trans ?_⟩
  cases bounded
  have leastEq : UInt64.toNat 18446744073709551614 = 18446744073709551614 := rfl
  have varianceEq : limits.variance.toNat = 3 := rfl
  have sizeEq : UInt64.size = 18446744073709551616 := rfl
  constructor
  · rintro ⟨atLeast, _, fits, _⟩
    exact ⟨atLeast, fits⟩
  · rintro ⟨atLeast, fits⟩
    refine ⟨atLeast, by simp, fits, ?_⟩
    intro _
    omega

end Pattern

end PatternTree
