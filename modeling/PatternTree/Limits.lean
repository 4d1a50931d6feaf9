import PatternTree.Count

/-!
# Limits on examples

A pattern can describe endlessly many texts.  Two limits keep its examples
few: how many repetitions beyond the least a quantifier is tried with, and how
many results are kept for one group.  Limits travel with the tree of a pattern
and have no part in reading it.
-/

namespace PatternTree

/-- The limits in force. -/
structure Limits where
  /-- How far repetitions may go beyond their least number. -/
  variance : Count := 2
  /-- How many results are kept for a group. -/
  results : Count := 5
  deriving DecidableEq, Repr

/-- Limits that a caller asks for.  What is left out takes its default. -/
structure LimitOptions where
  variance : Option Count := none
  results : Option Count := none
  deriving DecidableEq, Repr

/-- The limits in force for a request. -/
def LimitOptions.resolve (options : LimitOptions) : Limits where
  variance := options.variance.getD ({} : Limits).variance
  results := options.results.getD ({} : Limits).results

namespace Limits

/-- The upper bound of a repetition drawn down to within the variance of its
lower bound. -/
def clampMax (limits : Limits) (lower upper : Count) : Count :=
  min upper (lower.addCapped limits.variance)

theorem toNat_clampMax (limits : Limits) (lower upper : Count) :
    (limits.clampMax lower upper).toNat =
      min upper.toNat (lower.toNat + limits.variance.toNat) := by
  have fits := upper.toNat_lt_size
  rw [clampMax, Count.toNat_min, Count.toNat_addCapped]
  omega

/-- The results that are kept: the first ones. -/
def truncate {α : Type} (limits : Limits) (results : List α) : List α :=
  results.take limits.results.toNat

end Limits

end PatternTree
