import PatternTree.Limits

/-!
# Quantifiers

A quantifier says how often its atom repeats.  Under given limits it offers a
range of repetition counts: it starts at the quantifier's own least count, and
an open end, or one far above the least count, is drawn in to the variance.
-/

namespace PatternTree

/-- The content of a brace quantifier.  The comma tells an exact number from an
open range. -/
structure Braces where
  min : Option Count
  comma : Bool
  max : Option Count
  deriving DecidableEq, Repr

/-- How often an atom repeats. -/
inductive Quantifier where
  | once
  | star
  | plus
  | optional
  | braces (bounds : Braces)
  deriving DecidableEq, Repr

/-- Whether the quantifier is a single number in braces. -/
def Quantifier.isExact : Quantifier → Bool
  | .braces ⟨some _, false, none⟩ => true
  | _ => false

/-- The repetition counts that examples are tried with. -/
def Quantifier.repetitions (limits : Limits) : Quantifier → Std.Rcc Count
  | .once => 1...=1
  | .star => 0...=limits.variance
  | .plus => 1...=limits.variance.addCapped 1
  | .optional => 0...=1
  | .braces ⟨min, comma, max⟩ =>
      let least := min.getD 0
      match max, comma with
      | some most, _ => least...=limits.clampMax least most
      | none, true => least...=least.addCapped limits.variance
      | none, false => least...=least

end PatternTree
