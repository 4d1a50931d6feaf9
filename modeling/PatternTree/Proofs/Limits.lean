import PatternTree.Proofs.Quantifier.Repetitions
import PatternTree.Proofs.Scan.Shape
import PatternTree.Proofs.Tree.Preorder

/-!
# Limits have no part in reading

A text is read in the same way under any limits: they travel with the tree, and the tree
does not know of them.  What they change are the repetitions that examples are tried with,
and `Pattern.parse_eq_up_to_limits` says how: a greater variance tries every repetition
that a smaller one tries, at every piece of the tree.
-/

namespace PatternTree.Pattern

/-- Limits change nothing that is read, and a greater variance loses no repetition. -/
theorem parse_eq_up_to_limits (first second : LimitOptions) (text : String) :
    (∃ error, parse first text = .error error ∧ parse second text = .error error) ∨
      ∃ pieces groupCount,
        parse first text = .ok ⟨pieces, groupCount, first.resolve⟩ ∧
        parse second text = .ok ⟨pieces, groupCount, second.resolve⟩ ∧
        (first.resolve.variance ≤ second.resolve.variance →
          ∀ visit ∈ Sequence.visits 0 .top pieces,
            let fewer := visit.piece.quantifier.repetitions first.resolve
            let more := visit.piece.quantifier.repetitions second.resolve
            fewer.lower ∈ fewer ∧ fewer.lower = more.lower ∧ fewer.upper ≤ more.upper) := by
  cases parsed : parse first text with
  | error error => exact .inl ⟨error, rfl, parse_eq_error_iff.mpr (parse_eq_error_iff.mp parsed)⟩
  | ok pattern =>
      obtain ⟨last, ran, closed, rfl⟩ := parse_eq_ok_iff.mp parsed
      have parsedAgain : parse second text =
          .ok ⟨last.draft.finish, last.groupCount, second.resolve⟩ :=
        parse_eq_ok_iff.mpr ⟨last, ran, closed, rfl⟩
      refine .inr ⟨last.draft.finish, last.groupCount, rfl, parsedAgain, ?_⟩
      intro le visit member
      have shaped := (Scan.wellShaped_of_run ran).draft.finish
      have wellFormed := (Sequence.wellShaped_of_mem_visits shaped.pieces visit member).wellFormed
      refine ⟨?_, ?_, Quantifier.upper_repetitions_le le _⟩
      · rw [Std.Rcc.mem_iff, Quantifier.lower_repetitions]
        exact ⟨UInt64.le_refl _, Quantifier.least_le_upper wellFormed _⟩
      · rw [Quantifier.lower_repetitions, Quantifier.lower_repetitions]

/-- The braces after the bar begin one short of the greatest word, where the greater
variance has no more room than the smaller one. -/
theorem parse_eq_up_to_limits_capped :
    let text := "(a\x7b2,9\x7d|b\x7b18446744073709551614,\x7d)*"
    let one : LimitOptions := { variance := some 1 }
    let three : LimitOptions := { variance := some 3, results := some 0 }
    one.resolve.variance ≤ three.resolve.variance ∧
      ∃ pieces groupCount,
        parse one text = .ok ⟨pieces, groupCount, one.resolve⟩ ∧
        parse three text = .ok ⟨pieces, groupCount, three.resolve⟩ ∧
        ∀ visit ∈ Sequence.visits 0 .top pieces,
          let fewer := visit.piece.quantifier.repetitions one.resolve
          let more := visit.piece.quantifier.repetitions three.resolve
          fewer.lower ∈ fewer ∧ fewer.lower = more.lower ∧ fewer.upper ≤ more.upper := by
  intro text one three
  have le : one.resolve.variance ≤ three.resolve.variance := by decide
  have succeeds : (parse one text).isOk = true := by decide +kernel
  rcases parse_eq_up_to_limits one three text with ⟨error, failed, _⟩ | read
  · rw [failed] at succeeds
    cases succeeds
  · obtain ⟨pieces, groupCount, parsedOne, parsedThree, repetitions⟩ := read
    exact ⟨le, pieces, groupCount, parsedOne, parsedThree, repetitions le⟩

end PatternTree.Pattern
