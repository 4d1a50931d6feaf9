import PatternTree.Escape

/-!
# The ways to write an escape

The text after a backslash can be read in one form only.  `Escape.Written` gives the
forms with what each of them asks of that text, as far as it decides whether the escape
is refused: references, shorthands and literals never are.
-/

namespace PatternTree.Escape

/-- The text `key :: rest` after a backslash, for the forms that it is read in. -/
inductive Written (key : Char) (rest : List Char) : Escape → Prop where
  | reference {id : String} : Written key rest (.reference id)
  | shorthand {cls : CharClass} : Written key rest (.shorthand cls)
  | literal {c : Char} : Written key rest (.literal c)
  | code {span : Span Nat} (found : code? key rest = some span) : Written key rest (.code span.value)
  | property {name after : List Char} (keyEq : key = 'p')
      (restEq : rest = '\x7b' :: (name ++ '\x7d' :: after))
      (nonempty : name ≠ []) (absent : '\x7d' ∉ name) : Written key rest (.property (.ofList name))
  | call (keyEq : key = 'g') : Written key rest .call
  | anchor {place : Anchor} (found : Anchor.ofEscaped? key = some place) :
      Written key rest (.anchor place)

variable {key : Char} {rest : List Char}

theorem written_of_named? {span : Span Escape} (found : named? key rest = some span) :
    Written key rest span.value := by
  simp only [named?] at found
  split at found
  · obtain ⟨name, _, rfl⟩ := Option.map_eq_some_iff.mp found
    exact .reference
  · obtain ⟨name, enclosed, rfl⟩ := Option.map_eq_some_iff.mp found
    obtain ⟨nonempty, absent, after, rfl⟩ := Text.enclosed?_eq_some_iff.mp enclosed
    exact .property rfl rfl nonempty absent
  · cases found

theorem written_ofChar (key : Char) (rest : List Char) : Written key rest (ofChar key) := by
  simp only [ofChar]
  split
  · exact .shorthand
  · next found => exact .anchor found
  · split
    · next isCall => exact .call isCall
    · exact .literal

/-- Whatever an escape is read as, its text is written so. -/
theorem written_read (key : Char) (rest : List Char) :
    Written key rest (read key rest).value := by
  simp only [read]
  split
  · exact .reference
  · split
    · next found => exact written_of_named? found
    · next found => exact .code found
    · exact written_ofChar key rest

end PatternTree.Escape
