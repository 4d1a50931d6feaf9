import PatternTree.Proofs.Tree.Writing

/-!
# Atoms that are read back

An atom that holds no sequence is read back from its escaped text alone.  No
character after that text has a part in it: a code point is written with as many
digits as are ever read, and all other texts are closed by a mark of their own.
-/

namespace PatternTree

/-- The escaped text of an atom is `head :: tail`; it begins with no mark that is
read before atoms are, and reading takes all of it and nothing more. -/
structure Atom.SpelledBy (atom : Atom) (head : Char) (tail : List Char) : Prop where
  write_eq : atom.write .escaped = head :: tail
  head_ordinary : head ∉ ['(', '|', ')', '*', '+', '?', '\x7b']
  read_eq : ∀ pos rest, Atom.read pos head (tail ++ rest) = .ok ⟨atom, tail.length⟩

namespace Atom

theorem spelledBy_any : SpelledBy .any '.' [] where
  write_eq := rfl
  head_ordinary := by decide
  read_eq _ _ := rfl

/-- A special character is the literal that its escape gives. -/
theorem spelledBy_special {c : Char} (special : Style.isSpecial c = true) :
    SpelledBy (.literal c) '\\' [c] := by
  simp only [Style.isSpecial, List.mem_cons, List.not_mem_nil, or_false, decide_eq_true_eq]
    at special
  rcases special with rfl | rfl | rfl | rfl | rfl | rfl | rfl | rfl | rfl | rfl | rfl | rfl <;>
    exact ⟨rfl, by decide, fun _ _ => rfl⟩

/-- A character that means nothing on its own is a literal as it stands. -/
theorem spelledBy_ordinary {c : Char} (ordinary : Style.isSpecial c = false)
    (notAnchor : c ∉ ['A', 'z', 'Z']) : SpelledBy (.literal c) c [] := by
  simp only [Style.isSpecial, List.mem_cons, List.not_mem_nil, or_false, not_or,
    decide_eq_false_iff_not] at ordinary notAnchor
  constructor
  · simp [Atom.write, Style.escaped, Style.isSpecial, ordinary, notAnchor]
  · simp [ordinary]
  · intro pos rest
    have noAnchor : Anchor.ofChar? c = none := by
      simp [Anchor.ofChar?, ordinary, notAnchor]
    simp [Atom.read, ordinary, noAnchor]

theorem exists_spelledBy_literal (c : Char) : ∃ head tail, SpelledBy (.literal c) head tail := by
  by_cases special : Style.isSpecial c = true
  · exact ⟨'\\', [c], spelledBy_special special⟩
  · by_cases anchor : c ∈ ['A', 'z', 'Z']
    · simp only [List.mem_cons, List.not_mem_nil, or_false] at anchor
      rcases anchor with rfl | rfl | rfl
      · exact ⟨'\\', ['x', '4', '1'], rfl, by decide, fun _ _ => rfl⟩
      · exact ⟨'\\', ['x', '7', 'a'], rfl, by decide, fun _ _ => rfl⟩
      · exact ⟨'\\', ['x', '5', 'a'], rfl, by decide, fun _ _ => rfl⟩
    · exact ⟨c, [], spelledBy_ordinary (Bool.eq_false_iff.mpr special) anchor⟩

theorem spelledBy_oneOf {cls : CharClass} (holds : cls.items = [] → cls.negated = true) :
    SpelledBy (.oneOf cls) '[' (cls.writeContent ++ [']']) where
  write_eq := rfl
  head_ordinary := by decide
  read_eq pos rest := by
    have found := CharClass.read_writeContent holds pos rest
    simp only [Atom.read, List.append_assoc, List.singleton_append, found, Except.map, Span.map,
      List.length_append, List.length_singleton]

theorem spelledBy_backReference {id : String} (isName : IsName id.toList) :
    SpelledBy (.backReference id) '\\' ('k' :: '<' :: (id.toList ++ ['>'])) where
  write_eq := rfl
  head_ordinary := by decide
  read_eq pos rest := by
    have found : Text.enclosed? '>' (id.toList ++ '>' :: rest) = some id.toList :=
      Text.enclosed?_eq_some_iff_isName.mpr ⟨isName, rest, rfl⟩
    have form : Escape.read 'k' ('<' :: (id.toList ++ '>' :: rest)) =
        ⟨.reference id, id.toList.length + 2⟩ := by
      have notDigit : Char.isDigit 'k' = false := by decide
      simp [Escape.read, notDigit, Escape.named?, found]
    simp [Atom.read, Escape.decode, form, Escape.atom, Except.map]

/-- Every atom that takes text and holds no sequence is read back. -/
theorem exists_spelledBy {atom : Atom} (shaped : atom.WellShaped)
    (noBoundary : atom ≠ .boundary) (noGroup : ∀ id body, atom ≠ .group id body)
    (single : atom.isChoice = false) : ∃ head tail, SpelledBy atom head tail := by
  cases atom with
  | boundary => exact absurd rfl noBoundary
  | literal c => exact exists_spelledBy_literal c
  | oneOf cls => exact ⟨_, _, spelledBy_oneOf shaped⟩
  | any => exact ⟨_, _, spelledBy_any⟩
  | group id body => exact absurd rfl (noGroup id body)
  | either left right => cases single
  | backReference id => exact ⟨_, _, spelledBy_backReference shaped⟩

end Atom

end PatternTree
