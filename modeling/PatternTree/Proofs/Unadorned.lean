import Mathlib.Data.List.Infix
import PatternTree.Tree.Reader

/-!
# Unadorned texts

A text without escapes, brackets, braces and named groups is read character by
character.  An atom of it that holds no sequence is one character, and whether
that character can stand where it does depends on its being an anchor and on
nothing else.
-/

namespace PatternTree

/-- A text without escapes, brackets, braces and named groups. -/
structure IsUnadorned (text : List Char) : Prop where
  ordinary : ∀ c ∈ text, c ∉ ['\\', '[', '\x7b']
  unnamed : ¬['(', '?', '<'] <:+: text

instance (text : List Char) : Decidable (IsUnadorned text) :=
  decidable_of_iff
    (text.all (fun c => decide (c ∉ ['\\', '[', '\x7b'])) = true ∧ ¬['(', '?', '<'] <:+: text)
    ⟨fun holds => ⟨by simpa using holds.1, holds.2⟩,
      fun holds => ⟨by simpa using holds.ordinary, holds.unnamed⟩⟩

namespace IsUnadorned

variable {text : List Char}

theorem unbraced (unadorned : IsUnadorned text) : text.head? ≠ some '\x7b' := by
  intro headEq
  exact absurd (unadorned.ordinary '\x7b' (List.mem_of_head? headEq)) (by decide)

theorem not_named (unadorned : IsUnadorned text) {before after : List Char} :
    text ≠ before ++ '(' :: '?' :: '<' :: after := by
  intro textEq
  exact unadorned.unnamed ⟨before, after, by simp [textEq]⟩

theorem drop (unadorned : IsUnadorned text) (count : Nat) : IsUnadorned (text.drop count) where
  ordinary c member := unadorned.ordinary c (List.mem_of_mem_drop member)
  unnamed named := unadorned.unnamed (named.trans (List.drop_suffix count text).isInfix)

theorem of_cons {head : Char} {tail : List Char} (unadorned : IsUnadorned (head :: tail)) :
    IsUnadorned tail :=
  unadorned.drop 1

end IsUnadorned

/-- The atom that a character without any other meaning stands for. -/
def Atom.plain (head : Char) : Atom :=
  if head = '.' then .any else .literal head

/-- In an unadorned text an atom that holds no sequence is one character. -/
theorem Atom.read_of_unadorned {head : Char} (ordinary : head ∉ ['\\', '[', '\x7b'])
    (pos : Nat) (tail : List Char) :
    Atom.read pos head tail =
      (Anchor.ofChar? head).elim (.ok ⟨.plain head, 0⟩) fun anchor =>
        (anchor.atom pos (pos == 0) tail.isEmpty).map (⟨·, 0⟩) := by
  simp only [List.mem_cons, List.not_mem_nil, or_false, not_or] at ordinary
  unfold Atom.read
  split
  · rfl
  · exact absurd rfl ordinary.2.1
  · exact absurd rfl ordinary.1
  · next notAny _ _ =>
      have notDot : head ≠ '.' := notAny
      rw [Atom.plain, if_neg notDot]
      cases Anchor.ofChar? head with
      | none => rfl
      | some anchor => rfl

end PatternTree
