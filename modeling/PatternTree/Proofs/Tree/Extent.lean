import PatternTree.Proofs.CharClass.NamedSet
import PatternTree.Proofs.Text

/-!
# The extent of an atom

An atom takes a number of characters, and the last of them is where it ends.  It is read in the
same way if there is nothing behind that character: `Atom.read_take` says that the characters that
are taken are enough to tell what the atom is.
-/

namespace PatternTree

/-! ## Classes -/

namespace CharClass

/-- A closing bracket is all of the text behind a class that it needs. -/
theorem read_take {pos length : Nat} {text : List Char} {cls : CharClass}
    (found : CharClass.read pos text = .ok ⟨cls, length⟩) :
    CharClass.read pos (text.take length) = .ok ⟨cls, length⟩ := by
  have unnamed : startsNamedSet text = false := by
    rw [Bool.eq_false_iff]
    intro named
    cases found.symm.trans (read_eq_posixBracket_iff.mpr named)
  rcases read_cases unnamed pos with ⟨content, rest, isContent, rfl, foundEq⟩ | ⟨_, failed⟩
  · cases found.symm.trans foundEq
    have takenEq : (content ++ ']' :: rest).take (content.length + 1) = content ++ [']'] := by
      simp [List.take_append]
    have stillUnnamed : startsNamedSet (content ++ [']']) = false := by
      rw [Bool.eq_false_iff] at unnamed ⊢
      exact fun named => unnamed (startsNamedSet_append_iff.mpr (.inl named))
    rw [takenEq]
    exact read_of_content isContent stillUnnamed pos
  · cases found.symm.trans failed

end CharClass

/-! ## Anchors -/

/-- An anchor that holds in a text holds where the text ends earlier. -/
theorem Anchor.atom_take {anchor : Anchor} {pos : Nat} {atStart : Bool} {text : List Char}
    {atom : Atom} (found : anchor.atom pos atStart text.isEmpty = .ok atom) (count : Nat) :
    anchor.atom pos atStart (text.take count).isEmpty = .ok atom := by
  cases anchor with
  | start => exact found
  | stop =>
      cases text with
      | nil => simpa using found
      | cons => cases found
  | within => cases found

/-! ## Escapes -/

namespace Text

theorem enclosed?_take {stop : Char} {text name : List Char}
    (found : enclosed? stop text = some name) :
    enclosed? stop (text.take (name.length + 1)) = some name := by
  obtain ⟨nonempty, absent, rest, rfl⟩ := enclosed?_eq_some_iff.mp found
  exact enclosed?_eq_some_iff.mpr ⟨nonempty, absent, [], by simp [List.take_append]⟩

/-- A run of hexadecimal digits is found where the text ends with it, or later. -/
theorem hexRun_take {limit count : Nat} {text : List Char}
    (inside : (hexRun limit text).length ≤ count) :
    hexRun limit (text.take count) = hexRun limit text := by
  unfold hexRun at inside ⊢
  rw [List.take_take, Nat.min_comm, ← List.take_take, ← List.take_takeWhile,
    List.take_of_length_le inside]

end Text

namespace Escape

variable {key : Char} {rest : List Char}

theorem named?_take {span : Span Escape} (found : named? key rest = some span) :
    named? key (rest.take span.length) = some span := by
  simp only [named?] at found
  split at found
  · obtain ⟨name, enclosed, rfl⟩ := Option.map_eq_some_iff.mp found
    simp [named?, Text.enclosed?_take enclosed]
  · obtain ⟨name, enclosed, rfl⟩ := Option.map_eq_some_iff.mp found
    simp [named?, Text.enclosed?_take enclosed]
  · cases found

theorem code?_take {span : Span Nat} (found : code? key rest = some span) :
    code? key (rest.take span.length) = some span := by
  simp only [code?] at found
  split at found
  · cases found
    rfl
  · cases found
    rfl
  · split at found
    · cases found
    · next nonempty =>
        cases found
        simp only [code?, Text.hexRun_take (Nat.le_refl _), if_neg nonempty]
  · next text =>
      split at found
      · next closed =>
          cases found
          rw [Bool.and_eq_true, beq_iff_eq] at closed
          simp only [code?, List.take_succ_cons, Text.hexRun_take (Nat.le_succ _)]
          have ends : ((text.take ((Text.hexRun 4 text).length + 1)).drop
              (Text.hexRun 4 text).length).head? = some '\x7d' := by
            rw [List.head?_drop, List.getElem?_take_of_lt (Nat.lt_succ_self _), ← List.head?_drop]
            exact closed.2
          simp [closed.1, ends]
      · cases found
  · next unbraced =>
      split at found
      · next four =>
          cases found
          have stillUnbraced : ∀ text, rest.take 4 ≠ '\x7b' :: text := by
            intro text equal
            cases rest with
            | nil => cases equal
            | cons head tail =>
                obtain ⟨rfl, _⟩ := List.cons.inj equal
                exact unbraced tail rfl
          simp [code?, Text.hexRun_take (Nat.le_of_eq four), four]
      · cases found
  · cases found

/-- The form of an escape is found in the characters that it takes. -/
theorem read_take (key : Char) (rest : List Char) :
    read key (rest.take (read key rest).length) = read key rest := by
  by_cases digit : key.isDigit = true
  · simp only [read, if_pos digit, ← List.take_takeWhile, List.take_length]
  simp only [read, if_neg digit]
  cases named : named? key rest with
  | some span => simp only [named?_take named]
  | none =>
      cases code : code? key rest with
      | some span =>
          have unnamed : named? key (rest.take span.length) = none := by
            simp only [code?] at code
            split at code <;> first | rfl | cases code
          simp only [Span.map, unnamed, code?_take code]
      | none =>
          have alone : named? key [] = none ∧ code? key [] = none := by
            unfold named? code?
            constructor
            · split <;> simp_all
            · split <;> simp_all [Text.hexRun]
          simp only [List.take_zero, alone]

theorem atom_take {form : Escape} {pos : Nat} {atom : Atom}
    (meant : form.atom pos rest.isEmpty = .ok atom) (count : Nat) :
    form.atom pos (rest.take count).isEmpty = .ok atom := by
  cases form with
  | reference | shorthand | code | property | call | literal => exact meant
  | anchor place => exact Anchor.atom_take meant count

theorem decode_take {pos length : Nat} {atom : Atom}
    (decoded : decode pos key rest = .ok ⟨atom, length⟩) :
    decode pos key (rest.take length) = .ok ⟨atom, length⟩ := by
  simp only [decode] at decoded ⊢
  split at decoded
  · next meant =>
      cases decoded
      simp only [read_take, atom_take meant]
  · cases decoded

end Escape

/-- An atom is read in the same way where the text ends with it. -/
theorem Atom.read_take {pos length : Nat} {head : Char} {tail : List Char} {atom : Atom}
    (found : Atom.read pos head tail = .ok ⟨atom, length⟩) :
    Atom.read pos head (tail.take length) = .ok ⟨atom, length⟩ := by
  simp only [Atom.read] at found ⊢
  split at found
  · exact found
  · obtain ⟨span, read, spanEq⟩ := ParseError.exists_of_map_eq_ok found
    cases span with
    | mk cls length =>
        cases spanEq
        simp only [CharClass.read_take read]
        rfl
  · split at found
    · cases found
    · next key rest =>
        obtain ⟨span, decoded, spanEq⟩ := ParseError.exists_of_map_eq_ok found
        cases span with
        | mk atom length =>
            cases spanEq
            simp only [List.take_succ_cons, Escape.decode_take decoded]
            rfl
  · split at found
    · next anchor _ =>
        obtain ⟨_, holds, spanEq⟩ := ParseError.exists_of_map_eq_ok found
        cases spanEq
        have still := Anchor.atom_take holds 0
        simp only [still]
        rfl
    · exact found

end PatternTree
