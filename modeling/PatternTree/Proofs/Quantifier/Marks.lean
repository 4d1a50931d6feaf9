import PatternTree.Proofs.Quantifier.Writing

/-!
# Marks of repetition

Where no brace stands, a quantifier is one mark or none, and reading a piece
takes that mark, the marker after it and nothing else.  It never fails.
-/

namespace PatternTree

/-- Without braces a quantifier is one mark or none. -/
theorem Quantifier.read_of_unbraced {text : List Char} (unbraced : text.head? ≠ some '\x7b')
    (pos : Nat) :
    Quantifier.read pos text = .ok ⟨.once, 0⟩ ∨
      ∃ mark rest quantifier, mark ∈ ['*', '+', '?'] ∧ text = mark :: rest ∧
        quantifier.write = [mark] ∧ quantifier.isExact = false ∧
        Quantifier.read pos text = .ok ⟨quantifier, 1⟩ := by
  unfold Quantifier.read
  split
  · exact .inr ⟨'*', _, .star, by simp, rfl, rfl, rfl, rfl⟩
  · exact .inr ⟨'+', _, .plus, by simp, rfl, rfl, rfl, rfl⟩
  · exact .inr ⟨'?', _, .optional, by simp, rfl, rfl, rfl, rfl⟩
  · exact absurd rfl unbraced
  · exact .inl rfl

/-- Without braces a piece takes one mark with its marker, or nothing. -/
theorem Piece.read_of_unbraced {text : List Char} (unbraced : text.head? ≠ some '\x7b')
    (atom : Atom) (pos : Nat) :
    Piece.read atom pos text = .ok ⟨⟨.once, atom⟩, 0⟩ ∨
      ∃ mark rest quantifier, mark ∈ ['*', '+', '?'] ∧ text = mark :: rest ∧
        quantifier.write = [mark] ∧
        Piece.read atom pos text =
          .ok ⟨⟨quantifier, atom⟩, 1 + Quantifier.markerLength rest⟩ := by
  cases Quantifier.read_of_unbraced unbraced pos with
  | inl once =>
      left
      rw [Piece.read, once]
  | inr marked =>
      right
      obtain ⟨mark, rest, quantifier, isMark, rfl, writeEq, notExact, found⟩ := marked
      refine ⟨mark, rest, quantifier, isMark, rfl, writeEq, ?_⟩
      rw [Piece.read, found]
      cases quantifier with
      | once => cases writeEq
      | star | plus | optional | braces => simp [notExact]

/-- Only a marker is taken for one. -/
theorem Quantifier.mem_of_mem_take_markerLength {text : List Char} {c : Char}
    (member : c ∈ text.take (markerLength text)) : c ∈ ['?', '+'] := by
  unfold markerLength at member
  split at member
  · have isQuestion : c = '?' := by simpa using member
    simp [isQuestion]
  · have isPlus : c = '+' := by simpa using member
    simp [isPlus]
  · simp at member

/-- Without braces what follows an atom is read as a piece, and only marks are
taken. -/
theorem Piece.exists_read_of_unbraced {text : List Char} (unbraced : text.head? ≠ some '\x7b')
    (atom : Atom) (pos : Nat) :
    ∃ piece length, Piece.read atom pos text = .ok ⟨piece, length⟩ ∧
      ∀ c ∈ text.take length, c ∈ ['*', '+', '?'] := by
  cases Piece.read_of_unbraced unbraced atom pos with
  | inl once => exact ⟨_, _, once, by simp⟩
  | inr marked =>
      obtain ⟨mark, rest, quantifier, isMark, rfl, _, found⟩ := marked
      refine ⟨_, _, found, ?_⟩
      rw [Nat.add_comm, List.take_succ_cons, List.forall_mem_cons]
      refine ⟨isMark, ?_⟩
      intro c member
      have isMarker := Quantifier.mem_of_mem_take_markerLength member
      simp only [List.mem_cons, List.not_mem_nil, or_false] at isMarker ⊢
      exact .inr isMarker.symm

/-- Without braces no piece is refused. -/
theorem Piece.read_ne_error_of_unbraced {text : List Char} (unbraced : text.head? ≠ some '\x7b')
    (atom : Atom) (pos : Nat) (error : ParseError) :
    Piece.read atom pos text ≠ .error error := by
  obtain ⟨piece, length, found, _⟩ := Piece.exists_read_of_unbraced unbraced atom pos
  intro failed
  rw [found] at failed
  cases failed

end PatternTree
