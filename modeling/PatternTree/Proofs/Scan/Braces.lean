import PatternTree.Proofs.Quantifier.Spelling
import PatternTree.Proofs.Quantifier.Writing
import PatternTree.Proofs.Tree.Groups
import PatternTree.Scan

/-!
# What a brace after an atom means

`Piece.Braced` says what an atom and a brace after it are read as, by the text after the brace.
Bounds that are spelled out there are taken or, in the wrong order, refused; any other text
leaves the brace to be the next literal.  What is taken may end in a marker, which
`Quantifier.Marker` finds in the text.  These cases are all that there is, by
`brace_read_as_spelled`.
-/

namespace PatternTree

variable {atom : Atom} {pos : Nat} {text content marker rest : List Char} {bounds : Braces}

/-- The marker at the front of a text, before `rest`: a single question mark or plus, and nothing
where neither of them stands. -/
inductive Quantifier.Marker : (marker rest : List Char) → Prop where
  | question {rest : List Char} : Marker ['?'] rest
  | plus {rest : List Char} : Marker ['+'] rest
  | absent {rest : List Char} (noQuestion : rest.head? ≠ some '?')
      (noPlus : rest.head? ≠ some '+') : Marker [] rest

/-- What is read of an atom where `text` follows a brace after it at `pos`. -/
inductive Piece.Braced (atom : Atom) (pos : Nat) (text : List Char) :
    Except ParseError (Span Piece) → Prop where
  | inverted {content rest : List Char} {min max : Count} (textEq : text = content ++ rest)
      (spelled : Braces.Spelled content ⟨some min, true, some max⟩) (less : max < min) :
      Braced atom pos text (.error ⟨pos, .invertedRange min max⟩)
  /-- A question mark makes an exact number optional, and may have a marker after it. -/
  | optional {content marker rest : List Char} {count : Count}
      (textEq : text = content ++ '?' :: (marker ++ rest))
      (spelled : Braces.Spelled content ⟨some count, false, none⟩)
      (marked : Quantifier.Marker marker rest) :
      Braced atom pos text
        (.ok ⟨.optionalExactly count atom, content.length + 2 + marker.length⟩)
  | repeated {content marker rest : List Char} {bounds : Braces}
      (textEq : text = content ++ (marker ++ rest))
      (spelled : Braces.Spelled content bounds) (wellFormed : bounds.WellFormed)
      (marked : Quantifier.Marker marker rest)
      (notAsked : bounds.comma = false → marker ≠ ['?']) :
      Braced atom pos text
        (.ok ⟨⟨.braces bounds, atom⟩, content.length + 1 + marker.length⟩)
  /-- The brace is none of a quantifier, and nothing is taken. -/
  | literal (unspelled : ∀ content rest bounds, Braces.Spelled content bounds →
        text ≠ content ++ rest) :
      Braced atom pos text (.ok ⟨⟨.once, atom⟩, 0⟩)

theorem Quantifier.Marker.markerLength_eq (marked : Marker marker rest) :
    markerLength (marker ++ rest) = marker.length := by
  cases marked with
  | question | plus => rfl
  | absent noQuestion noPlus =>
      cases rest with
      | nil => rfl
      | cons head tail =>
          simp only [List.head?_cons, ne_eq, Option.some.injEq] at noQuestion noPlus
          simp [markerLength, noQuestion, noPlus]

theorem Quantifier.exists_marker (text : List Char) :
    ∃ marker rest, text = marker ++ rest ∧ Marker marker rest := by
  by_cases question : text.head? = some '?'
  · obtain ⟨rest, rfl⟩ := List.head?_eq_some_iff.mp question
    exact ⟨['?'], rest, rfl, .question⟩
  · by_cases plus : text.head? = some '+'
    · obtain ⟨rest, rfl⟩ := List.head?_eq_some_iff.mp plus
      exact ⟨['+'], rest, rfl, .plus⟩
    · exact ⟨[], text, rfl, .absent question plus⟩

theorem Braces.WellFormed.isExact_eq (wellFormed : bounds.WellFormed) :
    (Quantifier.braces bounds).isExact = !bounds.comma := by
  cases wellFormed <;> rfl

namespace Piece

theorem read_of_inverted {min max : Count}
    (spelled : Braces.Spelled content ⟨some min, true, some max⟩) (less : max < min) :
    Piece.read atom pos ('\x7b' :: (content ++ rest)) = .error ⟨pos, .invertedRange min max⟩ := by
  simp [Piece.read, Quantifier.read, Braces.read?_of_spelled spelled, Braces.inverted?, less]

theorem read_of_wellFormed (spelled : Braces.Spelled content bounds)
    (wellFormed : bounds.WellFormed) :
    Piece.read atom pos ('\x7b' :: (content ++ rest)) =
      if bounds.comma = false ∧ rest.head? = some '?' then
        .ok ⟨⟨.optional, .group none [⟨.braces bounds, atom⟩]⟩,
          content.length + 2 + Quantifier.markerLength rest.tail⟩
      else .ok ⟨⟨.braces bounds, atom⟩, content.length + 1 + Quantifier.markerLength rest⟩ := by
  have ordered := Braces.inverted?_eq_none wellFormed
  simp [Piece.read, Quantifier.read, Braces.read?_of_spelled spelled, ordered,
    wellFormed.isExact_eq]

theorem read_of_unspelled
    (unspelled : ∀ content rest bounds, Braces.Spelled content bounds → text ≠ content ++ rest) :
    Piece.read atom pos ('\x7b' :: text) = .ok ⟨⟨.once, atom⟩, 0⟩ := by
  simp [Piece.read, Quantifier.read, Braces.read?_eq_none_iff.mpr unspelled]

/-- Each case of a brace is what is read there. -/
theorem Braced.read_eq {result : Except ParseError (Span Piece)}
    (braced : Braced atom pos text result) : Piece.read atom pos ('\x7b' :: text) = result := by
  cases braced with
  | inverted textEq spelled less =>
      subst textEq
      exact read_of_inverted spelled less
  | optional textEq spelled marked =>
      subst textEq
      rw [read_of_wellFormed spelled (.exactly _), if_pos ⟨rfl, rfl⟩, List.tail_cons,
        marked.markerLength_eq]
      rfl
  | repeated textEq spelled wellFormed marked notAsked =>
      subst textEq
      rw [read_of_wellFormed spelled wellFormed, if_neg, marked.markerLength_eq]
      rintro ⟨exact, asked⟩
      cases marked with
      | question => exact notAsked exact rfl
      | plus => cases asked
      | absent noQuestion _ => exact noQuestion asked
  | literal unspelled => exact read_of_unspelled unspelled

/-- Every text after a brace falls under one of the cases. -/
theorem exists_braced (atom : Atom) (pos : Nat) (text : List Char) :
    ∃ result, Braced atom pos text result := by
  by_cases found : ∃ content rest bounds, Braces.Spelled content bounds ∧ text = content ++ rest
  · obtain ⟨content, rest, bounds, spelled, textEq⟩ := found
    rcases spelled.inverted_or_wellFormed with ⟨min, max, rfl, less⟩ | wellFormed
    · exact ⟨_, .inverted textEq spelled less⟩
    · by_cases asked : bounds.comma = false ∧ rest.head? = some '?'
      · obtain ⟨exact, headEq⟩ := asked
        obtain ⟨more, rfl⟩ := List.head?_eq_some_iff.mp headEq
        obtain ⟨marker, rest, rfl, marked⟩ := Quantifier.exists_marker more
        cases wellFormed with
        | exactly => exact ⟨_, .optional textEq spelled marked⟩
        | atLeast | atMost | between => cases exact
      · obtain ⟨marker, rest, rfl, marked⟩ := Quantifier.exists_marker rest
        refine ⟨_, .repeated textEq spelled wellFormed marked ?_⟩
        rintro exact rfl
        exact asked ⟨exact, rfl⟩
  · exact ⟨_, .literal fun content rest bounds spelled textEq =>
      found ⟨content, rest, bounds, spelled, textEq⟩⟩

end Piece

/-- The scan moves past what the quantifier of an atom takes. -/
theorem Scan.attach_of_read {scan : Scan} {result : Except ParseError (Span Piece)}
    (read : Piece.read atom scan.pos scan.unread = result) :
    scan.attach atom = result.map fun span =>
      { scan with
        pos := scan.pos + span.length
        unread := scan.unread.drop span.length
        draft := scan.draft.push span.value } := by
  rw [Scan.attach, read]
  cases result <;> rfl

/-- What an atom and a brace after it are read as is one of the cases of `Piece.Braced`, and
nothing else.  The scan moves past what the piece takes, or fails where the bounds are refused.
Where the brace is none of a quantifier the scan stays before it, and takes it as a literal in its
next step. -/
theorem brace_read_as_spelled (scan : Scan) (atom : Atom) (text : List Char) :
    let here : Scan := { scan with unread := '\x7b' :: text }
    (∀ result, Piece.read atom here.pos here.unread = result ↔
      Piece.Braced atom here.pos text result) ∧
    (∀ result, Piece.Braced atom here.pos text result →
      here.attach atom = result.map fun span =>
        { here with
          pos := here.pos + span.length
          unread := here.unread.drop span.length
          draft := here.draft.push span.value }) ∧
    ((∀ content rest bounds, Braces.Spelled content bounds → text ≠ content ++ rest) →
      let next : Scan := { here with draft := here.draft.push ⟨.once, atom⟩ }
      here.attach atom = .ok next ∧
        next.step '\x7b' text = (next.advance 1).attach (.literal '\x7b')) := by
  intro here
  refine ⟨?_, ?_, ?_⟩
  · intro result
    constructor
    · rintro rfl
      obtain ⟨result, braced⟩ := Piece.exists_braced atom here.pos text
      rwa [braced.read_eq]
    · exact Piece.Braced.read_eq
  · intro result braced
    exact Scan.attach_of_read braced.read_eq
  · intro unspelled next
    have read : Piece.read atom here.pos here.unread = .ok ⟨⟨.once, atom⟩, 0⟩ :=
      Piece.read_of_unspelled unspelled
    exact ⟨Scan.attach_of_read read, rfl⟩

/-- A marker is taken after bounds, and after the question mark that makes an exact number
optional.  A number that no word holds leaves the brace a literal. -/
theorem brace_read_as_spelled_marked :
    Piece.read (.literal 'a') 1 "\x7b2,4\x7d?b".toList =
      .ok ⟨⟨.braces ⟨some 2, true, some 4⟩, .literal 'a'⟩, 6⟩ ∧
    Piece.read (.literal 'a') 1 "\x7b2\x7d?+b".toList =
      .ok ⟨.optionalExactly 2 (.literal 'a'), 5⟩ ∧
    Scan.attach { unread := "\x7b18446744073709551616,1\x7d".toList, pos := 1 } (.literal 'a') =
      .ok {
        unread := "\x7b18446744073709551616,1\x7d".toList
        pos := 1
        draft := { pieces := [⟨.once, .literal 'a'⟩] } } := by
  have two : Count.IsWritten 2 ['2'] := ⟨by simp, by simp, rfl⟩
  have four : Count.IsWritten 4 ['4'] := ⟨by simp, by simp, rfl⟩
  have between : "2,4\x7d?b".toList =
      (['2'] ++ ',' :: (['4'] ++ ['\x7d'])) ++ (['?'] ++ ['b']) := rfl
  have exactly : "2\x7d?+b".toList = (['2'] ++ ['\x7d']) ++ '?' :: (['+'] ++ ['b']) := rfl
  have read := brace_read_as_spelled { unread := [], pos := 1 } (.literal 'a')
  refine ⟨((read _).1 _).mpr ?_, ((read _).1 _).mpr ?_, ?_⟩
  · exact .repeated between (.between two four) (.between 2 4 (by decide)) .question nofun
  · exact .optional exactly (.exactly two) .plus
  · obtain ⟨_, _, stays⟩ := read "18446744073709551616,1\x7d".toList
    exact (stays (Braces.read?_eq_none_iff.mp rfl)).1

end PatternTree
