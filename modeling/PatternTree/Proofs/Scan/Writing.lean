import PatternTree.Proofs.Quantifier.Marks
import PatternTree.Proofs.Scan.Draft
import PatternTree.Proofs.Scan.Move
import PatternTree.Proofs.Tree.Writing
import PatternTree.Proofs.Unadorned

/-!
# Nothing is lost in reading

A tree keeps no record of some of its text: not of markers, of anchors at the
edges, of the spelling of an escape.  A bare text has none of these, and
`Pattern.write_of_parse` gets it back from its tree character by character.  So
reading drops, doubles and moves nothing, alternatives included.

Along the scan, what has been drafted and what is unread make up the whole text:
`write_of_move` shows that a move passes characters from the one to the other.
-/

namespace PatternTree

/-- How a mark of repetition must stand in a bare text: after a character that it
can repeat, unless it opens a group that captures nothing. -/
def IsPlaced (before : List Char) (mark : Char) (after : List Char) : Prop :=
  (mark = '?' ∧ before.getLast? = some '(' ∧ after.head? = some ':') ∨
    ∃ previous ∈ before.getLast?, previous ∉ ['*', '+', '?', '(', '|'] ∧
      ¬['(', '?', ':'] <:+ before

/-- An unadorned text without anchors, in which every mark of repetition has
something to repeat. -/
structure IsBare (text : List Char) : Prop extends IsUnadorned text where
  unanchored : ∀ c ∈ text, c ∉ ['^', 'A', '$', 'z', 'Z']
  placed : ∀ i, (inside : i < text.length) → text[i] ∈ ['*', '+', '?'] →
    IsPlaced (text.take i) text[i] (text.drop (i + 1))

instance (before : List Char) (mark : Char) (after : List Char) :
    Decidable (IsPlaced before mark after) :=
  decidable_of_iff
    ((mark = '?' ∧ before.getLast? = some '(' ∧ after.head? = some ':') ∨
      before.getLast?.any (fun previous => decide (previous ∉ ['*', '+', '?', '(', '|']) &&
        !decide (['(', '?', ':'] <:+ before)) = true)
    (by simp [IsPlaced, Option.any_eq_true, and_assoc])

instance (text : List Char) : Decidable (IsBare text) :=
  decidable_of_iff
    (IsUnadorned text ∧
      text.all (fun c => decide (c ∉ ['^', 'A', '$', 'z', 'Z'])) = true ∧
      ∀ i, (inside : i < text.length) → text[i] ∈ ['*', '+', '?'] →
        IsPlaced (text.take i) text[i] (text.drop (i + 1)))
    ⟨fun holds => ⟨holds.1, by simpa using holds.2.1, holds.2.2⟩,
      fun holds => ⟨holds.toIsUnadorned, by simpa using holds.unanchored, holds.placed⟩⟩

namespace IsBare

variable {text before after : List Char}

theorem isPlaced_of_eq (bare : IsBare text) {mark : Char}
    (textEq : text = before ++ mark :: after) (isMark : mark ∈ ['*', '+', '?']) :
    IsPlaced before mark after := by
  subst textEq
  have placed := bare.placed before.length (by simp) (by simpa using isMark)
  simpa using placed

/-- No mark of repetition is followed by a marker. -/
theorem not_mem_markers (bare : IsBare text) {mark marker : Char}
    (textEq : text = before ++ mark :: marker :: after) (isMark : mark ∈ ['*', '+', '?']) :
    marker ∉ ['?', '+'] := by
  intro isMarker
  have markerIsMark : marker ∈ ['*', '+', '?'] := by
    simp only [List.mem_cons, List.not_mem_nil, or_false] at isMarker ⊢
    exact .inr isMarker.symm
  have markerEq : text = (before ++ [mark]) ++ marker :: after := by
    simp [textEq]
  cases bare.isPlaced_of_eq markerEq markerIsMark with
  | inl opening =>
      obtain ⟨_, opened, _⟩ := opening
      rw [List.getLast?_concat, Option.some.injEq] at opened
      subst opened
      contradiction
  | inr repeats =>
      obtain ⟨previous, previousEq, notMark, _⟩ := repeats
      rw [List.getLast?_concat, Option.mem_some_iff] at previousEq
      subst previousEq
      simp only [List.mem_cons, List.not_mem_nil, or_false, not_or] at isMark notMark
      rcases isMark with rfl | rfl | rfl
      · exact notMark.1 rfl
      · exact notMark.2.1 rfl
      · exact notMark.2.2.1 rfl

end IsBare

/-! ## Pieces -/

/-- Without braces and markers a piece is written as it was read. -/
theorem Piece.write_of_read (style : Style) {atom : Atom} {text : List Char}
    (unbraced : text.head? ≠ some '\x7b')
    (noMarker : ∀ mark marker rest, text = mark :: marker :: rest →
      mark ∈ ['*', '+', '?'] → marker ∉ ['?', '+'])
    {pos length : Nat} {piece : Piece} (found : Piece.read atom pos text = .ok ⟨piece, length⟩) :
    piece.write style ++ text.drop length = atom.write style ++ text := by
  cases Piece.read_of_unbraced unbraced atom pos with
  | inl once =>
      rw [once] at found
      cases found
      simp [Piece.write, Quantifier.write]
  | inr marked =>
      obtain ⟨mark, rest, quantifier, isMark, rfl, writeEq, read⟩ := marked
      rw [read] at found
      cases found
      have noMarkerLength : Quantifier.markerLength rest = 0 := by
        cases rest with
        | nil => rfl
        | cons marker more =>
            have notMarker := noMarker mark marker more rfl isMark
            simp only [List.mem_cons, List.not_mem_nil, or_false, not_or] at notMarker
            simp [Quantifier.markerLength, notMarker]
      simp [Piece.write, writeEq, noMarkerLength]

/-- In a bare text an atom that holds no sequence is its own first character. -/
theorem Atom.write_of_read {head : Char} (ordinary : head ∉ ['\\', '[', '\x7b'])
    (unanchored : head ∉ ['^', 'A', '$', 'z', 'Z']) {pos length : Nat} {tail : List Char}
    {atom : Atom} (found : Atom.read pos head tail = .ok ⟨atom, length⟩) :
    atom.write .bare = [head] ∧ length = 0 := by
  simp only [List.mem_cons, List.not_mem_nil, or_false, not_or] at unanchored
  have noAnchor : Anchor.ofChar? head = none := by
    simp [Anchor.ofChar?, unanchored]
  rw [Atom.read_of_unadorned ordinary, noAnchor] at found
  cases found
  refine ⟨?_, rfl⟩
  unfold Atom.plain
  split
  · next isDot => rw [isDot, Atom.write]
  · rw [Atom.write, Style.bare]

/-! ## The scan -/

/-- The text of a tree is a list of what its pieces say, with a bar at each choice. -/
theorem Sequence.listing_write (style : Style) : Listing (Sequence.write style) ['|'] where
  nil := rfl
  append := Sequence.write_append style
  boundary := rfl
  either := Sequence.write_either style

/-- The text of a sequence that is still being read. -/
def Draft.write (style : Style) (draft : Draft) : List Char :=
  draft.alternatives.reverse.flatMap (fun left => Sequence.write style left ++ ['|']) ++
    Sequence.write style draft.pieces.reverse

/-- The text before an open group, and what opens it. -/
def OpenGroup.write (style : Style) (group : OpenGroup) : List Char :=
  group.outer.write style ++ style.opening group.id

/-- The text of all that a scan has drafted. -/
def Scan.write (style : Style) (scan : Scan) : List Char :=
  scan.enclosing.reverse.flatMap (OpenGroup.write style) ++ scan.draft.write style

namespace Draft

variable (style : Style) (draft : Draft)

@[simp] theorem write_empty : Draft.write style {} = [] := by
  simp [Draft.write]

@[simp] theorem write_split : draft.split.write style = draft.write style ++ ['|'] := by
  simp [Draft.write, Draft.split]

@[simp] theorem write_push (piece : Piece) :
    (draft.push piece).write style = draft.write style ++ piece.write style := by
  unfold push
  split
  · simp [Piece.write, Atom.write, Quantifier.write]
  · simp [Draft.write]

/-- A finished draft is written as the draft was. -/
@[simp] theorem write_finish : Sequence.write style draft.finish = draft.write style :=
  (Sequence.listing_write style).finish draft

end Draft

namespace Scan

theorem write_of_move {text : List Char} (bare : IsBare text) {scan next : Scan}
    (written : scan.write .bare ++ scan.unread = text) (move : Move scan next) :
    next.write .bare ++ next.unread = text := by
  have inside {before rest : List Char} {c : Char} (textEq : text = before ++ c :: rest) :
      c ∈ text := by
    simp [textEq]
  -- The text before a piece ends where the text of its quantifier begins.
  have piece_of_read {before after : List Char} (textEq : text = before ++ after) {atom : Atom}
      {pos length : Nat} {piece : Piece}
      (found : Piece.read atom pos after = .ok ⟨piece, length⟩) :
      piece.write .bare ++ after.drop length = atom.write .bare ++ after := by
    refine Piece.write_of_read .bare ?_ ?_ found
    · intro headEq
      obtain ⟨rest, rfl⟩ := List.head?_eq_some_iff.mp headEq
      exact absurd (bare.ordinary _ (inside textEq)) (by decide)
    · rintro mark marker rest rfl isMark
      exact bare.not_mem_markers textEq isMark
  cases move with
  | @openGroup tail id length unreadEq _ opened =>
      rw [unreadEq] at written
      rw [← written]
      cases Opening.form_of_read opened with
      | unnamed => simp [Scan.write, OpenGroup.write, Style.bare]
      | named => exact absurd written.symm bare.not_named
      | numbered => simp [Scan.write, OpenGroup.write, Style.bare]
  | @openAlternative tail unreadEq _ =>
      rw [unreadEq] at written
      rw [← written]
      simp [Scan.write]
  | @closeGroup tail group enclosing piece length unreadEq enclosingEq pieceRead =>
      rw [unreadEq] at written
      have textEq : text = (scan.write .bare ++ [')']) ++ tail := by
        simp [← written]
      have pieceEq := piece_of_read textEq pieceRead
      rw [textEq]
      simp only [Scan.write, Draft.write_push, List.append_assoc, pieceEq, enclosingEq]
      simp [Atom.write, OpenGroup.write]
  | @takeAtom head tail atom length piece more unreadEq _ _ _ atomRead pieceRead =>
      rw [unreadEq] at written
      have member := inside written.symm
      obtain ⟨atomEq, rfl⟩ :=
        Atom.write_of_read (bare.ordinary head member) (bare.unanchored head member) atomRead
      have textEq : text = (scan.write .bare ++ [head]) ++ tail := by
        simp [← written]
      have pieceEq := piece_of_read textEq pieceRead
      rw [textEq]
      simp only [Scan.write, Draft.write_push, List.append_assoc, List.drop_zero] at pieceEq ⊢
      rw [pieceEq, atomEq]

end Scan

/-- A bare text that is read can be written again from its tree. -/
theorem Pattern.write_of_parse {options : LimitOptions} {text : String} {pattern : Pattern}
    (bare : IsBare text.toList) (parsed : Pattern.parse options text = .ok pattern) :
    Sequence.write .bare pattern.pieces = text.toList := by
  obtain ⟨last, ran, closed, rfl⟩ := Pattern.parse_eq_ok_iff.mp parsed
  have start : Scan.write .bare { unread := text.toList } ++ text.toList = text.toList := by
    simp [Scan.write]
  obtain ⟨written, unreadEq⟩ := Scan.invariant_of_run (Scan.write_of_move bare) start ran
  simpa [unreadEq, Scan.write, closed] using written

/-- A text with alternatives inside and outside groups, where marks repeat a
character and both kinds of groups. -/
theorem Pattern.write_of_parse_alternatives :
    let pieces : Sequence := [⟨.once, .either
      [⟨.once, .literal 'x'⟩,
        ⟨.plus, .group (some "1") [⟨.once, .either
          [⟨.star, .literal 'a'⟩]
          [⟨.optional, .group none [⟨.once, .either [⟨.once, .literal 'b'⟩] [⟨.once, .any⟩]⟩]⟩]⟩]⟩]
      [⟨.once, .literal 'c'⟩]⟩]
    IsBare "x(a*|(?:b|.)?)+|c".toList ∧
      Pattern.parse {} "x(a*|(?:b|.)?)+|c" = .ok { pieces, groupCount := 2 } ∧
      Sequence.write .bare pieces = "x(a*|(?:b|.)?)+|c".toList := by
  intro pieces
  have bare : IsBare "x(a*|(?:b|.)?)+|c".toList := by
    decide +kernel
  have parsed : Pattern.parse {} "x(a*|(?:b|.)?)+|c" = .ok { pieces, groupCount := 2 } := by
    decide +kernel
  exact ⟨bare, parsed, Pattern.write_of_parse bare parsed⟩

end PatternTree
