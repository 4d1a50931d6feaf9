import PatternTree.Proofs.Scan.Depth
import PatternTree.Proofs.Scan.Move
import PatternTree.Proofs.Tree.Measure
import PatternTree.Proofs.Tree.Spelling

/-!
# Reading what has been written

Every well-formed tree is read back from its escaped text, as far as its text
may nest: `Pattern.parse_render` gives the tree, and the one refusal that is left
for a tree that nests too deep.

The text of a piece is read in the same way wherever it stands.  `Scan.Reads`
says so of a stretch of text: the scan goes on from the end of the stretch if
there is room for the levels that it opens, and is refused as too deep if there
is not.
-/

namespace PatternTree

namespace Scan

/-- From `scan` on the text is read as far as `next`, where up to `levels` groups
and alternatives are opened on the way. -/
structure Reads (scan next : Scan) (levels : Nat) : Prop where
  run_eq : scan.depth + levels ≤ nestingLimit → scan.run = next.run
  tooDeep : scan.depth ≤ nestingLimit → nestingLimit < scan.depth + levels →
    ∃ pos, scan.run = .error ⟨pos, .tooDeep⟩

namespace Reads

variable {first second third : Scan} {before after : Nat}

theorem refl (scan : Scan) : Reads scan scan 0 where
  run_eq _ := rfl
  tooDeep fits large := absurd large (Nat.not_lt_of_le fits)

theorem of_move (move : Move first second) : Reads first second 0 where
  run_eq _ := run_of_move move
  tooDeep fits large := absurd large (Nat.not_lt_of_le fits)

/-- Two stretches that begin at the same depth make one. -/
theorem trans (earlier : Reads first second before) (later : Reads second third after)
    (depthEq : second.depth = first.depth) : Reads first third (max before after) where
  run_eq fits := by
    rw [earlier.run_eq (by omega), later.run_eq (by omega)]
  tooDeep fits large := by
    by_cases earlierFits : first.depth + before ≤ nestingLimit
    · rw [earlier.run_eq earlierFits]
      exact later.tooDeep (by omega) (by omega)
    · exact earlier.tooDeep fits (by omega)

/-- A stretch may end with a move. -/
theorem snoc (earlier : Reads first second before) (move : Move second third) :
    Reads first third before where
  run_eq fits := (earlier.run_eq fits).trans (run_of_move move)
  tooDeep := earlier.tooDeep

/-- A stretch that comes after a parenthesis or a bar is one level deeper. -/
theorem deeper (opened : first.depth < nestingLimit → Move first second)
    (refused : nestingLimit ≤ first.depth → Refused first ⟨first.pos, .tooDeep⟩)
    (depthEq : second.depth = first.depth + 1) (later : Reads second third after) :
    Reads first third (after + 1) where
  run_eq fits := by
    rw [run_of_move (opened (by omega)), later.run_eq (by omega)]
  tooDeep fits large := by
    by_cases full : nestingLimit ≤ first.depth
    · exact ⟨first.pos, run_of_refused (refused full)⟩
    · rw [run_of_move (opened (by omega))]
      exact later.tooDeep (by omega) (by omega)

end Reads

/-- The scan that has read `text` and `groups` groups more, and has come to
`rest`. -/
def past (scan : Scan) (text rest : List Char) (groups : Nat) (draft : Draft) : Scan where
  pos := scan.pos + text.length
  unread := rest
  groupCount := scan.groupCount + groups
  draft := draft
  enclosing := scan.enclosing

end Scan

/-- Add whole pieces at the end of a draft. -/
def Draft.add (draft : Draft) (pieces : Sequence) : Draft :=
  { draft with pieces := pieces.reverse ++ draft.pieces }

theorem Draft.push_eq_add {draft : Draft} {piece : Piece} (noBoundary : piece.atom ≠ .boundary) :
    draft.push piece = draft.add [piece] := by
  unfold push
  split
  · exact absurd rfl noBoundary
  · rfl

/-! ## What follows a piece -/

/-- What opens a group is read back, whatever follows it. -/
theorem Style.exists_opening_escaped {id : Option String}
    (named : ∀ name ∈ id, IsGroupName name.toList) :
    ∃ tail, Style.escaped.opening id = '(' :: tail ∧
      ∀ number rest, Opening.Form number (tail ++ rest) id tail.length := by
  cases id with
  | none => exact ⟨['?', ':'], rfl, fun _ _ => .unnamed⟩
  | some name =>
      refine ⟨'?' :: '<' :: (name.toList ++ ['>']), rfl, ?_⟩
      intro number rest
      have form : Opening.Form number ('?' :: '<' :: (name.toList ++ '>' :: rest))
          (some (.ofList name.toList)) (name.toList.length + 3) := .named (named name rfl)
      rw [String.ofList_toList] at form
      simpa using form

/-- A piece that takes text begins with no quantifier. -/
theorem Piece.absent_write_append {piece : Piece} (shaped : piece.WellShaped)
    (single : piece.atom.isChoice = false) (noBoundary : piece.atom ≠ .boundary)
    (rest : List Char) : Quantifier.Absent (piece.write .escaped ++ rest) := by
  cases piece with
  | mk quantifier atom =>
      rw [Piece.WellShaped] at shaped
      have absent_of_head {head : Char} {tail : List Char}
          (writeEq : atom.write .escaped = head :: tail)
          (ordinary : head ∉ ['*', '+', '?', '\x7b']) :
          Quantifier.Absent (Piece.write .escaped ⟨quantifier, atom⟩ ++ rest) := by
        rw [Piece.write, writeEq]
        exact Quantifier.absent_cons ordinary _
      cases atom with
      | group id body =>
          simp only [Atom.WellShaped] at shaped
          obtain ⟨tail, openingEq, _⟩ := Style.exists_opening_escaped shaped.2.1
          have writeEq : Atom.write .escaped (.group id body) =
              '(' :: (tail ++ (Sequence.write .escaped body ++ [')'])) := by
            rw [Atom.write, openingEq, List.cons_append]
          exact absent_of_head writeEq (by decide)
      | boundary | literal | oneOf | any | either | backReference =>
          obtain ⟨head, tail, spelled⟩ :=
            Atom.exists_spelledBy shaped.2 noBoundary (by simp) single
          apply absent_of_head spelled.write_eq
          intro mark
          apply spelled.head_ordinary
          simp only [List.mem_cons, List.not_mem_nil, or_false] at mark ⊢
          exact .inr (.inr (.inr mark))

/-! ## Stretches of text -/

namespace Scan

/-- The text of an atom that holds no sequence, and of its quantifier. -/
theorem reads_leaf {quantifier : Quantifier} {atom : Atom}
    (shaped : Piece.WellShaped ⟨quantifier, atom⟩) (noBoundary : atom ≠ .boundary)
    (noGroup : ∀ id body, atom ≠ .group id body) (single : atom.isChoice = false)
    {scan : Scan} {rest : List Char}
    (unreadEq : scan.unread = Piece.write .escaped ⟨quantifier, atom⟩ ++ rest)
    (absent : Quantifier.Absent rest) :
    scan.Reads (scan.past (Piece.write .escaped ⟨quantifier, atom⟩) rest 0
      (scan.draft.add [⟨quantifier, atom⟩])) 0 := by
  rw [Piece.WellShaped] at shaped
  obtain ⟨head, tail, spelled⟩ := Atom.exists_spelledBy shaped.2 noBoundary noGroup single
  have notMark (c : Char) (isMark : c ∈ ['(', '|', ')']) : head ≠ c := by
    rintro rfl
    apply spelled.head_ordinary
    simp only [List.mem_cons, List.not_mem_nil, or_false] at isMark ⊢
    rcases isMark with rfl | rfl | rfl <;> simp
  rw [Piece.write, spelled.write_eq, List.cons_append, List.cons_append, List.append_assoc]
    at unreadEq
  have atomRead := spelled.read_eq scan.pos (quantifier.write ++ rest)
  have pieceRead := Piece.read_write shaped.1 absent atom (scan.pos + (tail.length + 1))
  have move := Move.takeAtom unreadEq (notMark '(' (by decide)) (notMark '|' (by decide))
    (notMark ')' (by decide)) atomRead (by rw [List.drop_left]; exact pieceRead)
  rw [List.drop_left, List.drop_left, Draft.push_eq_add noBoundary] at move
  have lengthEq : (Piece.write .escaped ⟨quantifier, atom⟩).length =
      tail.length + 1 + quantifier.write.length := by
    rw [Piece.write, spelled.write_eq, List.length_append, List.length_cons]
  rw [past, lengthEq, ← Nat.add_assoc]
  exact .of_move move

/-- The text of a group, of whose body the reading is known, and of the group's
quantifier. -/
theorem reads_group {quantifier : Quantifier} {id : Option String} {body : Sequence}
    (named : ∀ name ∈ id, IsGroupName name.toList) (wellFormed : quantifier.WellFormed)
    {scan : Scan} {rest : List Char}
    (unreadEq : scan.unread = Piece.write .escaped ⟨quantifier, .group id body⟩ ++ rest)
    (absent : Quantifier.Absent rest)
    (bodyReads : ∀ inner : Scan, inner.draft = {} → ∀ after, Quantifier.Absent after →
      inner.unread = Sequence.write .escaped body ++ after →
      ∃ draft : Draft, draft.finish = body ∧
        inner.Reads (inner.past (Sequence.write .escaped body) after
          (Sequence.groupCount body) draft) (Sequence.nesting body)) :
    scan.Reads (scan.past (Piece.write .escaped ⟨quantifier, .group id body⟩) rest
      (Sequence.groupCount body + 1) (scan.draft.add [⟨quantifier, .group id body⟩]))
      (Sequence.nesting body + 1) := by
  obtain ⟨tail, openingEq, opening⟩ := Style.exists_opening_escaped named
  rw [Piece.write, Atom.write, openingEq] at unreadEq
  simp only [List.cons_append, List.append_assoc, List.nil_append] at unreadEq
  let after := ')' :: (quantifier.write ++ rest)
  have afterAbsent : Quantifier.Absent after := Quantifier.absent_cons (by decide) _
  let inner : Scan := {
    pos := scan.pos + (tail.length + 1)
    unread := Sequence.write .escaped body ++ after
    groupCount := scan.groupCount + 1
    draft := {}
    enclosing := ⟨scan.pos, id, scan.draft⟩ :: scan.enclosing }
  have opened (room : scan.depth < nestingLimit) : Move scan inner := by
    have form := opening (scan.groupCount + 1) (Sequence.write .escaped body ++ after)
    have move := Move.openGroup unreadEq room (Opening.read_of_form scan.pos form)
    rwa [List.drop_left] at move
  obtain ⟨draft, finishEq, bodyRead⟩ := bodyReads inner rfl after afterAbsent rfl
  let closing := inner.past (Sequence.write .escaped body) after (Sequence.groupCount body) draft
  have pieceRead := Piece.read_write wellFormed absent (.group id draft.finish) (closing.pos + 1)
  have closed : Move closing _ := .closeGroup rfl rfl pieceRead
  rw [List.drop_left, finishEq, Draft.push_eq_add (by simp)] at closed
  have innerDepth : inner.depth = scan.depth + 1 := by
    simp only [depth_eq_add, outerDepth, inner, List.length_nil]
    omega
  have refused (full : nestingLimit ≤ scan.depth) : Refused scan ⟨scan.pos, .tooDeep⟩ :=
    .groupTooDeep unreadEq full
  have read := Reads.deeper opened refused innerDepth (bodyRead.snoc closed)
  have lengthEq : (Piece.write .escaped ⟨quantifier, .group id body⟩).length =
      tail.length + 1 + (Sequence.write .escaped body).length + 1 + quantifier.write.length := by
    simp [Piece.write, Atom.write, openingEq]
    omega
  have endEq : scan.past (Piece.write .escaped ⟨quantifier, .group id body⟩) rest
        (Sequence.groupCount body + 1) (scan.draft.add [⟨quantifier, .group id body⟩]) =
      { closing with
        pos := closing.pos + 1 + quantifier.write.length
        unread := rest
        draft := scan.draft.add [⟨quantifier, .group id body⟩]
        enclosing := scan.enclosing } := by
    simp only [past, closing, inner, lengthEq, Scan.mk.injEq, and_true, true_and]
    omega
  rw [endEq]
  exact read

/-- The text of a choice, of whose sides the readings are known. -/
theorem reads_either {left right : Sequence} {scan : Scan} {rest : List Char}
    (unreadEq : scan.unread = Sequence.write .escaped [⟨.once, .either left right⟩] ++ rest)
    (leftRead : ∀ after, Quantifier.Absent after →
      scan.unread = Sequence.write .escaped left ++ after →
      scan.Reads (scan.past (Sequence.write .escaped left) after (Sequence.groupCount left)
        (scan.draft.add left)) (Sequence.nesting left))
    (rightReads : ∀ inner : Scan, inner.draft = (scan.draft.add left).split →
      inner.unread = Sequence.write .escaped right ++ rest →
      ∃ draft : Draft, draft.finish = inner.draft.alternatives.foldl
          (fun right left => [⟨.once, .either left right⟩]) right ∧
        inner.Reads (inner.past (Sequence.write .escaped right) rest
          (Sequence.groupCount right) draft) (Sequence.nesting right)) :
    ∃ draft : Draft, draft.finish = (scan.draft.add left).split.alternatives.foldl
          (fun right left => [⟨.once, .either left right⟩]) right ∧
      scan.Reads (scan.past (Sequence.write .escaped [⟨.once, .either left right⟩]) rest
          (Sequence.groupCount left + Sequence.groupCount right) draft)
        (max (Sequence.nesting left) (Sequence.nesting right + 1)) := by
  rw [Sequence.write_either, List.append_assoc, List.cons_append] at unreadEq
  let after := '|' :: (Sequence.write .escaped right ++ rest)
  have afterAbsent : Quantifier.Absent after := Quantifier.absent_cons (by decide) _
  have earlier := leftRead after afterAbsent unreadEq
  let bar := scan.past (Sequence.write .escaped left) after (Sequence.groupCount left)
    (scan.draft.add left)
  let inner : Scan := { bar with
    pos := bar.pos + 1
    unread := Sequence.write .escaped right ++ rest
    draft := (scan.draft.add left).split }
  obtain ⟨draft, finishEq, later⟩ := rightReads inner rfl rfl
  refine ⟨draft, finishEq, ?_⟩
  have opened (room : bar.depth < nestingLimit) : Move bar inner := .openAlternative rfl room
  have innerDepth : inner.depth = bar.depth + 1 := by
    simp only [depth_eq_add, inner, bar, past, Draft.split, Draft.add, List.length_cons]
    omega
  have barDepth : bar.depth = scan.depth := depth_congr rfl rfl
  have refused (full : nestingLimit ≤ bar.depth) : Refused bar ⟨bar.pos, .tooDeep⟩ :=
    .alternativeTooDeep rfl full
  have read := earlier.trans (.deeper opened refused innerDepth later) barDepth
  have endEq : scan.past (Sequence.write .escaped [⟨.once, .either left right⟩]) rest
        (Sequence.groupCount left + Sequence.groupCount right) draft =
      inner.past (Sequence.write .escaped right) rest (Sequence.groupCount right) draft := by
    simp only [past, inner, bar, Sequence.write_either, List.length_append, List.length_cons,
      Scan.mk.injEq, and_true, true_and]
    omega
  rw [endEq]
  exact read

end Scan

/-! ## Whole trees -/

/-- The text of plain pieces begins with no quantifier if what follows does not. -/
theorem Sequence.absent_write_append {sequence : Sequence}
    (shaped : Sequence.AllWellShaped sequence) (plain : Sequence.IsPlain sequence)
    (noBoundary : Sequence.boundaryCount sequence = 0) {rest : List Char}
    (absent : Quantifier.Absent rest) :
    Quantifier.Absent (Sequence.write .escaped sequence ++ rest) := by
  cases sequence with
  | nil => simpa using absent
  | cons piece more =>
      rw [Sequence.allWellShaped_cons] at shaped
      rw [Sequence.isPlain_cons] at plain
      rw [Sequence.write_cons, List.append_assoc]
      apply Piece.absent_write_append shaped.1 plain.1
      intro equal
      cases piece with
      | mk quantifier atom =>
          cases equal
          simp [Sequence.boundaryCount, Piece.boundaryCount, Atom.boundaryCount] at noBoundary

-- A choice is read through its sides, which are smaller, but a plain sequence
-- through itself: hence the second part of each measure.
mutual

/-- A piece is read back wherever no quantifier follows it. -/
theorem Piece.reads : (piece : Piece) → piece.WellShaped → piece.atom.isChoice = false →
    piece.boundaryCount = 0 → ∀ (scan : Scan) (rest : List Char), Quantifier.Absent rest →
    scan.unread = piece.write .escaped ++ rest →
    scan.Reads (scan.past (piece.write .escaped) rest piece.groupCount (scan.draft.add [piece]))
      piece.nesting
  | ⟨quantifier, .group id body⟩, shaped, _, noBoundary => by
      intro scan rest absent unreadEq
      simp only [Piece.WellShaped, Atom.WellShaped] at shaped
      obtain ⟨wellFormed, named, arranged, pieces⟩ := shaped
      simp only [Piece.boundaryCount, Atom.boundaryCount] at noBoundary
      apply Scan.reads_group named wellFormed unreadEq absent
      intro inner draftEq after afterAbsent innerEq
      have bodyReads := Sequence.reads body ⟨arranged, pieces⟩ noBoundary inner
        (by rw [draftEq]) after afterAbsent innerEq
      simpa [draftEq] using bodyReads
  | ⟨_, .literal _⟩, shaped, single, _ | ⟨_, .oneOf _⟩, shaped, single, _
  | ⟨_, .any⟩, shaped, single, _ | ⟨_, .backReference _⟩, shaped, single, _ => by
      intro scan rest absent unreadEq
      exact Scan.reads_leaf shaped (by simp) (by simp) single unreadEq absent
  | ⟨_, .boundary⟩, _, _, noBoundary => by
      simp [Piece.boundaryCount, Atom.boundaryCount] at noBoundary
  | ⟨_, .either _ _⟩, _, single, _ => by
      cases single
termination_by piece => (sizeOf piece, 0)

/-- Plain pieces are read back one after the other. -/
theorem Sequence.reads_plain : (sequence : Sequence) → Sequence.AllWellShaped sequence →
    Sequence.IsPlain sequence → Sequence.boundaryCount sequence = 0 →
    ∀ (scan : Scan) (rest : List Char), Quantifier.Absent rest →
    scan.unread = Sequence.write .escaped sequence ++ rest →
    scan.Reads (scan.past (Sequence.write .escaped sequence) rest
      (Sequence.groupCount sequence) (scan.draft.add sequence)) (Sequence.nesting sequence)
  | [], _, _, _ => by
      intro scan rest _ unreadEq
      have endEq : scan.past [] rest 0 (scan.draft.add []) = scan := by
        simp only [Sequence.write_nil, List.nil_append] at unreadEq
        rw [← unreadEq]
        rfl
      simpa [Sequence.groupCount, Sequence.nesting, endEq] using Scan.Reads.refl scan
  | piece :: more, shaped, plain, noBoundary => by
      intro scan rest absent unreadEq
      rw [Sequence.allWellShaped_cons] at shaped
      rw [Sequence.isPlain_cons] at plain
      simp only [Sequence.boundaryCount, Nat.add_eq_zero_iff] at noBoundary
      rw [Sequence.write_cons, List.append_assoc] at unreadEq
      have earlier := Piece.reads piece shaped.1 plain.1 noBoundary.1 scan
        (Sequence.write .escaped more ++ rest)
        (Sequence.absent_write_append shaped.2 plain.2 noBoundary.2 absent) unreadEq
      let between := scan.past (piece.write .escaped) (Sequence.write .escaped more ++ rest)
        piece.groupCount (scan.draft.add [piece])
      have later := Sequence.reads_plain more shaped.2 plain.2 noBoundary.2 between rest absent rfl
      have endEq : between.past (Sequence.write .escaped more) rest (Sequence.groupCount more)
            (between.draft.add more) =
          scan.past (Sequence.write .escaped (piece :: more)) rest
            (Sequence.groupCount (piece :: more)) (scan.draft.add (piece :: more)) := by
        simp only [between, Scan.past, Draft.add, Sequence.write_cons, Sequence.groupCount,
          List.length_append, List.reverse_cons, List.reverse_nil, List.nil_append,
          List.append_assoc, Nat.add_assoc]
      rw [endEq] at later
      rw [Sequence.nesting]
      exact earlier.trans later (Scan.depth_congr rfl rfl)
termination_by sequence => (sizeOf sequence, 0)

/-- A whole sequence is read back, and its alternatives hang on those before. -/
theorem Sequence.reads : (sequence : Sequence) → Sequence.WellShaped sequence →
    Sequence.boundaryCount sequence = 0 → ∀ scan : Scan, scan.draft.pieces = [] →
    ∀ rest : List Char, Quantifier.Absent rest →
    scan.unread = Sequence.write .escaped sequence ++ rest →
    ∃ draft : Draft, draft.finish = scan.draft.alternatives.foldl
        (fun right left => [⟨.once, .either left right⟩]) sequence ∧
      scan.Reads (scan.past (Sequence.write .escaped sequence) rest
        (Sequence.groupCount sequence) draft) (Sequence.nesting sequence)
  | sequence, ⟨.inl plain, pieces⟩, noBoundary => by
      intro scan noPieces rest absent unreadEq
      refine ⟨scan.draft.add sequence, ?_,
        Sequence.reads_plain sequence pieces plain noBoundary scan rest absent unreadEq⟩
      simp [Draft.finish, Draft.add, noPieces]
  | _, ⟨.inr ⟨left, right, rfl⟩, pieces⟩, noBoundary => by
      intro scan noPieces rest absent unreadEq
      rw [Sequence.allWellShaped_cons, Piece.WellShaped, Atom.WellShaped] at pieces
      obtain ⟨⟨_, leftPlain, leftPieces, rightArranged, rightPieces⟩, _⟩ := pieces
      simp only [Sequence.boundaryCount, Piece.boundaryCount, Atom.boundaryCount, Nat.add_zero,
        Nat.add_eq_zero_iff] at noBoundary
      have leftRead (after : List Char) (afterAbsent : Quantifier.Absent after) :=
        Sequence.reads_plain left leftPieces leftPlain noBoundary.1 scan after afterAbsent
      have rightReads (inner : Scan) (draftEq : inner.draft = (scan.draft.add left).split) :=
        Sequence.reads right ⟨rightArranged, rightPieces⟩ noBoundary.2 inner
          (by rw [draftEq]; rfl) rest absent
      obtain ⟨draft, finishEq, reads⟩ := Scan.reads_either unreadEq leftRead
        fun inner draftEq innerEq => rightReads inner draftEq innerEq
      refine ⟨draft, ?_, ?_⟩
      · rw [finishEq]
        simp [Draft.split, Draft.add, noPieces]
      · simpa [Sequence.groupCount, Piece.groupCount, Atom.groupCount, Sequence.nesting,
          Piece.nesting, Atom.nesting] using reads
termination_by sequence => (sizeOf sequence, 1)

end

/-- The demands on a tree that can be read from a text.  A boundary takes no text,
so no text of the tree could say where it stands. -/
structure Sequence.WellFormed (sequence : Sequence) : Prop
    extends Sequence.WellShaped sequence where
  noBoundary : Sequence.boundaryCount sequence = 0

/-- The text of a tree, written so that it can be read again. -/
def Sequence.render (sequence : Sequence) : String :=
  .ofList (Sequence.write .escaped sequence)

/-- A well-formed tree that does not nest too deep is read back from its text,
with the number of its groups, and one that does is refused for that. -/
theorem Pattern.parse_render {tree : Sequence} (wellFormed : Sequence.WellFormed tree)
    (options : LimitOptions) :
    (Sequence.nesting tree ≤ 128 →
      Pattern.parse options (Sequence.render tree) = .ok {
        pieces := tree
        groupCount := Sequence.groupCount tree
        limits := options.resolve }) ∧
      (128 < Sequence.nesting tree →
        ∃ pos, Pattern.parse options (Sequence.render tree) = .error ⟨pos, .tooDeep⟩) := by
  let start : Scan := { unread := (Sequence.render tree).toList }
  have unreadEq : start.unread = Sequence.write .escaped tree ++ [] := by
    simp [start, Sequence.render]
  obtain ⟨draft, finishEq, reads⟩ := Sequence.reads tree wellFormed.toWellShaped
    wellFormed.noBoundary start rfl [] Quantifier.absent_nil unreadEq
  have startDepth : start.depth = 0 := rfl
  have runReads := reads.run_eq
  have tooDeep := reads.tooDeep
  rw [startDepth, Nat.zero_add] at runReads tooDeep
  constructor
  · intro fits
    have ran : start.run = .ok (start.past (Sequence.write .escaped tree) []
        (Sequence.groupCount tree) draft) := by
      rw [runReads fits, Scan.run_of_unread_nil rfl]
    apply Pattern.parse_eq_ok_iff.mpr
    refine ⟨_, ran, rfl, ?_⟩
    simp [Scan.past, start, finishEq]
  · intro large
    obtain ⟨pos, ran⟩ := tooDeep (Nat.zero_le _) large
    refine ⟨pos, ?_⟩
    rw [Pattern.parse, ran]

/-- A tree with alternatives inside and outside a quantified group, where each
piece could take text from the next were it not escaped or closed. -/
theorem Pattern.parse_render_alternatives :
    let tree : Sequence := [⟨.once, .either
      [⟨.braces ⟨some 2, false, none⟩, .literal 'A'⟩, ⟨.once, .literal '?'⟩]
      [⟨.star, .group (some "n") [⟨.once, .either
        [⟨.plus, .oneOf ⟨true, [.range '^' '-', .single ']']⟩⟩]
        [⟨.braces ⟨some 1, true, some 3⟩, .backReference "n"⟩, ⟨.once, .literal '0'⟩]⟩]⟩]⟩]
    Sequence.WellFormed tree ∧ Sequence.nesting tree ≤ 128 ∧
      Sequence.render tree =
        "\\x41\x7b2\x7d\\?|(?<n>[^\\^-\\-\\]]+|\\k<n>\x7b1,3\x7d0)*" ∧
      Pattern.parse {} (Sequence.render tree) = .ok { pieces := tree, groupCount := 1 } := by
  intro tree
  have wellFormed : Sequence.WellFormed tree := ⟨by decide +kernel, by decide⟩
  have fits : Sequence.nesting tree ≤ 128 := by decide
  have rendered : Sequence.render tree =
      "\\x41\x7b2\x7d\\?|(?<n>[^\\^-\\-\\]]+|\\k<n>\x7b1,3\x7d0)*" := by
    decide +kernel
  exact ⟨wellFormed, fits, rendered, (Pattern.parse_render wellFormed {}).1 fits⟩

end PatternTree
