import Mathlib.Data.List.Nodup
import PatternTree.Proofs.Scan.Draft
import PatternTree.Proofs.Scan.Move
import PatternTree.Proofs.Tree.Groups

/-!
# The numbers of groups

A scan numbers groups as their parentheses come, and puts them into the tree as
they close.  `Pattern.groups_numbered` says that the numbers still follow the tree
in pre-order: the groups that have a parenthesis are as many as were counted, and
each has the number or name that its own parenthesis gives it.

A scan has the beginning of that list in view.  The groups of the outermost draft
come first, then the group that is open in it, then the groups inside that one.
`numbered_of_move` shows that a parenthesis adds to the end of the list, and that
closing a group leaves the list as it is.
-/

namespace PatternTree

namespace Sequence

theorem listing_groups : Listing groups [] where
  nil := groups_nil
  append := groups_append
  boundary := groups_leaf rfl
  either left right := groups_either .once left right

/-- The groups that are counted in a sequence have `ids`. -/
def Numbers (sequence : Sequence) (ids : List (Option String)) : Prop :=
  ∃ counted, Counted (groups sequence) counted ∧ counted.map Piece.groupId? = ids

theorem Numbers.congr {first second : Sequence} {ids : List (Option String)}
    (numbers : Numbers first ids) (same : groups second = groups first) : Numbers second ids := by
  rw [Numbers, same]
  exact numbers

end Sequence

/-- A piece that repeats an atom without groups counts none, even if it implies
one. -/
theorem Piece.numbers_of_leaf {atom : Atom} (leaf : atom.isLeaf = true) {pos length : Nat}
    {text : List Char} {piece : Piece} (found : Piece.read atom pos text = .ok ⟨piece, length⟩) :
    Sequence.Numbers [piece] [] := by
  cases Piece.eq_of_read found with
  | inl repeated =>
      obtain ⟨quantifier, rfl⟩ := repeated
      exact ⟨[], by rw [Sequence.groups_leaf leaf]; exact .nil, rfl⟩
  | inr implied =>
      obtain ⟨count, rfl⟩ := implied
      refine ⟨[], ?_, rfl⟩
      rw [optionalExactly, Sequence.groups_group, Sequence.groups_leaf leaf]
      exact .pass ⟨count, atom, rfl⟩ .nil

/-- A piece that repeats a group counts that group first. -/
theorem Piece.numbers_of_group {id : Option String} {body : Sequence}
    {ids : List (Option String)} (numbers : Sequence.Numbers body ids) {pos length : Nat}
    {text : List Char} {piece : Piece}
    (found : Piece.read (.group id body) pos text = .ok ⟨piece, length⟩) :
    Sequence.Numbers [piece] (id :: ids) := by
  obtain ⟨counted, holds, rfl⟩ := numbers
  cases Piece.eq_of_read found with
  | inl repeated =>
      obtain ⟨quantifier, rfl⟩ := repeated
      refine ⟨⟨quantifier, .group id body⟩ :: counted, ?_, rfl⟩
      rw [Sequence.groups_group]
      exact .count _ holds
  | inr implied =>
      obtain ⟨count, rfl⟩ := implied
      refine ⟨⟨.braces ⟨some count, false, none⟩, .group id body⟩ :: counted, ?_, rfl⟩
      rw [optionalExactly, Sequence.groups_group, Sequence.groups_group]
      exact .pass ⟨count, .group id body, rfl⟩ (.count _ holds)

theorem Draft.numbers_push {draft : Draft} {piece : Piece} {ids more : List (Option String)}
    (numbers : Sequence.Numbers draft.finish ids) (pieceNumbers : Sequence.Numbers [piece] more) :
    Sequence.Numbers (draft.push piece).finish (ids ++ more) := by
  obtain ⟨counted, holds, rfl⟩ := numbers
  obtain ⟨moreCounted, moreHolds, rfl⟩ := pieceNumbers
  refine ⟨counted ++ moreCounted, ?_, List.map_append⟩
  rw [Sequence.listing_groups.finish_push]
  exact holds.append moreHolds

namespace Scan

/-- While `text` is read, `count` groups are opened, and then comes the
parenthesis of one more, in front of `tail`. -/
def Opens (text : List Char) (count : Nat) (tail : List Char) : Prop :=
  ∃ scan : Scan, Relation.ReflTransGen Move { unread := text } scan ∧
    scan.groupCount = count ∧ scan.unread = '(' :: tail

/-- What stands after the parenthesis of the group that comes after `count` others
gives the group the number or name `id`. -/
def Gives (text : List Char) (count : Nat) (id : Option String) : Prop :=
  ∃ tail length, Opens text count tail ∧ Opening.Form (count + 1) tail id length

/-- The numbers and names of open groups and of the groups in the drafts around
them, in order. -/
inductive OuterNumbers : List OpenGroup → List (Option String) → Prop where
  | nil : OuterNumbers [] []
  | cons {group : OpenGroup} {enclosing : List OpenGroup} {before beside : List (Option String)}
      (outer : OuterNumbers enclosing before)
      (numbers : Sequence.Numbers group.outer.finish beside) :
      OuterNumbers (group :: enclosing) (before ++ beside ++ [group.id])

/-- The groups of a scan that has come this far through `text`, with as many
numbers and names as it has counted. -/
structure Numbered (text : List Char) (scan : Scan) : Prop where
  reached : Relation.ReflTransGen Move { unread := text } scan
  numbers : ∃ before inside, OuterNumbers scan.enclosing before ∧
    Sequence.Numbers scan.draft.finish inside ∧
    (before ++ inside).length = scan.groupCount ∧
    ∀ (count : Nat) id, (before ++ inside)[count]? = some id → Gives text count id

theorem numbered_of_move {text : List Char} {scan next : Scan} (numbered : scan.Numbered text)
    (move : Move scan next) : next.Numbered text := by
  obtain ⟨before, inside, outer, numbers, lengthEq, gives⟩ := numbered.numbers
  refine ⟨numbered.reached.tail move, ?_⟩
  cases move with
  | @openGroup tail id length unreadEq room opened =>
      refine ⟨before ++ inside ++ [id], [], .cons outer numbers, ?_, ?_, ?_⟩
      · exact ⟨[], by rw [Sequence.listing_groups.finish_empty]; exact .nil, rfl⟩
      · rw [List.append_nil, List.length_append, lengthEq]
        rfl
      · intro count other found
        rw [List.append_nil, List.getElem?_append] at found
        split at found
        · exact gives count other found
        · next notBefore =>
            obtain ⟨atEnd, rfl⟩ : count - scan.groupCount = 0 ∧ id = other := by
              simpa [lengthEq, List.getElem?_singleton] using found
            obtain rfl : count = scan.groupCount := by omega
            exact ⟨tail, length, ⟨scan, numbered.reached, rfl, unreadEq⟩,
              Opening.form_of_read opened⟩
  | openAlternative =>
      refine ⟨before, inside, outer, numbers.congr ?_, lengthEq, gives⟩
      rw [Sequence.listing_groups.finish_split, List.append_nil]
  | @closeGroup tail group enclosing piece length unreadEq enclosingEq pieceRead =>
      rw [enclosingEq] at outer
      cases outer with
      | @cons _ _ before beside outer besideNumbers =>
          have pieceNumbers := Piece.numbers_of_group numbers pieceRead
          have same : before ++ (beside ++ group.id :: inside) =
              before ++ beside ++ [group.id] ++ inside := by
            simp
          rw [← same] at lengthEq gives
          exact ⟨before, beside ++ group.id :: inside, outer,
            Draft.numbers_push besideNumbers pieceNumbers, lengthEq, gives⟩
  | takeAtom _ _ _ _ atomRead pieceRead =>
      have pieceNumbers := Piece.numbers_of_leaf (Atom.isLeaf_of_read atomRead) pieceRead
      have pushed := Draft.numbers_push numbers pieceNumbers
      rw [List.append_nil] at pushed
      exact ⟨before, inside, outer, pushed, lengthEq, gives⟩

/-! ## What the parentheses give -/

theorem Opens.suffix {text tail : List Char} {count : Nat} (opens : Opens text count tail) :
    '(' :: tail <:+ text := by
  obtain ⟨scan, reached, _, unreadEq⟩ := opens
  exact unreadEq ▸ unread_suffix_of_reached reached

/-- Where no group is given a name, all that a group can be called by is its number. -/
theorem Gives.eq_toString {text : List Char} {count : Nat} {id : String}
    (gives : Gives text count (some id)) (unnamed : ¬['(', '?', '<'] <:+: text) :
    id = toString (count + 1) := by
  obtain ⟨tail, length, opens, form⟩ := gives
  cases form with
  | @named name rest isName =>
      have opening : ['(', '?', '<'] <:+: '(' :: '?' :: '<' :: (name ++ '>' :: rest) :=
        ⟨[], name ++ '>' :: rest, by simp⟩
      exact absurd (opening.trans opens.suffix.isInfix) unnamed
  | numbered => rfl

/-- Where no group is given a kind, every group is called by its number. -/
theorem Gives.eq_some_toString {text : List Char} {count : Nat} {id : Option String}
    (gives : Gives text count id) (unmarked : ¬['(', '?'] <:+: text) :
    id = some (toString (count + 1)) := by
  obtain ⟨tail, length, opens, form⟩ := gives
  have not_marked {rest : List Char} (tailEq : tail = '?' :: rest) : False := by
    subst tailEq
    have opening : ['(', '?'] <:+: '(' :: '?' :: rest := ⟨[], rest, by simp⟩
    exact unmarked (opening.trans opens.suffix.isInfix)
  cases form with
  | unnamed => exact (not_marked rfl).elim
  | named => exact (not_marked rfl).elim
  | numbered => rfl

end Scan

/-! ## Numbers along a list -/

theorem toString_injective : Function.Injective (toString : Nat → String) := by
  intro first second same
  have digits : Nat.toDigits 10 first = Nat.toDigits 10 second := by
    have texts := congrArg String.toList same
    rwa [show (toString first).toList = Nat.toDigits 10 first from Nat.toList_repr,
      show (toString second).toList = Nat.toDigits 10 second from Nat.toList_repr] at texts
  have values := congrArg (Nat.ofDigitChars 10 · 0) digits
  simpa only [Nat.ofDigitChars_ten_toDigits] using values

/-- Numbers that the entries of a list have by their own places rise along it. -/
theorem exists_numbers {ids : List (Option String)} {start : Nat}
    (own : ∀ (index : Nat) (id : String), ids[index]? = some (some id) →
      id = toString (start + index)) :
    ∃ numbers : List Nat, numbers.Sublist (List.range' start ids.length) ∧
      ids.filterMap id = numbers.map toString := by
  induction ids generalizing start with
  | nil => exact ⟨[], List.nil_sublist _, rfl⟩
  | cons head rest ih =>
      have ownRest (index : Nat) (id : String) (found : rest[index]? = some (some id)) :
          id = toString (start + 1 + index) := by
        rw [Nat.add_right_comm]
        exact own (index + 1) id found
      obtain ⟨numbers, rising, restEq⟩ := ih ownRest
      rw [List.length_cons, List.range'_succ]
      cases head with
      | none => exact ⟨numbers, rising.cons start, restEq⟩
      | some id =>
          refine ⟨start :: numbers, rising.cons_cons start, ?_⟩
          have headEq : id = toString start := own 0 id rfl
          rw [List.map_cons, ← restEq, headEq]
          rfl

namespace Scan

variable {text : List Char} {ids : List (Option String)}

theorem exists_numbers_of_gives
    (gives : ∀ (count : Nat) id, ids[count]? = some id → Gives text count id)
    (unnamed : ¬['(', '?', '<'] <:+: text) :
    ∃ numbers : List Nat, numbers.Sublist (List.range' 1 ids.length) ∧
      ids.filterMap id = numbers.map toString := by
  apply exists_numbers
  intro count id found
  rw [Nat.add_comm]
  exact (gives count (some id) found).eq_toString unnamed

theorem filterMap_id_of_gives
    (gives : ∀ (count : Nat) id, ids[count]? = some id → Gives text count id)
    (unmarked : ¬['(', '?'] <:+: text) :
    ids.filterMap id = (List.range' 1 ids.length).map toString := by
  have all : ids = (List.range' 1 ids.length).map fun number => some (toString number) := by
    apply List.ext_getElem
    · rw [List.length_map, List.length_range']
    · intro count inside _
      rw [(gives count _ (List.getElem?_eq_getElem inside)).eq_some_toString unmarked]
      simp [Nat.add_comm]
  calc ids.filterMap id
      = ((List.range' 1 ids.length).map fun number => some (toString number)).filterMap id := by
        rw [← all]
    _ = (List.range' 1 ids.length).map toString := by
        rw [List.filterMap_map]
        exact congrFun List.filterMap_eq_map _

end Scan

namespace Pattern

/-- The groups of a pattern that have a parenthesis are as many as were counted,
and each has the number or name that its parenthesis gives.  Without names the
numbers rise in pre-order, and when all groups capture none is left out. -/
theorem groups_numbered {options : LimitOptions} {text : String} {pattern : Pattern}
    (parsed : parse options text = .ok pattern) :
    ∃ counted : List Piece, Counted (Sequence.groups pattern.pieces) counted ∧
      counted.length = pattern.groupCount ∧
      (∀ (index : Nat) piece, counted[index]? = some piece →
        Scan.Gives text.toList index piece.groupId?) ∧
      (¬['(', '?', '<'] <:+: text.toList →
        (∀ (index : Nat) piece, counted[index]? = some piece →
          ∀ id ∈ piece.groupId?, id = toString (index + 1)) ∧
        ∃ numbers : List Nat, Sequence.groupIds pattern.pieces = numbers.map toString ∧
          numbers.Pairwise (· < ·) ∧ (Sequence.groupIds pattern.pieces).Nodup ∧
          ∀ number ∈ numbers, 1 ≤ number ∧ number ≤ pattern.groupCount) ∧
      (¬['(', '?'] <:+: text.toList →
        Sequence.groupIds pattern.pieces =
          (List.range' 1 pattern.groupCount).map toString) := by
  obtain ⟨last, ran, closed, rfl⟩ := parse_eq_ok_iff.mp parsed
  have start : Scan.Numbered text.toList { unread := text.toList } :=
    ⟨.refl, [], [], .nil, ⟨[], .nil, rfl⟩, rfl, by simp⟩
  obtain ⟨⟨_, before, inside, outer, numbers, lengthEq, gives⟩, _⟩ :=
    Scan.invariant_of_run Scan.numbered_of_move start ran
  rw [closed] at outer
  cases outer
  obtain ⟨counted, holds, rfl⟩ := numbers
  rw [List.nil_append] at lengthEq gives
  simp only
  have idsEq : Sequence.groupIds last.draft.finish = (counted.map Piece.groupId?).filterMap id := by
    rw [Sequence.groupIds, holds.filterMap_groupId?, List.filterMap_map]
    rfl
  have countedGives (index : Nat) (piece : Piece) (found : counted[index]? = some piece) :
      Scan.Gives text.toList index piece.groupId? :=
    gives index _ (by rw [List.getElem?_map, found, Option.map_some])
  refine ⟨counted, holds, by simpa using lengthEq, countedGives, ?_, ?_⟩
  · intro unnamed
    obtain ⟨numbers, rising, numbersEq⟩ := Scan.exists_numbers_of_gives gives unnamed
    rw [lengthEq] at rising
    refine ⟨?_, numbers, idsEq.trans numbersEq, ?_, ?_, ?_⟩
    · intro index piece found id named
      have given := countedGives index piece found
      rw [Option.mem_def.mp named] at given
      exact given.eq_toString unnamed
    · exact List.Pairwise.sublist rising List.pairwise_lt_range'
    · rw [idsEq, numbersEq]
      exact List.Nodup.map toString_injective (rising.nodup List.nodup_range')
    · intro number member
      have bounds := List.mem_range'_1.mp (rising.subset member)
      omega
  · intro unmarked
    rw [idsEq, Scan.filterMap_id_of_gives gives unmarked, lengthEq]

/-- The implied group of the optional `b` is the third in the tree and is passed
over, so that the third parenthesis still belongs to the third group that is
counted, which captures nothing. -/
theorem groups_numbered_implied :
    let text := "(a|(b\x7b2\x7d?))(?:c)(?<n>d)"
    let pieces : Sequence := [
      ⟨.once, .group (some "1") [⟨.once, .either
        [⟨.once, .literal 'a'⟩]
        [⟨.once, .group (some "2") [
          ⟨.optional, .group none [⟨.braces ⟨some 2, false, none⟩, .literal 'b'⟩]⟩]⟩]⟩]⟩,
      ⟨.once, .group none [⟨.once, .literal 'c'⟩]⟩,
      ⟨.once, .group (some "n") [⟨.once, .literal 'd'⟩]⟩]
    parse {} text = .ok { pieces, groupCount := 4 } ∧
      ∃ counted : List Piece, Counted (Sequence.groups pieces) counted ∧ counted.length = 4 ∧
        ∀ (index : Nat) piece, counted[index]? = some piece →
          Scan.Gives text.toList index piece.groupId? := by
  intro text pieces
  have parsed : parse {} text = .ok { pieces, groupCount := 4 } := by
    decide +kernel
  obtain ⟨counted, holds, lengthEq, gives, _⟩ := groups_numbered parsed
  exact ⟨parsed, counted, holds, lengthEq, gives⟩

end Pattern

end PatternTree
