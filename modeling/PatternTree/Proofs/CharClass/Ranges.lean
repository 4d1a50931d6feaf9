import PatternTree.Proofs.CharClass.Pairing

/-!
# How members form ranges

The members of a bracket expression are what its text says once escapes are resolved, and
`Member.Resolved` lists the forms that they are written in.  Items are formed of them from the
left, in blocks: a literal, a dash and a literal make one block, the range between the two, and
any other member is a block by itself.

`IsGrouped` says which dashes make ranges, by their places: each that stands between two
literals, if the literal before it does not end an earlier range.  `ofMembers_groups_members`
shows that the items of every class are formed that way, and that no character is lost, added or
moved.
-/

namespace PatternTree.CharClass

/-! ## Members and their text -/

namespace Member

/-- The members that a text stands for. -/
inductive Resolved : List Char → List Member → Prop where
  | nil : Resolved [] []
  /-- A backslash at the end has nothing to escape. -/
  | alone : Resolved ['\\'] [.literal '\\']
  | named {key c : Char} {text : List Char} {members : List Member}
      (known : shorthand? key = some [.single c]) (rest : Resolved text members) :
      Resolved ('\\' :: key :: text) (.literal c :: members)
  | set {key : Char} {items : List Item} {text : List Char} {members : List Member}
      (known : shorthand? key = some items) (notSingle : ∀ c, items ≠ [.single c])
      (rest : Resolved text members) : Resolved ('\\' :: key :: text) (.set items :: members)
  | escaped {key : Char} {text : List Char} {members : List Member}
      (unknown : shorthand? key = none) (rest : Resolved text members) :
      Resolved ('\\' :: key :: text) (.literal key :: members)
  | dash {text : List Char} {members : List Member} (rest : Resolved text members) :
      Resolved ('-' :: text) (.dash :: members)
  | literal {c : Char} {text : List Char} {members : List Member} (notBackslash : c ≠ '\\')
      (notDash : c ≠ '-') (rest : Resolved text members) :
      Resolved (c :: text) (.literal c :: members)

theorem ofEscaped_of_named {key c : Char} (known : shorthand? key = some [.single c]) :
    ofEscaped key = .literal c := by
  simp only [ofEscaped, known]

theorem ofEscaped_of_set {key : Char} {items : List Item} (known : shorthand? key = some items)
    (notSingle : ∀ c, items ≠ [.single c]) : ofEscaped key = .set items := by
  unfold ofEscaped
  split
  · next c single =>
      rw [known, Option.some.injEq] at single
      exact absurd single (notSingle c)
  · next found =>
      rw [known, Option.some.injEq] at found
      rw [found]
  · next unknown => simp [known] at unknown

theorem ofEscaped_of_unknown {key : Char} (unknown : shorthand? key = none) :
    ofEscaped key = .literal key := by
  simp only [ofEscaped, unknown]

theorem resolve_cons_literal {c : Char} (notBackslash : c ≠ '\\') (notDash : c ≠ '-')
    (text : List Char) : resolve (c :: text) = .literal c :: resolve text := by
  simp [resolve, notBackslash]

theorem Resolved.pair {key : Char} {text : List Char} {members : List Member}
    (rest : Resolved text members) : Resolved ('\\' :: key :: text) (ofEscaped key :: members) := by
  unfold ofEscaped
  split
  · next known => exact .named known rest
  · next notSingle known => exact .set known notSingle rest
  · next unknown => exact .escaped unknown rest

theorem resolved_resolve (text : List Char) : Resolved text (resolve text) := by
  induction text using pairing_induction with
  | nil => exact .nil
  | alone => exact .alone
  | pair key rest ih => exact ih.pair
  | single c rest notBackslash ih =>
      by_cases dash : c = '-'
      · subst dash
        exact .dash ih
      · rw [resolve_cons_literal notBackslash dash]
        exact .literal notBackslash dash ih

theorem Resolved.eq_resolve {text : List Char} {members : List Member}
    (resolved : Resolved text members) : members = resolve text := by
  induction resolved with
  | nil | alone => rfl
  | named known _ ih => rw [resolve, ofEscaped_of_named known, ih]
  | set known notSingle _ ih => rw [resolve, ofEscaped_of_set known notSingle, ih]
  | escaped unknown _ ih => rw [resolve, ofEscaped_of_unknown unknown, ih]
  | dash _ ih => rw [resolve, ih]
  | literal notBackslash notDash _ ih => rw [resolve_cons_literal notBackslash notDash, ih]

/-- A text stands for one list of members and no other. -/
theorem resolved_iff {text : List Char} {members : List Member} :
    Resolved text members ↔ members = resolve text := by
  constructor
  · exact Resolved.eq_resolve
  · intro equal
    rw [equal]
    exact resolved_resolve text

end Member

/-- An item in the characters that name it. -/
def Item.spelled : Item → List Char
  | .single c => [c]
  | .range first last => [first, '-', last]

/-- A member in the characters that it brings with it. -/
def Member.spelled : Member → List Char
  | .literal c => [c]
  | .dash => ['-']
  | .set items => items.flatMap Item.spelled

/-! ## Blocks of members -/

/-- Members that form items together. -/
inductive Block where
  | one (member : Member)
  | range (first last : Char)
  deriving DecidableEq, Repr

namespace Block

/-- The members of a block. -/
def members : Block → List Member
  | .one member => [member]
  | .range first last => [.literal first, .dash, .literal last]

/-- The items that a block forms. -/
def items : Block → List Item
  | .one (.literal c) => [.single c]
  | .one .dash => [.single '-']
  | .one (.set items) => items
  | .range first last => [.range first last]

theorem spelled_items (block : Block) :
    block.items.flatMap Item.spelled = block.members.flatMap Member.spelled := by
  cases block with
  | range first last => rfl
  | one member => cases member <;> simp [items, members, Item.spelled, Member.spelled]

end Block

/-- The blocks of a list of members, from the left. -/
def Member.toBlocks : List Member → List Block
  | .literal first :: .dash :: .literal last :: rest => .range first last :: toBlocks rest
  | member :: rest => .one member :: toBlocks rest
  | [] => []

/-- The members at the front make a range. -/
def Member.BeginsRange (members : List Member) : Prop :=
  ∃ first last rest, members = .literal first :: .dash :: .literal last :: rest

/-! ## Places -/

namespace Block

/-- A block stands in a list of blocks, with so many members before it. -/
def StandsAt (blocks : List Block) (place : Nat) (block : Block) : Prop :=
  ∃ before after, blocks = before ++ block :: after ∧
    (before.flatMap Block.members).length = place

/-- A range of the blocks has its last literal at a place. -/
def EndsRange (blocks : List Block) (place : Nat) : Prop :=
  ∃ start first last, StandsAt blocks start (.range first last) ∧ place = start + 2

variable {block found : Block} {blocks : List Block} {place : Nat}

theorem not_standsAt_nil : ¬StandsAt [] place found := by
  rintro ⟨before, after, equal, _⟩
  simp at equal

theorem standsAt_cons : StandsAt (block :: blocks) place found ↔
    (found = block ∧ place = 0) ∨
      ∃ inner, StandsAt blocks inner found ∧ place = block.members.length + inner := by
  constructor
  · rintro ⟨_ | ⟨first, before⟩, after, equal, rfl⟩
    · obtain ⟨rfl, rfl⟩ := List.cons.inj equal
      exact .inl ⟨rfl, rfl⟩
    · obtain ⟨rfl, rfl⟩ := List.cons.inj equal
      exact .inr ⟨_, ⟨before, after, rfl, rfl⟩, by simp⟩
  · rintro (⟨rfl, rfl⟩ | ⟨inner, ⟨before, after, rfl, rfl⟩, rfl⟩)
    · exact ⟨[], blocks, rfl, rfl⟩
    · exact ⟨block :: before, after, rfl, by simp⟩

theorem standsAt_front : StandsAt (block :: blocks) 0 block :=
  ⟨[], blocks, rfl, rfl⟩

theorem length_members_pos (block : Block) : 0 < block.members.length := by
  cases block <;> simp [members]

/-- What stands behind the first block stands in the other blocks. -/
theorem standsAt_behind :
    StandsAt (block :: blocks) (block.members.length + place) found ↔
      StandsAt blocks place found := by
  have positive := block.length_members_pos
  rw [standsAt_cons]
  constructor
  · rintro (⟨_, atStart⟩ | ⟨inner, standsAt, placeEq⟩)
    · omega
    · rwa [Nat.add_left_cancel placeEq]
  · intro standsAt
    exact .inr ⟨place, standsAt, rfl⟩

theorem standsAt_inside (inside : place < block.members.length) :
    StandsAt (block :: blocks) place found ↔ found = block ∧ place = 0 := by
  rw [standsAt_cons]
  apply or_iff_left
  rintro ⟨inner, _, rfl⟩
  omega

/-- A range that ends behind the first block is one of the other blocks. -/
theorem endsRange_behind :
    EndsRange (block :: blocks) (block.members.length + place) ↔ EndsRange blocks place := by
  constructor
  · rintro ⟨start, first, last, standsAt, endEq⟩
    rcases standsAt_cons.mp standsAt with ⟨rfl, rfl⟩ | ⟨inner, standsInner, rfl⟩
    · simp only [members, List.length_cons, List.length_nil] at endEq
      omega
    · exact ⟨inner, first, last, standsInner, by omega⟩
  · rintro ⟨start, first, last, standsAt, rfl⟩
    exact ⟨_, first, last, standsAt_behind.mpr standsAt, by omega⟩

end Block

open Block

/-- A literal, a dash and a literal stand at a place, and the first of them does not end a range
of the blocks. -/
structure JoinsAt (members : List Member) (blocks : List Block) (place : Nat)
    (first last : Char) : Prop where
  first_eq : members[place]? = some (.literal first)
  dash_eq : members[place + 1]? = some .dash
  last_eq : members[place + 2]? = some (.literal last)
  first_free : ¬EndsRange blocks place

variable {members rest : List Member} {blocks : List Block} {place : Nat} {first last : Char}

theorem joinsAt_behind (block : Block) :
    JoinsAt (block.members ++ rest) (block :: blocks) (block.members.length + place) first last ↔
      JoinsAt rest blocks place first last := by
  have shifted (offset : Nat) : (block.members ++ rest)[block.members.length + place + offset]? =
      rest[place + offset]? := by
    rw [Nat.add_assoc, List.getElem?_append_right (Nat.le_add_right _ _), Nat.add_sub_cancel_left]
  constructor
  · rintro ⟨firstEq, dashEq, lastEq, free⟩
    exact ⟨shifted 0 ▸ firstEq, shifted 1 ▸ dashEq, shifted 2 ▸ lastEq,
      mt endsRange_behind.mpr free⟩
  · rintro ⟨firstEq, dashEq, lastEq, free⟩
    exact ⟨(shifted 0).trans firstEq, (shifted 1).trans dashEq, (shifted 2).trans lastEq,
      mt endsRange_behind.mp free⟩

theorem not_endsRange_zero : ¬EndsRange blocks 0 := by
  rintro ⟨start, _, _, _, placeEq⟩
  omega

/-- Inside a range only its own literals are joined. -/
theorem joinsAt_inside_range {low high : Char} (inside : place < 3) :
    JoinsAt (.literal low :: .dash :: .literal high :: rest) (.range low high :: blocks) place
        first last ↔
      Block.range first last = .range low high ∧ place = 0 := by
  constructor
  · intro joins
    -- At the dash no literal stands, and the literal after it ends this range.
    rcases place with _ | _ | _ | place
    · have firstEq : low = first := by simpa using joins.first_eq
      have lastEq : high = last := by simpa using joins.last_eq
      exact ⟨by rw [firstEq, lastEq], rfl⟩
    · have dashFirst := joins.first_eq
      simp at dashFirst
    · have ends : EndsRange (.range low high :: blocks) 2 :=
        ⟨0, low, high, standsAt_front, rfl⟩
      exact absurd ends joins.first_free
    · omega
  · rintro ⟨equal, rfl⟩
    cases equal
    exact ⟨rfl, rfl, rfl, not_endsRange_zero⟩

namespace Member

/-- Members are taken block by block. -/
@[elab_as_elim] theorem blocks_induction {motive : List Member → Prop} (nil : motive [])
    (range : ∀ first last rest, motive rest →
      motive (.literal first :: .dash :: .literal last :: rest))
    (one : ∀ member rest, ¬BeginsRange (member :: rest) → motive rest → motive (member :: rest))
    (members : List Member) : motive members := by
  induction members using toBlocks.induct with
  | case1 first last rest ih => exact range first last rest ih
  | case2 member rest notRange ih =>
      apply one member rest _ ih
      rintro ⟨first, last, more, equal⟩
      obtain ⟨rfl, rfl⟩ := List.cons.inj equal
      exact notRange first last more rfl rfl
  | case3 => exact nil

theorem toBlocks_cons {member : Member} (notRange : ¬BeginsRange (member :: rest)) :
    toBlocks (member :: rest) = .one member :: toBlocks rest := by
  rw [toBlocks]
  rintro first last more rfl rfl
  exact notRange ⟨first, last, more, rfl⟩

theorem flatMap_members_toBlocks (members : List Member) :
    (toBlocks members).flatMap Block.members = members := by
  induction members using blocks_induction with
  | nil => rfl
  | range first last rest ih => simp [toBlocks, Block.members, ih]
  | one member rest notRange ih => simp [toBlocks_cons notRange, Block.members, ih]

/-- The items of a bracket expression are those of its blocks. -/
theorem flatMap_items_toBlocks (members : List Member) :
    (toBlocks members).flatMap Block.items = toItems members := by
  induction members using blocks_induction with
  | nil => rfl
  | range first last rest ih => simp [toBlocks, toItems, Block.items, ih]
  | one member rest notRange ih =>
      rw [toBlocks_cons notRange, List.flatMap_cons, ih]
      cases member with
      | dash | set => rfl
      | literal c =>
          rw [toItems]
          · rfl
          · rintro last more rfl
            exact notRange ⟨c, last, more, rfl⟩

/-- No character is lost, added or moved when members become items. -/
theorem spelled_toItems (members : List Member) :
    (toItems members).flatMap Item.spelled = members.flatMap Member.spelled := by
  rw [← flatMap_items_toBlocks]
  conv => rhs; rw [← flatMap_members_toBlocks members]
  rw [List.flatMap_assoc, List.flatMap_assoc]
  congr 1
  funext block
  exact block.spelled_items

/-- Members that begin no range are not joined at their front. -/
theorem not_joinsAt_zero (notRange : ¬BeginsRange members) :
    ¬JoinsAt members blocks 0 first last := by
  rintro ⟨firstEq, dashEq, lastEq, _⟩
  rcases members with _ | ⟨front, _ | ⟨second, _ | ⟨third, rest⟩⟩⟩
  · simp at firstEq
  · simp at dashEq
  · simp at lastEq
  · simp only [List.getElem?_cons_zero, List.getElem?_cons_succ, Option.some.injEq]
      at firstEq dashEq lastEq
    exact notRange ⟨first, last, rest, by rw [firstEq, dashEq, lastEq]⟩

/-- A range stands exactly where members are joined. -/
theorem standsAt_range_iff :
    StandsAt (toBlocks members) place (.range first last) ↔
      JoinsAt members (toBlocks members) place first last := by
  induction members using blocks_induction generalizing place with
  | nil =>
      refine iff_of_false not_standsAt_nil ?_
      intro joins
      have none := joins.first_eq
      simp at none
  | range low high rest ih =>
      by_cases inside : place < 3
      · exact (standsAt_inside inside).trans (joinsAt_inside_range inside).symm
      · obtain ⟨inner, rfl⟩ := Nat.exists_eq_add_of_le (Nat.le_of_not_lt inside)
        exact standsAt_behind.trans (ih.trans (joinsAt_behind (.range low high)).symm)
  | one member rest notRange ih =>
      rw [toBlocks_cons notRange]
      cases place with
      | zero =>
          refine iff_of_false ?_ (not_joinsAt_zero notRange)
          simp [standsAt_inside, Block.members]
      | succ inner =>
          rw [Nat.add_comm]
          exact standsAt_behind.trans (ih.trans (joinsAt_behind (.one member)).symm)

end Member

namespace Block

/-- Every member of the blocks is in one of them. -/
theorem exists_standsAt {blocks : List Block} {place : Nat} {member : Member}
    (here : (blocks.flatMap Block.members)[place]? = some member) :
    ∃ start offset block, StandsAt blocks start block ∧ place = start + offset ∧
      block.members[offset]? = some member := by
  induction blocks generalizing place with
  | nil => simp at here
  | cons block blocks ih =>
      rw [List.flatMap_cons] at here
      by_cases inside : place < block.members.length
      · rw [List.getElem?_append_left inside] at here
        exact ⟨0, place, block, standsAt_front, (Nat.zero_add place).symm, here⟩
      · obtain ⟨inner, rfl⟩ := Nat.exists_eq_add_of_le (Nat.le_of_not_lt inside)
        rw [List.getElem?_append_right (Nat.le_add_right _ _), Nat.add_sub_cancel_left] at here
        obtain ⟨start, offset, other, standsAt, rfl, inOther⟩ := ih here
        exact ⟨_, offset, other, standsAt_behind.mpr standsAt, (Nat.add_assoc _ _ _).symm, inOther⟩

theorem getElem?_members_one {member found : Member} {offset : Nat} :
    (one member).members[offset]? = some found ↔ offset = 0 ∧ member = found := by
  simp only [members, List.getElem?_singleton, Option.ite_none_right_eq_some, Option.some.injEq]

/-- A dash is a block by itself or the second member of a range. -/
theorem eq_one_or_range_of_dash {block : Block} {offset : Nat}
    (inBlock : block.members[offset]? = some .dash) :
    (block = .one .dash ∧ offset = 0) ∨ ∃ first last, block = .range first last ∧ offset = 1 := by
  cases block with
  | one member =>
      obtain ⟨atFront, rfl⟩ := getElem?_members_one.mp inBlock
      exact .inl ⟨rfl, atFront⟩
  | range first last =>
      rcases offset with _ | _ | _ | offset
      · simp [members] at inBlock
      · exact .inr ⟨first, last, rfl, rfl⟩
      · simp [members] at inBlock
      · simp [members] at inBlock

theorem eq_one_of_set {block : Block} {offset : Nat} {items : List Item}
    (inBlock : block.members[offset]? = some (.set items)) :
    block = .one (.set items) ∧ offset = 0 := by
  cases block with
  | one member =>
      obtain ⟨atFront, rfl⟩ := getElem?_members_one.mp inBlock
      exact ⟨rfl, atFront⟩
  | range first last =>
      rcases offset with _ | _ | _ | offset <;> simp [members] at inBlock

end Block

/-- The blocks are the members in groups, with a range for every dash that makes one. -/
structure IsGrouped (members : List Member) (blocks : List Block) : Prop where
  /-- Each member is in one block, and they keep their order. -/
  members_eq : members = blocks.flatMap Block.members
  /-- A dash between two literals makes them a range, unless the first ends one already. -/
  range_iff : ∀ place first last,
    StandsAt blocks place (.range first last) ↔ JoinsAt members blocks place first last
  /-- A dash that is not in the middle of a range is a block by itself. -/
  dash_alone : ∀ place, members[place]? = some .dash →
    (∃ start first last, place = start + 1 ∧ StandsAt blocks start (.range first last)) ∨
      StandsAt blocks place (.one .dash)
  set_alone : ∀ place items, members[place]? = some (.set items) →
    StandsAt blocks place (.one (.set items))

theorem isGrouped_toBlocks (members : List Member) :
    IsGrouped members (Member.toBlocks members) where
  members_eq := (Member.flatMap_members_toBlocks members).symm
  range_iff := fun _ _ _ => Member.standsAt_range_iff
  dash_alone := by
    intro place here
    rw [← Member.flatMap_members_toBlocks members] at here
    obtain ⟨start, offset, block, standsAt, rfl, inBlock⟩ := exists_standsAt here
    rcases eq_one_or_range_of_dash inBlock with ⟨rfl, rfl⟩ | ⟨first, last, rfl, rfl⟩
    · exact .inr standsAt
    · exact .inl ⟨start, first, last, rfl, standsAt⟩
  set_alone := by
    intro place items here
    rw [← Member.flatMap_members_toBlocks members] at here
    obtain ⟨start, offset, block, standsAt, rfl, inBlock⟩ := exists_standsAt here
    obtain ⟨rfl, rfl⟩ := eq_one_of_set inBlock
    exact standsAt

theorem negated_ofMembers (text : List Char) :
    (ofMembers text).negated = true ↔ text.head? = some '^' := by
  unfold ofMembers
  split
  · simp
  · next notNegation =>
      refine iff_of_false (by simp) ?_
      intro headEq
      obtain ⟨rest, rfl⟩ := List.head?_eq_some_iff.mp headEq
      exact notNegation rest rfl

/-- The items of a class are formed of the members of its text: block by block, with a range for
each dash between two literals of which the first does not end a range already.  Every other
dash is the item of that character, every set gives its items as they are, and all characters
that the members bring are those of the items, in the same order. -/
theorem ofMembers_groups_members (text : List Char) :
    ((ofMembers text).negated = true ↔ text.head? = some '^') ∧
      ∃ members blocks,
        (∀ resolved, Member.Resolved (body text) resolved ↔ resolved = members) ∧
        IsGrouped members blocks ∧
        (ofMembers text).items = blocks.flatMap Block.items ∧
        (ofMembers text).items.flatMap Item.spelled = members.flatMap Member.spelled := by
  refine ⟨negated_ofMembers text, _, _, fun _ => Member.resolved_iff, isGrouped_toBlocks _, ?_, ?_⟩
  · rw [items_ofMembers, Member.flatMap_items_toBlocks]
  · rw [items_ofMembers, Member.spelled_toItems]

/-- The second dash follows the end of a range, and the last one a set. -/
example : (ofMembers "a-c-e-g\\d-z".toList).items =
    [.range 'a' 'c', .single '-', .range 'e' 'g', .range '0' '9', .single '-', .single 'z'] := by
  decide

end PatternTree.CharClass
