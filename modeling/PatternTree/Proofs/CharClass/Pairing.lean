import PatternTree.Proofs.CharClass.Writing

/-!
# Where a bracket expression ends

The end of a bracket expression can be found in two ways.  One pairs each backslash with the
character after it, from the left, and stops at the first closing bracket outside a pair:
`IsContent` says what may stand before that bracket.  The other looks back from each closing
bracket over the backslashes before it, as far as they go in the whole pattern, and asks whether
they are odd in number: `EndsAt` says where that finds the end.

Both find the same place, since a run of backslashes never reaches past the opening bracket.
So no backslash of the content is left without a partner when its members are resolved.
-/

namespace PatternTree.CharClass

/-! ## Pairs from the left -/

/-- A text in which each backslash has a partner, the character after it, and no closing bracket
stands outside a pair. -/
inductive Paired : List Char → Prop where
  | nil : Paired []
  | pair {rest : List Char} (partner : Char) (paired : Paired rest) :
      Paired ('\\' :: partner :: rest)
  | single {c : Char} {rest : List Char} (notBackslash : c ≠ '\\') (notBracket : c ≠ ']')
      (paired : Paired rest) : Paired (c :: rest)

/-- What stands between the brackets of an expression.  A closing bracket right after the
opening one is a member, so there is something at least. -/
inductive IsContent : List Char → Prop where
  | bracket {rest : List Char} (paired : Paired rest) : IsContent (']' :: rest)
  | paired {content : List Char} (paired : Paired content) (nonempty : content ≠ []) :
      IsContent content

/-- A text is read two characters at a time where a backslash begins it, and one by one
elsewhere. -/
@[elab_as_elim] theorem pairing_induction {motive : List Char → Prop} (nil : motive [])
    (alone : motive ['\\'])
    (pair : ∀ partner rest, motive rest → motive ('\\' :: partner :: rest))
    (single : ∀ c rest, c ≠ '\\' → motive rest → motive (c :: rest)) (text : List Char) :
    motive text := by
  induction text using Member.resolve.induct with
  | case1 => exact nil
  | case2 => exact alone
  | case3 partner rest ih => exact pair partner rest ih
  | case4 rest ih => exact single '-' rest (by decide) ih
  | case5 c rest notAlone notPair _ ih =>
      refine single c rest ?_ ih
      intro backslash
      cases rest with
      | nil => exact notAlone backslash rfl
      | cons partner more => exact notPair partner more backslash rfl

theorem Paired.isPassed {text : List Char} (paired : Paired text) : IsPassed text := by
  induction paired with
  | nil => exact .nil
  | pair partner _ ih => exact (isPassed_pair partner).append ih
  | single notBackslash notBracket _ ih =>
      exact (isPassed_singleton notBackslash notBracket).append ih

theorem Paired.lengthToClose?_append {content : List Char} (paired : Paired content)
    (rest : List Char) : lengthToClose? 0 (content ++ ']' :: rest) = some content.length := by
  rw [paired.isPassed]
  simp [lengthToClose?]

theorem exists_paired_of_lengthToClose? {text : List Char} {length : Nat}
    (found : lengthToClose? 0 text = some length) :
    ∃ content rest, Paired content ∧ text = content ++ ']' :: rest ∧ content.length = length := by
  induction text using pairing_induction generalizing length with
  | nil | alone => cases found
  | pair partner rest ih =>
      have passed := isPassed_pair partner rest
      rw [List.cons_append, List.singleton_append, found] at passed
      obtain ⟨inner, innerFound, rfl⟩ := Option.map_eq_some_iff.mp passed.symm
      obtain ⟨content, after, paired, rfl, rfl⟩ := ih innerFound
      exact ⟨'\\' :: partner :: content, after, .pair partner paired, rfl, by simp; omega⟩
  | single c rest notBackslash ih =>
      by_cases bracket : c = ']'
      · subst bracket
        cases found
        exact ⟨[], rest, .nil, rfl, rfl⟩
      · have passed := isPassed_singleton notBackslash bracket rest
        rw [List.singleton_append, found] at passed
        obtain ⟨inner, innerFound, rfl⟩ := Option.map_eq_some_iff.mp passed.symm
        obtain ⟨content, after, paired, rfl, rfl⟩ := ih innerFound
        exact ⟨c :: content, after, .single notBackslash bracket paired, rfl, by simp; omega⟩

/-- The content is what stands before the first closing bracket outside a pair. -/
theorem contentLength?_eq_some_iff {text : List Char} {length : Nat} :
    contentLength? text = some length ↔
      ∃ content rest, IsContent content ∧ text = content ++ ']' :: rest ∧
        content.length = length := by
  constructor
  · intro found
    unfold contentLength? at found
    split at found
    · obtain ⟨inner, innerFound, rfl⟩ := Option.map_eq_some_iff.mp found
      obtain ⟨content, rest, paired, rfl, rfl⟩ := exists_paired_of_lengthToClose? innerFound
      exact ⟨']' :: content, rest, .bracket paired, rfl, rfl⟩
    · next notFirst =>
        obtain ⟨content, rest, paired, rfl, rfl⟩ := exists_paired_of_lengthToClose? found
        refine ⟨content, rest, .paired paired ?_, rfl, rfl⟩
        rintro rfl
        exact notFirst rest rfl
  · rintro ⟨content, rest, isContent, rfl, rfl⟩
    cases isContent with
    | bracket paired => simp [contentLength?, paired.lengthToClose?_append]
    | paired paired nonempty =>
        have closed := paired.lengthToClose?_append rest
        cases paired with
        | nil => exact absurd rfl nonempty
        | pair => simpa [contentLength?] using closed
        | single _ notBracket _ =>
            unfold contentLength?
            split
            · next equal => exact absurd (List.cons.inj equal).1 notBracket
            · exact closed

/-! ## Runs from the right -/

/-- How many backslashes stand at the end of a text. -/
def trailingSlashes (text : List Char) : Nat :=
  (text.reverse.takeWhile (· == '\\')).length

/-- A closing bracket stands at a place of a text, and the backslashes just before it are even
in number. -/
structure Closes (text : List Char) (place : Nat) : Prop where
  bracket : text[place]? = some ']'
  even : trailingSlashes (text.take place) % 2 = 0

/-- The first place from `low` on where a bracket closes is `stop`. -/
structure ClosesFirst (text : List Char) (low stop : Nat) : Prop where
  low_le : low ≤ stop
  closes : Closes text stop
  first : ∀ place, low ≤ place → place < stop → ¬Closes text place

/-- The bracket expression that begins at `start` ends at `stop`: at the first bracket that
closes, if the character right after the opening one does not count. -/
def EndsAt (text : List Char) (start stop : Nat) : Prop :=
  ClosesFirst text (start + 2) stop

theorem trailingSlashes_concat (front : List Char) (c : Char) :
    trailingSlashes (front ++ [c]) = if c = '\\' then trailingSlashes front + 1 else 0 := by
  rw [trailingSlashes, List.reverse_concat, List.takeWhile_cons]
  by_cases backslash : c = '\\'
  · simp [backslash, trailingSlashes]
  · simp [backslash]

theorem closes_length_iff {front rest : List Char} {c : Char} :
    Closes (front ++ c :: rest) front.length ↔ c = ']' ∧ trailingSlashes front % 2 = 0 := by
  constructor
  · intro closes
    have bracket := closes.bracket
    have even := closes.even
    rw [List.take_left] at even
    exact ⟨by simpa using bracket, even⟩
  · rintro ⟨rfl, even⟩
    exact ⟨by simp, by rwa [List.take_left]⟩

/-- A place where no bracket closes can be left out of the search. -/
theorem closesFirst_succ_iff {text : List Char} {low stop : Nat} (notHere : ¬Closes text low) :
    ClosesFirst text (low + 1) stop ↔ ClosesFirst text low stop := by
  constructor
  · rintro ⟨low_le, closes, first⟩
    refine ⟨Nat.le_of_succ_le low_le, closes, ?_⟩
    intro place here before
    rcases Nat.eq_or_lt_of_le here with rfl | later
    · exact notHere
    · exact first place later before
  · rintro ⟨low_le, closes, first⟩
    have notLow : low ≠ stop := by
      rintro rfl
      exact notHere closes
    exact ⟨Nat.lt_of_le_of_ne low_le notLow, closes,
      fun place later before => first place (Nat.le_of_succ_le later) before⟩

/-- The search from the left counts the backslashes that a look back would find, so it stops at
the first bracket that closes. -/
theorem lengthToClose?_eq_some_iff {front text : List Char} {length : Nat} :
    lengthToClose? (trailingSlashes front) text = some length ↔
      ClosesFirst (front ++ text) front.length (front.length + length) := by
  induction text generalizing front length with
  | nil =>
      refine iff_of_false (by simp [lengthToClose?]) ?_
      intro closesFirst
      have inside := (List.getElem?_eq_some_iff.mp closesFirst.closes.bracket).1
      rw [List.append_nil] at inside
      omega
  | cons c rest ih =>
      by_cases closed : c = ']' ∧ trailingSlashes front % 2 = 0
      · have closes : Closes (front ++ c :: rest) front.length := closes_length_iff.mpr closed
        rw [lengthToClose?, if_pos closed, Option.some.injEq]
        constructor
        · rintro rfl
          refine ⟨Nat.le_refl _, closes, ?_⟩
          intro place low high
          omega
        · rintro ⟨_, _, first⟩
          rcases Nat.eq_zero_or_pos length with rfl | positive
          · rfl
          · exact absurd closes (first front.length (Nat.le_refl _) (by omega))
      · have notHere : ¬Closes (front ++ c :: rest) front.length := mt closes_length_iff.mp closed
        have moved : front ++ c :: rest = (front ++ [c]) ++ rest := by simp
        have movedLength : (front ++ [c]).length = front.length + 1 := by simp
        rw [lengthToClose?, if_neg closed, ← trailingSlashes_concat, Option.map_eq_some_iff,
          ← closesFirst_succ_iff notHere, moved, ← movedLength]
        constructor
        · rintro ⟨inner, found, rfl⟩
          rw [← Nat.add_assoc, Nat.add_right_comm, ← movedLength]
          exact ih.mp found
        · intro closesFirst
          have later := closesFirst.low_le
          rw [movedLength] at later
          refine ⟨length - 1, ih.mpr ?_, by omega⟩
          have stopEq : (front ++ [c]).length + (length - 1) = front.length + length := by omega
          rwa [stopEq]

/-- No backslash before the opening bracket counts, so the look back finds the end where the
search does. -/
theorem endsAt_iff_contentLength? {before text : List Char} {length : Nat} :
    EndsAt (before ++ '[' :: text) before.length (before.length + 1 + length) ↔
      contentLength? text = some length := by
  unfold EndsAt contentLength?
  split
  · next rest =>
      -- The search begins after the bracket that is a member.
      have noSlash : trailingSlashes (before ++ ['[', ']']) = 0 := by simp [trailingSlashes]
      have searched {inner : Nat} :
          lengthToClose? (trailingSlashes (before ++ ['[', ']'])) rest = some inner ↔ _ :=
        lengthToClose?_eq_some_iff
      rw [noSlash] at searched
      simp only [List.append_assoc, List.cons_append, List.nil_append, List.length_append,
        List.length_cons, List.length_nil, Nat.zero_add] at searched
      rw [Option.map_eq_some_iff]
      constructor
      · intro closesFirst
        have later := closesFirst.low_le
        refine ⟨length - 1, searched.mpr ?_, by omega⟩
        have stopEq : before.length + (1 + 1) + (length - 1) = before.length + 1 + length := by
          omega
        rwa [stopEq]
      · rintro ⟨inner, found, rfl⟩
        rw [Nat.add_comm inner, ← Nat.add_assoc]
        exact searched.mp found
  · next notFirst =>
      have noSlash : trailingSlashes (before ++ ['[']) = 0 := by simp [trailingSlashes]
      have searched :
          lengthToClose? (trailingSlashes (before ++ ['['])) text = some length ↔ _ :=
        lengthToClose?_eq_some_iff
      rw [noSlash] at searched
      simp only [List.append_assoc, List.cons_append, List.nil_append, List.length_append,
        List.length_cons, List.length_nil, Nat.zero_add] at searched
      have notHere : ¬Closes (before ++ '[' :: text) (before.length + 1) := by
        intro closes
        have headEq : text.head? = some ']' := by
          simpa [List.getElem?_append_right, List.head?_eq_getElem?] using closes.bracket
        obtain ⟨rest, rfl⟩ := List.head?_eq_some_iff.mp headEq
        exact notFirst rest rfl
      rw [searched, closesFirst_succ_iff notHere]

theorem endsAt_iff {before text : List Char} {stop : Nat} :
    EndsAt (before ++ '[' :: text) before.length stop ↔
      ∃ content rest, IsContent content ∧ text = content ++ ']' :: rest ∧
        stop = before.length + 1 + content.length := by
  constructor
  · intro endsAt
    have later : before.length + 2 ≤ stop := endsAt.low_le
    obtain ⟨length, rfl⟩ : ∃ length, stop = before.length + 1 + length :=
      ⟨stop - (before.length + 1), by omega⟩
    obtain ⟨content, rest, isContent, textEq, rfl⟩ :=
      contentLength?_eq_some_iff.mp (endsAt_iff_contentLength?.mp endsAt)
    exact ⟨content, rest, isContent, textEq, rfl⟩
  · rintro ⟨content, rest, isContent, textEq, rfl⟩
    exact endsAt_iff_contentLength?.mpr
      (contentLength?_eq_some_iff.mpr ⟨content, rest, isContent, textEq, rfl⟩)

/-! ## Members -/

namespace Member

/-- Resolve the escapes of a text, if no backslash is left without a partner. -/
def resolvePaired? : List Char → Option (List Member)
  | [] => some []
  | ['\\'] => none
  | '\\' :: key :: rest => (resolvePaired? rest).map (ofEscaped key :: ·)
  | '-' :: rest => (resolvePaired? rest).map (.dash :: ·)
  | c :: rest => (resolvePaired? rest).map (.literal c :: ·)

theorem resolvePaired?_cons {c : Char} {rest : List Char} (notBackslash : c ≠ '\\')
    (resolved : resolvePaired? rest = some (resolve rest)) :
    resolvePaired? (c :: rest) = some (resolve (c :: rest)) := by
  by_cases dash : c = '-'
  · subst dash
    simp [resolvePaired?, resolve, resolved]
  · simp [resolvePaired?, resolve, resolved, notBackslash]

theorem resolvePaired?_of_paired {text : List Char} (paired : Paired text) :
    resolvePaired? text = some (resolve text) := by
  induction paired with
  | nil => rfl
  | pair partner _ ih => simp [resolvePaired?, resolve, ih]
  | single notBackslash _ _ ih => exact resolvePaired?_cons notBackslash ih

end Member

/-- The content of a bracket expression without the sign that negates it. -/
def body : List Char → List Char
  | '^' :: rest => rest
  | content => content

theorem items_ofMembers (content : List Char) :
    (ofMembers content).items = Member.toItems (Member.resolve (body content)) := by
  cases content with
  | nil => rfl
  | cons c rest =>
      by_cases negation : c = '^'
      · rw [negation]
        rfl
      · simp [ofMembers, body, negation]

theorem IsContent.resolvePaired?_body {content : List Char} (isContent : IsContent content) :
    Member.resolvePaired? (body content) = some (Member.resolve (body content)) := by
  cases isContent with
  | bracket paired =>
      have resolved := Member.resolvePaired?_of_paired paired
      exact Member.resolvePaired?_cons (by decide) resolved
  | paired paired _ =>
      unfold body
      split
      · cases paired with
        | single _ _ restPaired => exact Member.resolvePaired?_of_paired restPaired
      · exact Member.resolvePaired?_of_paired paired

/-! ## Reading -/

variable {text : List Char}

theorem read_of_content {content rest : List Char} (isContent : IsContent content)
    (unnamed : startsNamedSet (content ++ ']' :: rest) = false) (pos : Nat) :
    read pos (content ++ ']' :: rest) = .ok ⟨ofMembers content, content.length + 1⟩ := by
  have closed := contentLength?_eq_some_iff.mpr ⟨content, rest, isContent, rfl, rfl⟩
  rw [read, if_neg (Bool.eq_false_iff.mp unnamed), closed]
  simp only [List.take_left]

theorem read_of_unclosed (unnamed : startsNamedSet text = false)
    (unclosed : ∀ content rest, IsContent content → text ≠ content ++ ']' :: rest) (pos : Nat) :
    read pos text = .error ⟨pos, .unterminatedClass⟩ := by
  have none : contentLength? text = none := by
    rw [Option.eq_none_iff_forall_ne_some]
    intro length closed
    obtain ⟨content, rest, isContent, textEq, _⟩ := contentLength?_eq_some_iff.mp closed
    exact unclosed content rest isContent textEq
  rw [read, if_neg (Bool.eq_false_iff.mp unnamed), none]

theorem read_cases (unnamed : startsNamedSet text = false) (pos : Nat) :
    (∃ content rest, IsContent content ∧ text = content ++ ']' :: rest ∧
      read pos text = .ok ⟨ofMembers content, content.length + 1⟩) ∨
    ((∀ content rest, IsContent content → text ≠ content ++ ']' :: rest) ∧
      read pos text = .error ⟨pos, .unterminatedClass⟩) := by
  by_cases closed : ∃ content rest, IsContent content ∧ text = content ++ ']' :: rest
  · obtain ⟨content, rest, isContent, rfl⟩ := closed
    exact .inl ⟨content, rest, isContent, rfl, read_of_content isContent unnamed pos⟩
  · have unclosed : ∀ content rest, IsContent content → text ≠ content ++ ']' :: rest :=
      fun content rest isContent textEq => closed ⟨content, rest, isContent, textEq⟩
    exact .inr ⟨unclosed, read_of_unclosed unnamed unclosed pos⟩

/-- A bracket expression that is not taken for a named set ends at the first closing bracket
outside a pair, and its class is that of the characters before it; without such a bracket it is
refused.  The first closing bracket with an even run of backslashes before it, as far as they
go in the whole pattern, is the same.  So a reading of the members that gives up at a backslash
without a partner never does. -/
theorem read_follows_pairing (before text : List Char) (unnamed : startsNamedSet text = false) :
    (∀ cls length, read before.length text = .ok ⟨cls, length⟩ ↔
      ∃ content rest, IsContent content ∧ text = content ++ ']' :: rest ∧
        cls = ofMembers content ∧ length = content.length + 1) ∧
    (∀ error, read before.length text = .error error ↔
      error = ⟨before.length, .unterminatedClass⟩ ∧
        ∀ content rest, IsContent content → text ≠ content ++ ']' :: rest) ∧
    (∀ stop, EndsAt (before ++ '[' :: text) before.length stop ↔
      ∃ content rest, IsContent content ∧ text = content ++ ']' :: rest ∧
        stop = before.length + 1 + content.length) ∧
    ∀ content, IsContent content → ∃ members,
      Member.resolvePaired? (body content) = some members ∧
        (ofMembers content).items = Member.toItems members := by
  refine ⟨?_, ?_, fun _ => endsAt_iff, ?_⟩
  · intro cls length
    constructor
    · intro found
      rcases read_cases unnamed before.length with
        ⟨content, rest, isContent, textEq, read⟩ | ⟨_, refused⟩
      · rw [read] at found
        cases found
        exact ⟨content, rest, isContent, textEq, rfl, rfl⟩
      · rw [refused] at found
        cases found
    · rintro ⟨content, rest, isContent, rfl, rfl, rfl⟩
      exact read_of_content isContent unnamed before.length
  · intro error
    constructor
    · intro failed
      rcases read_cases unnamed before.length with
        ⟨content, rest, isContent, textEq, read⟩ | ⟨unclosed, refused⟩
      · rw [read] at failed
        cases failed
      · rw [refused] at failed
        cases failed
        exact ⟨rfl, unclosed⟩
    · rintro ⟨rfl, unclosed⟩
      exact read_of_unclosed unnamed unclosed before.length
  · intro content isContent
    exact ⟨_, isContent.resolvePaired?_body, items_ofMembers content⟩

/-- The backslash before the expression is none of its own, and the one inside is the partner
of the bracket after it. -/
theorem read_follows_pairing_escaped :
    startsNamedSet ['\\', ']', '-', ']', 'z'] = false ∧
      read 1 ['\\', ']', '-', ']', 'z'] = .ok ⟨{ items := [.single ']', .single '-'] }, 4⟩ ∧
      EndsAt ['\\', '[', '\\', ']', '-', ']', 'z'] 1 5 := by
  have isContent : IsContent ['\\', ']', '-'] :=
    .paired (.pair ']' (.single (by decide) (by decide) .nil)) (by decide)
  have unnamed : startsNamedSet ['\\', ']', '-', ']', 'z'] = false := by decide
  obtain ⟨read_iff, _, endsAt_iff, _⟩ := read_follows_pairing ['\\'] _ unnamed
  exact ⟨unnamed, (read_iff _ _).mpr ⟨_, ['z'], isContent, rfl, by decide, rfl⟩,
    (endsAt_iff 5).mpr ⟨_, ['z'], isContent, rfl, rfl⟩⟩

end PatternTree.CharClass
