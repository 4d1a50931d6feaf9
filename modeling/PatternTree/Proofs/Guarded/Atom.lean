import PatternTree.Opening
import PatternTree.Proofs.Guarded.CharClass
import PatternTree.Proofs.Guarded.Escape
import PatternTree.Tree.Reader

/-!
# Atoms under guard

An atom that holds no sequence is read at a position, and the position moves to its last character.
What opens a group is read in the same way, and the position moves to the body.  `Guarded.leaf` and
`Guarded.opening` do so under guard, and come to what `Atom.read` and `Opening.read` come to.
-/

namespace PatternTree.Guarded

/-- Read the escape whose backslash stands at `start`. -/
def escape (text : List Char) (start : Nat) : Guarded (Atom × Nat) := do
  let pos ← advance text start 1
  if text[pos]? = none then .error (.refusal ⟨start, .trailingBackslash⟩)
  else
    let rest ← slice text pos text.length
    let span ← decode rest pos (pos + 1 == text.length)
    let stop ← advance text pos span.length
    pure (span.value, stop)

/-- Read the atom that begins with `c` at `pos` and holds no sequence.  The position is that of its
last character. -/
def leaf (text : List Char) (pos : Nat) (c : Char) : Guarded (Atom × Nat) :=
  match c with
  | '.' => pure (.any, pos)
  | '[' => do
      let (cls, stop) ← readClass text pos
      pure (.oneOf cls, stop)
  | '\\' => escape text pos
  | _ =>
      match Anchor.ofChar? c with
      | some anchor => do
          let atom ← lift (anchor.atom pos (pos == 0) (pos + 1 == text.length))
          pure (atom, pos)
      | none => pure (.literal c, pos)

/-- Read what stands between the parenthesis at `start` and the body of its group.  The position is
that of the body. -/
def opening (text : List Char) (start number : Nat) : Guarded (Option String × Nat) := do
  let pos ← advance text start 1
  let rest ← slice text pos text.length
  match rest with
  | '?' :: ':' :: _ => do
      let body ← advance text pos 2
      pure (none, body)
  | '?' :: '=' :: _ | '?' :: '!' :: _ => .error (.refusal ⟨pos, .lookahead⟩)
  | '?' :: '<' :: '=' :: _ | '?' :: '<' :: '!' :: _ => .error (.refusal ⟨pos, .lookbehind⟩)
  | '?' :: '<' :: tail =>
      match Text.enclosed? '>' tail with
      | some found => do
          let name ← slice tail 0 found.length
          let body ← advance text pos (name.length + 3)
          pure (some (.ofList name), body)
      | none => .error (.refusal ⟨pos, .unterminatedGroupName⟩)
  | '?' :: modifier :: _ => .error (.refusal ⟨pos, .groupModifier modifier⟩)
  | ['?'] => .error (.refusal ⟨start, .unclosedGroup⟩)
  | _ => pure (some (toString number), pos)

variable {text tail : List Char} {pos : Nat} {c : Char}

/-! ## Positions -/

/-- The character at a position can be passed, and what is behind it can be cut out of the text. -/
theorem advance_of_drop (here : text.drop pos = c :: tail) :
    advance text pos 1 = .ok (pos + 1) ∧ slice text (pos + 1) text.length = .ok tail := by
  have inside := Text.lt_length_of_drop here
  have behind := Text.drop_succ_of_drop here
  exact ⟨advance_of_le inside, (slice_length inside).trans (congrArg Except.ok behind)⟩

/-- A character is the last one if nothing comes after it. -/
theorem atEnd_eq (here : text.drop pos = c :: tail) :
    (pos + 1 == text.length) = tail.isEmpty := by
  rw [Text.length_of_drop here]
  cases tail with
  | nil => simp
  | cons => simp

/-! ## Atoms -/

theorem escape_eq (here : text.drop pos = '\\' :: tail) :
    escape text pos = lift ((Atom.read pos '\\' tail).map
      fun span => (span.value, pos + span.length)) := by
  obtain ⟨advanced, cut⟩ := advance_of_drop here
  have behind := Text.drop_succ_of_drop here
  have head : text[pos + 1]? = tail.head? := by rw [← List.head?_drop, behind]
  simp only [escape, advanced, cut, ok_bind, head, Atom.read]
  cases tail with
  | nil => rfl
  | cons key rest =>
      simp only [List.head?_cons, reduceCtorEq, if_false, atEnd_eq behind, decode_eq]
      cases decoded : Escape.decode (pos + 1) key rest with
      | error error => rfl
      | ok span =>
          have inside := Escape.length_le_of_decode decoded
          have lengthEq := Text.length_of_drop behind
          simp only [lift_ok, ok_bind, Except.map]
          rw [advance_of_le (by omega), Nat.add_right_comm, Nat.add_assoc]
          rfl

/-- A guarded atom has no lapse, and is read as it is without guard. -/
theorem leaf_eq (here : text.drop pos = c :: tail) :
    leaf text pos c = lift ((Atom.read pos c tail).map
      fun span => (span.value, pos + span.length)) := by
  unfold leaf
  split
  · rfl
  · obtain ⟨before, rfl, rfl⟩ := Text.exists_before_of_drop here
    simp only [readClass_eq, Atom.read]
    cases CharClass.read before.length tail <;> rfl
  · exact escape_eq here
  · next notDot notBracket notBackslash =>
      simp only [Atom.read, atEnd_eq here]
      cases Anchor.ofChar? c with
      | none => rfl
      | some anchor =>
          simp only
          cases anchor.atom pos (pos == 0) tail.isEmpty <;> rfl

/-! ## Openings -/

/-- A name is cut out of the text up to the bracket that closes it. -/
theorem opening_of_name {rest : List Char} (here : text.drop pos = '(' :: '?' :: '<' :: rest)
    (notEquals : ∀ tail, rest ≠ '=' :: tail) (notExclamation : ∀ tail, rest ≠ '!' :: tail)
    (number : Nat) :
    opening text pos number = lift ((Opening.read pos number ('?' :: '<' :: rest)).map
      fun span => (span.value, pos + (span.length + 1))) := by
  obtain ⟨advanced, cut⟩ := advance_of_drop here
  have lengthEq := Text.length_of_drop here
  cases enclosed : Text.enclosed? '>' rest with
  | none => simp [opening, advanced, cut, Opening.read, enclosed, Except.map]
  | some name =>
      obtain ⟨_, _, after, rfl⟩ := Text.enclosed?_eq_some_iff.mp enclosed
      have cutName : slice (name ++ '>' :: after) 0 name.length = .ok name :=
        slice_front (List.prefix_append name _)
      have inside : pos + 1 + (name.length + 3) ≤ text.length := by
        simp only [List.length_cons, List.length_append] at lengthEq
        omega
      have stop : pos + 1 + (name.length + 3) = pos + (name.length + 3 + 1) := by omega
      simp [opening, advanced, cut, Opening.read, enclosed, cutName, advance_of_le inside,
        Except.map, stop]

/-- A guarded opening has no lapse, and is read as it is without guard. -/
theorem opening_eq (here : text.drop pos = '(' :: tail) (number : Nat) :
    opening text pos number = lift ((Opening.read pos number tail).map
      fun span => (span.value, pos + (span.length + 1))) := by
  obtain ⟨advanced, cut⟩ := advance_of_drop here
  have lengthEq := Text.length_of_drop here
  by_cases name : ∃ rest, tail = '?' :: '<' :: rest ∧ ∀ c ∈ ['=', '!'], rest.head? ≠ some c
  · obtain ⟨rest, rfl, plain⟩ := name
    refine opening_of_name here ?_ ?_ number
    · rintro more rfl
      exact plain '=' (by simp) rfl
    · rintro more rfl
      exact plain '!' (by simp) rfl
  -- The other forms are refused or take a known number of characters.
  rw [opening, advanced, ok_bind, cut, ok_bind]
  rcases tail with _ | ⟨mark, rest⟩
  · rfl
  by_cases question : mark = '?'
  · subst question
    rcases rest with _ | ⟨modifier, rest⟩
    · rfl
    by_cases colon : modifier = ':'
    · subst colon
      have body : advance text (pos + 1) 2 = .ok (pos + (2 + 1)) := by
        rw [advance_of_le (by simp only [List.length_cons] at lengthEq; omega)]
      simp only [body]
      rfl
    by_cases angle : modifier = '<'
    · subst angle
      have lookbehind : ¬rest.head? = some '=' → rest.head? = some '!' := by simpa using name
      by_cases equals : rest.head? = some '='
      · obtain ⟨more, rfl⟩ := List.head?_eq_some_iff.mp equals
        rfl
      · obtain ⟨more, rfl⟩ := List.head?_eq_some_iff.mp (lookbehind equals)
        rfl
    by_cases equals : modifier = '='
    · subst equals
      rfl
    by_cases exclamation : modifier = '!'
    · subst exclamation
      rfl
    · simp [Opening.read, angle, Except.map]
  · simp [Opening.read, question, Except.map]

end PatternTree.Guarded
