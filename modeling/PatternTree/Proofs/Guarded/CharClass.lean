import PatternTree.Proofs.CharClass.Ranges
import PatternTree.Proofs.Guarded.Basic
import PatternTree.Proofs.Text

/-!
# Bracket expressions under guard

A bracket expression is read character by character, with a look back over the text before each
closing bracket, and its items are formed from the members by their index.  `Guarded.readClass`
does so under guard, and comes to what `CharClass.read` comes to.
-/

namespace PatternTree.Guarded

open CharClass (Item Member trailingSlashes)

/-- Whether the text from an opening bracket on begins with a named set.  Its end is looked at only
where the text is long enough. -/
def startsNamedSet : List Char → Guarded Bool
  | '[' :: '[' :: ':' :: text =>
      let length := (text.takeWhile (· != ':')).length
      if 0 < length ∧ length + 2 ≤ text.length then do
        let window ← slice text length (length + 2)
        pure (window == [':', ']'])
      else pure false
  | _ => pure false

/-- Whether a closing bracket stands at `pos` that is not escaped. -/
def closes (text : List Char) (pos : Nat) : Guarded Bool :=
  if text[pos]? = some ']' then do
    let before ← slice text 0 pos
    pure (decide (trailingSlashes before % 2 = 0))
  else pure false

/-- Read from `pos` to the end of the bracket expression at `start`, after the `members`. -/
def content (text : List Char) (start pos : Nat) (members : List Char) :
    Guarded (List Char × Nat) :=
  match text[pos]? with
  | none => .error (.refusal ⟨start, .unterminatedClass⟩)
  | some c =>
      match closes text pos with
      | .error halt => .error halt
      | .ok true => .ok (members, pos)
      | .ok false =>
          match _ : advance text pos 1 with
          | .error halt => .error halt
          | .ok next => content text start next (members ++ [c])
termination_by text.length - pos
decreasing_by
  obtain ⟨rfl, inside⟩ := le_of_advance ‹_›
  omega

theorem lt_of_slice_eq_cons {α : Type} {list rest : List α} {start : Nat} {head : α}
    (found : slice list start list.length = .ok (head :: rest)) : start < list.length := by
  rw [slice] at found
  split at found
  · next inside =>
      have lengthEq := congrArg List.length (Except.ok.inj found)
      rw [List.length_take, List.length_drop, List.length_cons] at lengthEq
      omega
  · cases found

/-- Form items from the members at `index` and after it. -/
def itemsFrom (members : List Member) (index : Nat) : Guarded (List Item) :=
  match found : slice members index members.length with
  | .error halt => .error halt
  | .ok [] => .ok []
  | .ok (.literal first :: .dash :: .literal last :: _) => do
      let items ← itemsFrom members (index + 3)
      pure (.range first last :: items)
  | .ok (member :: _) => do
      let items ← itemsFrom members (index + 1)
      pure (Member.toItems [member] ++ items)
termination_by members.length - index
decreasing_by
  all_goals
    have inside := lt_of_slice_eq_cons found
    omega

/-- The class that a text between brackets writes. -/
def ofMembers (text : List Char) : Guarded CharClass := do
  let items ← itemsFrom (Member.resolve (CharClass.body text)) 0
  pure { negated := text.head? == some '^', items }

/-- What stands between the brackets of the expression at `start`, and where the second of them
stands. -/
def readContent (text : List Char) (start : Nat) : Guarded (List Char × Nat) := do
  let first ← advance text start 1
  if text[first]? = some ']' then
    let next ← advance text first 1
    content text start next [']']
  else content text start first []

/-- Read the bracket expression at `start`.  The position is that of its last character. -/
def readClass (text : List Char) (start : Nat) : Guarded (CharClass × Nat) := do
  let rest ← slice text start text.length
  let named ← startsNamedSet rest
  if named then .error (.refusal ⟨start, .posixBracket⟩)
  else
    let (members, stop) ← readContent text start
    let cls ← ofMembers members
    pure (cls, stop)

/-! ## Named sets -/

theorem startsNamedSet_of_name (text : List Char) :
    startsNamedSet ('[' :: '[' :: ':' :: text) =
      .ok (CharClass.startsNamedSet ('[' :: ':' :: text)) := by
  have textEq := List.takeWhile_append_dropWhile (p := (· != ':')) (l := text)
  simp only [startsNamedSet, CharClass.startsNamedSet]
  generalize text.takeWhile (· != ':') = name at *
  generalize text.dropWhile (· != ':') = rest at *
  subst textEq
  rcases name with _ | ⟨head, tail⟩
  · simp
  · rcases rest with _ | ⟨colon, _ | ⟨bracket, after⟩⟩
    · rw [if_neg (by simp only [List.length_append, List.length_nil]; omega)]
      rfl
    · rw [if_neg (by simp only [List.length_append, List.length_cons, List.length_nil]; omega)]
      simp
    · by_cases ends : colon = ':' ∧ bracket = ']'
      · simp [slice, ends]
      · have notEnd : ¬(colon == ':' && bracket == ']') = true := by simpa using ends
        simp only [slice, List.drop_left]
        simp [notEnd]
        split
        · next equal => simp_all
        · rfl

theorem startsNamedSet_eq (text : List Char) :
    startsNamedSet ('[' :: text) = .ok (CharClass.startsNamedSet text) := by
  by_cases named : ∃ rest, text = '[' :: ':' :: rest
  · obtain ⟨rest, rfl⟩ := named
    exact startsNamedSet_of_name rest
  · have unnamed : CharClass.startsNamedSet text = false := by
      rw [← Bool.not_eq_true, CharClass.startsNamedSet_iff]
      rintro ⟨name, rest, _, _, textEq⟩
      exact named ⟨_, textEq⟩
    rw [unnamed]
    unfold startsNamedSet
    split
    · next equal => exact absurd ⟨_, (List.cons.inj equal).2⟩ named
    · rfl

/-! ## Content -/

theorem closes_eq (front rest : List Char) (c : Char) :
    closes (front ++ c :: rest) front.length =
      .ok (decide (c = ']' ∧ trailingSlashes front % 2 = 0)) := by
  by_cases bracket : c = ']'
  · simp [closes, bracket, slice_zero]
  · simp [closes, bracket]

/-- The loop goes on to the first bracket that closes, as the search for it does. -/
theorem content_eq (start : Nat) (front rest members : List Char) :
    content (front ++ rest) start front.length members =
      (CharClass.lengthToClose? (trailingSlashes front) rest).elim
        (.error (.refusal ⟨start, .unterminatedClass⟩))
        fun length => .ok (members ++ rest.take length, front.length + length) := by
  induction rest generalizing front members with
  | nil =>
      rw [content]
      simp [CharClass.lengthToClose?]
  | cons c rest ih =>
      have here : (front ++ c :: rest)[front.length]? = some c := by simp
      have advanced : advance (front ++ c :: rest) front.length 1 = .ok (front.length + 1) :=
        advance_of_le (by simp)
      rw [content, here, CharClass.lengthToClose?]
      simp only [closes_eq]
      by_cases closed : c = ']' ∧ trailingSlashes front % 2 = 0
      · simp [closed]
      · have moved : front ++ c :: rest = (front ++ [c]) ++ rest := by simp
        have movedLength : (front ++ [c]).length = front.length + 1 := by simp
        have goesOn := ih (front ++ [c]) (members ++ [c])
        rw [← moved, movedLength, CharClass.trailingSlashes_concat] at goesOn
        simp only [closed, decide_false, if_false]
        split
        · next failed => cases advanced.symm.trans failed
        · next found =>
            cases advanced.symm.trans found
            rw [goesOn]
            cases CharClass.lengthToClose? (if c = '\\' then trailingSlashes front + 1 else 0) rest
            · rfl
            · simp [Nat.add_assoc, Nat.add_comm 1]

theorem readContent_eq (before tail : List Char) :
    readContent (before ++ '[' :: tail) before.length =
      (CharClass.contentLength? tail).elim
        (.error (.refusal ⟨before.length, .unterminatedClass⟩))
        fun length => .ok (tail.take length, before.length + 1 + length) := by
  have first : advance (before ++ '[' :: tail) before.length 1 = .ok (before.length + 1) :=
    advance_of_le (by simp)
  have head : (before ++ '[' :: tail)[before.length + 1]? = tail.head? := by
    rw [List.head?_eq_getElem?, List.getElem?_append_right (by omega), Nat.add_sub_cancel_left,
      List.getElem?_cons_succ]
  simp only [readContent, first, ok_bind, head]
  by_cases bracket : tail.head? = some ']'
  · -- The bracket right after the opening one is a member.
    obtain ⟨rest, rfl⟩ := List.head?_eq_some_iff.mp bracket
    have second : advance (before ++ '[' :: ']' :: rest) (before.length + 1) 1 =
        .ok (before.length + 1 + 1) := by
      refine advance_of_le ?_
      rw [List.length_append, List.length_cons, List.length_cons]
      omega
    have loop := content_eq before.length (before ++ ['[', ']']) rest [']']
    have noSlash : trailingSlashes (before ++ ['[', ']']) = 0 := by simp [trailingSlashes]
    simp only [List.append_assoc, List.cons_append, List.nil_append, List.length_append,
      List.length_cons, List.length_nil, noSlash] at loop
    simp only [if_pos bracket, second, ok_bind, loop, CharClass.contentLength?]
    cases CharClass.lengthToClose? 0 rest with
    | none => rfl
    | some length =>
        have lengthEq : 2 + length = 1 + (length + 1) := by omega
        simp [Nat.add_assoc, lengthEq]
  · have loop := content_eq before.length (before ++ ['[']) tail []
    have noSlash : trailingSlashes (before ++ ['[']) = 0 := by simp [trailingSlashes]
    simp only [List.append_assoc, List.cons_append, List.nil_append, List.length_append,
      List.length_cons, List.length_nil, noSlash] at loop
    have searched : CharClass.contentLength? tail = CharClass.lengthToClose? 0 tail := by
      unfold CharClass.contentLength?
      split
      · exact absurd rfl bracket
      · rfl
    rw [if_neg bracket, loop, searched]

/-! ## Items -/

theorem toItems_cons {member : Member} {rest : List Member}
    (notRange : ¬Member.BeginsRange (member :: rest)) :
    Member.toItems (member :: rest) = Member.toItems [member] ++ Member.toItems rest := by
  have alone : ¬Member.BeginsRange [member] := by
    rintro ⟨first, last, more, equal⟩
    simp at equal
  simp only [← Member.flatMap_items_toBlocks, Member.toBlocks_cons notRange,
    Member.toBlocks_cons alone, List.flatMap_cons]
  simp [Member.toBlocks]

theorem itemsFrom_eq (front rest : List Member) :
    itemsFrom (front ++ rest) front.length = .ok (Member.toItems rest) := by
  have sliced (front rest : List Member) :
      slice (front ++ rest) front.length (front ++ rest).length = .ok rest := by
    rw [slice_length (by simp), List.drop_left]
  induction rest using Member.blocks_induction generalizing front with
  | nil =>
      rw [itemsFrom]
      split
      · next failed => cases (sliced front []).symm.trans failed
      · rfl
      · next found => cases (sliced front []).symm.trans found
      · next found => cases (sliced front []).symm.trans found
  | range first last rest ih =>
      have goesOn := ih (front ++ [.literal first, .dash, .literal last])
      rw [itemsFrom]
      split
      · next failed => cases (sliced front _).symm.trans failed
      · next found => cases (sliced front _).symm.trans found
      · next found =>
          cases (sliced front _).symm.trans found
          simp only [List.append_assoc, List.cons_append, List.nil_append, List.length_append,
            List.length_cons, List.length_nil] at goesOn
          rw [goesOn]
          rfl
      · next member more notRange found =>
          cases (sliced front _).symm.trans found
          exact (notRange _ _ _ rfl rfl).elim
  | one member rest notRange ih =>
      have goesOn := ih (front ++ [member])
      rw [itemsFrom]
      split
      · next failed => cases (sliced front _).symm.trans failed
      · next found => cases (sliced front _).symm.trans found
      · next found =>
          cases (sliced front _).symm.trans found
          exact absurd ⟨_, _, _, rfl⟩ notRange
      · next found =>
          cases (sliced front _).symm.trans found
          simp only [List.append_assoc, List.cons_append, List.nil_append, List.length_append,
            List.length_cons, List.length_nil] at goesOn
          rw [goesOn, toItems_cons notRange]
          rfl

theorem ofMembers_eq (text : List Char) : ofMembers text = .ok (CharClass.ofMembers text) := by
  have items := itemsFrom_eq [] (Member.resolve (CharClass.body text))
  simp only [List.nil_append, List.length_nil] at items
  rw [ofMembers, items]
  cases text with
  | nil => rfl
  | cons c rest =>
      by_cases negation : c = '^'
      · subst negation
        rfl
      · simp [CharClass.ofMembers, CharClass.body, negation]

/-! ## Classes -/

/-- A guarded bracket expression has no lapse, and is read as it is without guard. -/
theorem readClass_eq (before tail : List Char) :
    readClass (before ++ '[' :: tail) before.length =
      lift ((CharClass.read before.length tail).map
        fun span => (span.value, before.length + span.length)) := by
  have rest : slice (before ++ '[' :: tail) before.length (before ++ '[' :: tail).length =
      .ok ('[' :: tail) := by
    rw [slice_length (by simp), List.drop_left]
  simp only [readClass, rest, startsNamedSet_eq, readContent_eq, ok_bind, CharClass.read]
  cases CharClass.startsNamedSet tail with
  | true => rfl
  | false =>
      cases CharClass.contentLength? tail with
      | none => rfl
      | some length =>
          have lengthEq : before.length + 1 + length = before.length + (length + 1) := by omega
          simp [ofMembers_eq, Except.map, lengthEq]

end PatternTree.Guarded
