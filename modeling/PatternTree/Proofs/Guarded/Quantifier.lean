import PatternTree.Proofs.Guarded.Basic
import PatternTree.Proofs.Quantifier.Spelling
import PatternTree.Proofs.Text
import PatternTree.Tree.Reader

/-!
# Quantifiers under guard

The numbers in braces are cut out of the text, and the position moves past the whole quantifier
only when it is known to be one.  `Guarded.quantified` does so under guard, and comes to what
`Piece.read` comes to.
-/

namespace PatternTree.Guarded

/-- Move past a reluctant or possessive marker. -/
def skipMarker (text : List Char) (pos : Nat) : Guarded Nat :=
  if text[pos]? = some '?' ∨ text[pos]? = some '+' then advance text pos 1 else pure pos

/-- Take the quantifier that the character at `pos` writes, and its marker. -/
def marked (text : List Char) (pos : Nat) (quantifier : Quantifier) (atom : Atom) :
    Guarded (Piece × Nat) := do
  let next ← advance text pos 1
  let stop ← skipMarker text next
  pure (⟨quantifier, atom⟩, stop)

/-- Take the braces at `pos` if their digits write bounds. -/
def bounded (text : List Char) (pos : Nat) (low high : List Char) (comma : Bool) :
    Guarded (Option (Braces × Nat)) :=
  match Braces.bound? low, Braces.bound? high with
  | some min, some max =>
      let bounds : Braces := ⟨min, comma, max⟩
      match bounds.inverted? with
      | some (min, max) => .error (.refusal ⟨pos, .invertedRange min max⟩)
      | none => do
          let stop ← advance text pos (1 + low.length + comma.toNat + high.length + 1)
          pure (some (bounds, stop))
  | _, _ => pure none

/-- Take the braces at `pos` if they are a quantifier. -/
def braces (text : List Char) (pos : Nat) : Guarded (Option (Braces × Nat)) := do
  let rest ← slice text pos text.length
  match rest with
  | '\x7b' :: inner =>
      let low := (inner.takeWhile Char.isDigit).length
      let comma := inner[low]? == some ','
      let afterComma ← slice inner (low + comma.toNat) inner.length
      let high := (afterComma.takeWhile Char.isDigit).length
      if afterComma[high]? ≠ some '\x7d' ∨ low + high = 0 then pure none
      else
        let lowDigits ← slice inner 0 low
        let highDigits ← slice afterComma 0 high
        bounded text pos lowDigits highDigits comma
  | _ => pure none

/-- Take what may follow the braces that end before `pos`. -/
def ranged (text : List Char) (pos : Nat) (bounds : Braces) (atom : Atom) :
    Guarded (Piece × Nat) :=
  if (Quantifier.braces bounds).isExact ∧ text[pos]? = some '?' then
    marked text pos .optional (.group none [⟨.braces bounds, atom⟩])
  else do
    let stop ← skipMarker text pos
    pure (⟨.braces bounds, atom⟩, stop)

/-- Take the quantifier at `pos`, which `atom` stands before. -/
def quantified (text : List Char) (pos : Nat) (atom : Atom) : Guarded (Piece × Nat) :=
  match text[pos]? with
  | some '*' => marked text pos .star atom
  | some '+' => marked text pos .plus atom
  | some '?' => marked text pos .optional atom
  | some '\x7b' => do
      match ← braces text pos with
      | some (bounds, stop) => ranged text stop bounds atom
      | none => pure (⟨.once, atom⟩, pos)
  | _ => pure (⟨.once, atom⟩, pos)

section

variable {text : List Char} {pos : Nat}

/-! ## Markers -/

theorem skipMarker_eq (text : List Char) (pos : Nat) :
    skipMarker text pos = .ok (pos + Quantifier.markerLength (text.drop pos)) := by
  have here : text[pos]? = (text.drop pos).head? := by rw [List.head?_drop]
  have inside := Quantifier.markerLength_le (text.drop pos)
  rw [List.length_drop] at inside
  rw [skipMarker, here]
  cases rest : text.drop pos with
  | nil => rfl
  | cons c tail =>
      have before := Text.lt_length_of_drop rest
      rw [List.head?_cons, advance_of_le (by omega)]
      by_cases question : c = '?'
      · subst question
        rfl
      by_cases plus : c = '+'
      · subst plus
        rfl
      · simp [Quantifier.markerLength, question, plus]

theorem marked_eq {c : Char} {tail : List Char} (rest : text.drop pos = c :: tail)
    (quantifier : Quantifier) (atom : Atom) :
    marked text pos quantifier atom =
      .ok (⟨quantifier, atom⟩, pos + (1 + Quantifier.markerLength tail)) := by
  have before := Text.lt_length_of_drop rest
  have advanced : advance text pos 1 = .ok (pos + 1) := advance_of_le before
  simp only [marked, advanced, skipMarker_eq, Text.drop_succ_of_drop rest, ok_bind, pure_eq_ok,
    Nat.add_assoc]

/-! ## Braces -/

/-- The braces that were found, unless their bounds stand in the wrong order. -/
def verdict (pos : Nat) (span : Span Braces) : Guarded (Option (Braces × Nat)) :=
  span.value.inverted?.elim (.ok (some (span.value, pos + (span.length + 1))))
    fun bounds => .error (.refusal ⟨pos, .invertedRange bounds.1 bounds.2⟩)

theorem bounded_eq (low high : List Char) (comma : Bool)
    (inside : pos + (low.length + comma.toNat + high.length + 2) ≤ text.length) :
    bounded text pos low high comma =
      (Braces.bound? low).elim (.ok none) fun min =>
        (Braces.bound? high).elim (.ok none) fun max =>
          verdict pos ⟨⟨min, comma, max⟩, low.length + comma.toNat + high.length + 1⟩ := by
  have advanced : advance text pos (1 + low.length + comma.toNat + high.length + 1) =
      .ok (pos + (low.length + comma.toNat + high.length + 1 + 1)) := by
    rw [advance_of_le (by omega)]
    congr 1
    omega
  rw [bounded]
  cases Braces.bound? low with
  | none => rfl
  | some min =>
      cases Braces.bound? high with
      | none => rfl
      | some max =>
          simp only [Option.elim_some, verdict, advanced, ok_bind, pure_eq_ok]
          cases Braces.inverted? ⟨min, comma, max⟩ <;> rfl

/-- What stands `count` characters behind a run can be cut out of the list. -/
theorem slice_behind {test : Char → Bool} {list : List Char} {count : Nat}
    (inside : count ≤ (list.dropWhile test).length) :
    slice list ((list.takeWhile test).length + count) list.length =
      .ok ((list.dropWhile test).drop count) := by
  have lengthEq := congrArg List.length (List.takeWhile_append_dropWhile (p := test) (l := list))
  rw [List.length_append] at lengthEq
  rw [slice_length (by omega), ← List.drop_drop, Text.drop_length_takeWhile]

/-- What stands behind the first number in braces lies inside the text. -/
theorem length_le_of_behind {inner behind : List Char} (rest : text.drop pos = '\x7b' :: inner)
    (behindEq : inner.dropWhile Char.isDigit = behind) :
    pos + ((inner.takeWhile Char.isDigit).length + behind.length + 1) ≤ text.length := by
  have textLength := Text.length_of_drop rest
  have innerLength := congrArg List.length
    (List.takeWhile_append_dropWhile (p := Char.isDigit) (l := inner))
  rw [List.length_append, behindEq] at innerLength
  omega

/-- The braces, once their parts have been cut out of the text. -/
theorem braces_of_behind {inner behind : List Char} (rest : text.drop pos = '\x7b' :: inner)
    (behindEq : inner.dropWhile Char.isDigit = behind) :
    braces text pos =
      let comma := behind.head? == some ','
      let afterComma := behind.drop comma.toNat
      if (afterComma.dropWhile Char.isDigit).head? ≠ some '\x7d' ∨
          (inner.takeWhile Char.isDigit).length + (afterComma.takeWhile Char.isDigit).length = 0
      then .ok none
      else
        bounded text pos (inner.takeWhile Char.isDigit) (afterComma.takeWhile Char.isDigit)
          comma := by
  subst behindEq
  have before := Text.lt_length_of_drop rest
  have cut : slice text pos text.length = .ok ('\x7b' :: inner) := by
    rw [slice_length (Nat.le_of_lt before), rest]
  have cutBehind : slice inner ((inner.takeWhile Char.isDigit).length +
      ((inner.dropWhile Char.isDigit).head? == some ',').toNat) inner.length =
      .ok ((inner.dropWhile Char.isDigit).drop
        ((inner.dropWhile Char.isDigit).head? == some ',').toNat) := by
    refine slice_behind ?_
    cases inner.dropWhile Char.isDigit with
    | nil => exact Nat.zero_le _
    | cons c after =>
        rw [List.length_cons]
        exact Nat.le_trans (Bool.toNat_le _) (Nat.succ_le_succ (Nat.zero_le _))
  simp only [braces, cut, ok_bind, Text.getElem?_length_takeWhile, cutBehind,
    slice_front (List.takeWhile_prefix _), pure_eq_ok]

theorem braces_of_closing {inner after : List Char} (rest : text.drop pos = '\x7b' :: inner)
    (behind : inner.dropWhile Char.isDigit = '\x7d' :: after) :
    braces text pos = (Braces.read? inner).elim (.ok none) (verdict pos) := by
  rw [braces_of_behind rest behind]
  simp only [Braces.read?, behind]
  by_cases empty : inner.takeWhile Char.isDigit = []
  · simp [empty, Braces.bound?]
  · have inside := length_le_of_behind rest behind
    have bounds : pos + ((inner.takeWhile Char.isDigit).length + false.toNat +
        ([] : List Char).length + 2) ≤ text.length := by
      simp only [List.length_cons, List.length_nil, Bool.toNat_false] at inside ⊢
      omega
    refine (if_neg (by simpa using empty)).trans ((bounded_eq _ [] false bounds).trans ?_)
    cases found : Braces.bound? (inner.takeWhile Char.isDigit) with
    | none => rfl
    | some min =>
        cases min with
        | none => exact absurd (Braces.bound?_eq_some_none_iff.mp found) empty
        | some min => rfl

theorem braces_of_comma {inner after : List Char} (rest : text.drop pos = '\x7b' :: inner)
    (behind : inner.dropWhile Char.isDigit = ',' :: after) :
    braces text pos = (Braces.read? inner).elim (.ok none) (verdict pos) := by
  rw [braces_of_behind rest behind]
  simp only [Braces.read?, behind, List.head?_cons, beq_self_eq_true, Bool.toNat_true,
    List.drop_succ_cons, List.drop_zero]
  by_cases closing : (after.dropWhile Char.isDigit).head? = some '\x7d'
  · obtain ⟨more, closingEq⟩ := List.head?_eq_some_iff.mp closing
    by_cases bare : inner.takeWhile Char.isDigit = [] ∧ after.takeWhile Char.isDigit = []
    · simp [closingEq, bare, Braces.bound?]
    · have inside := length_le_of_behind rest behind
      have afterLength := congrArg List.length
        (List.takeWhile_append_dropWhile (p := Char.isDigit) (l := after))
      rw [List.length_append, closingEq] at afterLength
      have bounds : pos + ((inner.takeWhile Char.isDigit).length + true.toNat +
          (after.takeWhile Char.isDigit).length + 2) ≤ text.length := by
        simp only [List.length_cons, Bool.toNat_true] at inside afterLength ⊢
        omega
      refine (if_neg (by simpa [closing] using bare)).trans ((bounded_eq _ _ true bounds).trans ?_)
      simp only [closingEq]
      cases lowFound : Braces.bound? (inner.takeWhile Char.isDigit) with
      | none => rfl
      | some min =>
          cases highFound : Braces.bound? (after.takeWhile Char.isDigit) with
          | none => rfl
          | some max =>
              have someBound : (min.isNone && max.isNone) = false := by
                rw [Bool.eq_false_iff]
                intro noBound
                obtain ⟨rfl, rfl⟩ : min = none ∧ max = none := by simpa using noBound
                exact bare ⟨Braces.bound?_eq_some_none_iff.mp lowFound,
                  Braces.bound?_eq_some_none_iff.mp highFound⟩
              have lengthEq : (inner.takeWhile Char.isDigit).length + true.toNat +
                  (after.takeWhile Char.isDigit).length + 1 =
                  (inner.takeWhile Char.isDigit).length +
                    (after.takeWhile Char.isDigit).length + 2 := by
                rw [Bool.toNat_true]
                omega
              simp only [Option.elim_some, someBound, lengthEq, Bool.false_eq_true, if_false]
  · refine (if_pos (.inl closing)).trans ?_
    cases closingEq : after.dropWhile Char.isDigit with
    | nil => rfl
    | cons mark more =>
        have notClosing : mark ≠ '\x7d' := by simpa [closingEq] using closing
        simp [notClosing]

/-- Braces are a quantifier by what stands after the digits. -/
theorem braces_eq {inner : List Char} (rest : text.drop pos = '\x7b' :: inner) :
    braces text pos = (Braces.read? inner).elim (.ok none) (verdict pos) := by
  cases behind : inner.dropWhile Char.isDigit with
  | nil => simp [braces_of_behind rest behind, Braces.read?, behind]
  | cons c after =>
      by_cases closing : c = '\x7d'
      · subst closing
        exact braces_of_closing rest behind
      by_cases comma : c = ','
      · subst comma
        exact braces_of_comma rest behind
      · have notDigit := List.head?_dropWhile_not Char.isDigit inner
        simp only [behind, List.head?_cons] at notDigit
        have noComma : (some c == some ',') = false := by simpa using comma
        have noRun : (c :: after).dropWhile Char.isDigit = c :: after :=
          List.dropWhile_cons_of_neg (by simpa using notDigit)
        simp [braces_of_behind rest behind, Braces.read?, behind, noComma, noRun, closing, comma]

/-! ## Quantifiers -/

theorem ranged_eq {tail : List Char} {stop : Nat} (rest : text.drop stop = tail) (bounds : Braces)
    (atom : Atom) :
    ranged text stop bounds atom =
      .ok (if (Quantifier.braces bounds).isExact ∧ tail.head? = some '?' then
        (⟨.optional, .group none [⟨.braces bounds, atom⟩]⟩,
          stop + (1 + Quantifier.markerLength tail.tail))
      else (⟨.braces bounds, atom⟩, stop + Quantifier.markerLength tail)) := by
  have here : text[stop]? = tail.head? := by rw [← rest, List.head?_drop]
  rw [ranged, here]
  split
  · next asked =>
      obtain ⟨more, tailEq⟩ := List.head?_eq_some_iff.mp asked.2
      rw [marked_eq (rest.trans tailEq), tailEq, List.tail_cons]
  · rw [skipMarker_eq, rest]
    rfl

/-- A guarded quantifier has no lapse, and makes the piece that it makes without guard. -/
theorem quantified_eq (text : List Char) (pos : Nat) (atom : Atom) :
    quantified text pos atom =
      lift ((Piece.read atom pos (text.drop pos)).map
        fun span => (span.value, pos + span.length)) := by
  have here : text[pos]? = (text.drop pos).head? := by rw [List.head?_drop]
  rw [quantified, here]
  cases rest : text.drop pos with
  | nil => rfl
  | cons c tail =>
      rw [List.head?_cons]
      by_cases brace : c = '\x7b'
      · subst brace
        simp only [braces_eq rest, Piece.read, Quantifier.read]
        cases found : Braces.read? tail with
        | none => rfl
        | some span =>
            have behind : text.drop (pos + (span.length + 1)) = tail.drop span.length := by
              rw [← List.drop_drop, rest, List.drop_succ_cons]
            simp only [Option.elim_some, verdict]
            cases inverted : span.value.inverted? with
            | some bounds => rfl
            | none =>
                simp only [Option.elim_none, ok_bind, ranged_eq behind, List.drop_succ_cons]
                simp only [Bool.and_eq_true, beq_iff_eq]
                split
                · simp only [Except.map, lift_ok, Except.ok.injEq, Prod.mk.injEq, true_and]
                  omega
                · simp only [Except.map, lift_ok, Nat.add_assoc]
      by_cases star : c = '*'
      · subst star
        exact marked_eq rest .star atom
      by_cases plus : c = '+'
      · subst plus
        exact marked_eq rest .plus atom
      by_cases question : c = '?'
      · subst question
        exact marked_eq rest .optional atom
      · have unmarked : Quantifier.read pos (c :: tail) = .ok ⟨.once, 0⟩ := by
          simp [Quantifier.read, brace, star, plus, question]
        simp [Piece.read, unmarked, brace, star, plus, question, Except.map]

end

end PatternTree.Guarded
