import PatternTree.Pattern
import PatternTree.Proofs.CharClass.Pairing

/-!
# Named sets and the text after a bracket expression

A bracket expression that begins with a named set is refused.  The name is looked for up to the
next colon, though, and not up to the end of the expression.  So an expression with a name that
it begins and does not end is refused for a colon and a bracket far behind it:
`named_by_following_text` has one that is a class by itself.  Every other expression is refused
for its own text or not at all, by `refused_as_named_iff`.
-/

namespace PatternTree.CharClass

/-- A content that begins the name of a set, and has no colon to end it. -/
def BeginsName (content : List Char) : Prop :=
  ∃ name, content = '[' :: ':' :: name ∧ ':' ∉ name

variable {content following : List Char}

theorem read_eq_posixBracket_iff {pos : Nat} {text : List Char} :
    read pos text = .error ⟨pos, .posixBracket⟩ ↔ startsNamedSet text = true := by
  unfold read
  split
  · next named => simp [named]
  · next unnamed => split <;> simp [unnamed]

/-- A set that is named in an expression and the text after it is named in the expression
alone, unless the name goes on past its end. -/
theorem named_or_beginsName (named : startsNamedSet (content ++ ']' :: following) = true) :
    startsNamedSet (content ++ [']']) = true ∨
      BeginsName content ∧ ∃ more after, following = more ++ ':' :: ']' :: after ∧ ':' ∉ more := by
  obtain ⟨name, rest, nonempty, absent, textEq⟩ := startsNamedSet_iff.mp named
  rw [← List.cons_append, ← List.cons_append] at textEq
  rcases List.append_eq_append_iff.mp textEq with ⟨beyond, frontEq, behindEq⟩ | ⟨inner, rfl, endEq⟩
  · -- The name reaches past the closing bracket.
    right
    cases beyond with
    | nil => simp at behindEq
    | cons c more =>
        obtain ⟨rfl, rfl⟩ := List.cons.inj behindEq
        rcases content with _ | ⟨first, _ | ⟨second, inside⟩⟩
        · simp at frontEq
        · simp at frontEq
        · simp only [List.cons_append, List.cons.injEq] at frontEq
          obtain ⟨rfl, rfl, rfl⟩ := frontEq
          simp only [List.mem_append, List.mem_cons, not_or] at absent
          exact ⟨⟨inside, rfl, absent.1⟩, more, rest, rfl, absent.2.2⟩
  · -- The colon that ends the name stands before the closing bracket.
    left
    rcases inner with _ | ⟨colon, _ | ⟨bracket, after⟩⟩
    · simp at endEq
    · simp only [List.cons_append, List.nil_append, List.cons.injEq] at endEq
      obtain ⟨rfl, _⟩ := endEq
      exact startsNamedSet_iff.mpr ⟨name, [], nonempty, absent, by simp⟩
    · simp only [List.cons_append, List.cons.injEq] at endEq
      obtain ⟨rfl, rfl, _⟩ := endEq
      exact startsNamedSet_iff.mpr ⟨name, after ++ [']'], nonempty, absent, by simp⟩

theorem startsNamedSet_append_iff :
    startsNamedSet (content ++ ']' :: following) = true ↔
      startsNamedSet (content ++ [']']) = true ∨
        BeginsName content ∧ ∃ more after, following = more ++ ':' :: ']' :: after ∧ ':' ∉ more := by
  refine ⟨named_or_beginsName, ?_⟩
  rintro (named | ⟨⟨name, rfl, absent⟩, more, after, rfl, moreAbsent⟩)
  · obtain ⟨name, rest, nonempty, absent, textEq⟩ := startsNamedSet_iff.mp named
    refine startsNamedSet_iff.mpr ⟨name, rest ++ following, nonempty, absent, ?_⟩
    rw [← List.singleton_append, ← List.append_assoc, textEq]
    simp
  · exact startsNamedSet_iff.mpr ⟨name ++ ']' :: more, after, by simp, by simp [absent, moreAbsent],
      by simp⟩

theorem not_startsNamedSet_of_beginsName (begins : BeginsName content) :
    ¬startsNamedSet (content ++ [']']) = true := by
  obtain ⟨name, rfl, absent⟩ := begins
  intro named
  obtain ⟨found, rest, _, _, textEq⟩ := startsNamedSet_iff.mp named
  have colon : ':' ∈ name ++ [']'] := by
    simp only [List.cons_append, List.cons.injEq, true_and] at textEq
    rw [textEq]
    simp
  simp [absent] at colon

/-- A bracket expression is refused as a named set for its own text or, if it begins a name and
has no colon to end it, for a text that follows and has its first colon just before a closing
bracket.  The second happens to no other expression, so for every other one what follows makes
no difference. -/
theorem refused_as_named_iff (pos : Nat) (content : List Char) :
    (∀ following, read pos (content ++ ']' :: following) = .error ⟨pos, .posixBracket⟩ ↔
      startsNamedSet (content ++ [']']) = true ∨
        BeginsName content ∧ ∃ more after, following = more ++ ':' :: ']' :: after ∧ ':' ∉ more) ∧
    ((∀ first second, read pos (content ++ ']' :: first) = .error ⟨pos, .posixBracket⟩ ↔
        read pos (content ++ ']' :: second) = .error ⟨pos, .posixBracket⟩) ↔
      ¬BeginsName content) := by
  simp only [read_eq_posixBracket_iff]
  refine ⟨fun _ => startsNamedSet_append_iff, ?_⟩
  constructor
  · intro alike begins
    have named := (alike [':', ']'] []).mp
      (startsNamedSet_append_iff.mpr (.inr ⟨begins, [], [], rfl, by simp⟩))
    exact not_startsNamedSet_of_beginsName begins named
  · intro ended first second
    have ownText (following : List Char) :
        startsNamedSet (content ++ ']' :: following) = true ↔
          startsNamedSet (content ++ [']']) = true := by
      rw [startsNamedSet_append_iff]
      simp only [ended, false_and, or_false]
    exact (ownText first).trans (ownText second).symm

/-- The expression is a class by itself, and ends at the same bracket in the longer text. -/
theorem named_by_following_text :
    EndsAt "[[:]".toList 0 3 ∧ EndsAt "[[:]x:]".toList 0 3 ∧
      Pattern.parse {} "[[:]" =
        .ok { pieces := [⟨.once, .oneOf { items := [.single '[', .single ':'] }⟩] } ∧
      Pattern.parse {} "[[:]x:]" = .error ⟨0, .posixBracket⟩ := by
  have isContent : IsContent ['[', ':'] :=
    .paired (.single (by decide) (by decide) (.single (by decide) (by decide) .nil)) (by decide)
  have endsAt (following : List Char) : EndsAt ([] ++ '[' :: '[' :: ':' :: ']' :: following) 0 3 :=
    endsAt_iff.mpr ⟨['[', ':'], following, isContent, rfl, rfl⟩
  exact ⟨endsAt [], endsAt ['x', ':', ']'], by decide +kernel, by decide +kernel⟩

end PatternTree.CharClass
