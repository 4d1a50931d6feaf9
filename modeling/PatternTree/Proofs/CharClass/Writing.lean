import PatternTree.CharClass.Bracket

/-!
# Writing classes as bracket expressions

Every class but the one that lists nothing and is not negated has a bracket
expression.  A backslash stands before the few characters that mean something
between brackets, and before no others, since a backslash and a letter can be a
shorthand.  `read_writeContent` reads the class back from what is written, no
matter what follows the closing bracket.
-/

namespace PatternTree.CharClass

/-- Whether a character means something between brackets. -/
def isSpecialMember (c : Char) : Bool :=
  c ∈ ['\\', ']', '[', '-', '^']

/-- A character as a member of a bracket expression. -/
def writeMember (c : Char) : List Char :=
  if isSpecialMember c then ['\\', c] else [c]

/-- An item as it is written between brackets. -/
def Item.write : Item → List Char
  | .single c => writeMember c
  | .range first last => writeMember first ++ '-' :: writeMember last

/-- The text between the brackets of a class. -/
def writeContent (cls : CharClass) : List Char :=
  (if cls.negated then ['^'] else []) ++ cls.items.flatMap Item.write

/-- The bracket expression of a class. -/
def write (cls : CharClass) : List Char :=
  '[' :: (cls.writeContent ++ [']'])

/-! ## The members that are read back -/

theorem shorthand?_eq_none_of_special {c : Char} (special : isSpecialMember c = true) :
    shorthand? c = none := by
  simp only [isSpecialMember, List.mem_cons, List.not_mem_nil, or_false, decide_eq_true_eq]
    at special
  rcases special with rfl | rfl | rfl | rfl | rfl <;> rfl

namespace Member

theorem resolve_writeMember (c : Char) (rest : List Char) :
    resolve (writeMember c ++ rest) = .literal c :: resolve rest := by
  by_cases special : isSpecialMember c = true
  · simp only [writeMember, if_pos special, List.cons_append, List.nil_append, resolve, ofEscaped,
      shorthand?_eq_none_of_special special]
  · have notBackslash : c ≠ '\\' := by
      intro equal
      exact special (by rw [equal]; rfl)
    have notDash : c ≠ '-' := by
      intro equal
      exact special (by rw [equal]; rfl)
    simp [writeMember, special, resolve, notBackslash]

/-- The members that the text of an item stands for. -/
def ofItem : Item → List Member
  | .single c => [.literal c]
  | .range first last => [.literal first, .dash, .literal last]

theorem resolve_write (item : Item) (rest : List Char) :
    resolve (item.write ++ rest) = ofItem item ++ resolve rest := by
  cases item with
  | single c => exact resolve_writeMember c rest
  | range first last =>
      rw [Item.write, List.append_assoc, resolve_writeMember, List.cons_append, resolve,
        resolve_writeMember]
      rfl

theorem resolve_flatMap_write (items : List Item) :
    resolve (items.flatMap Item.write) = items.flatMap ofItem := by
  induction items with
  | nil => rfl
  | cons item items ih => rw [List.flatMap_cons, resolve_write, ih, List.flatMap_cons]

/-- Items that stand next to one another do not fuse into a range, since none
begins with a dash. -/
theorem toItems_flatMap_ofItem (items : List Item) : toItems (items.flatMap ofItem) = items := by
  induction items with
  | nil => rfl
  | cons item items ih =>
      cases item with
      | range first last => simp [ofItem, toItems, ih]
      | single c =>
          have noDash : (items.flatMap ofItem).head? ≠ some .dash := by
            cases items with
            | nil => simp
            | cons next rest => cases next <;> simp [ofItem]
          rw [List.flatMap_cons, ofItem, List.singleton_append, toItems, ih]
          intro last rest equal
          exact noDash (by rw [equal]; rfl)

end Member

/-! ## The closing bracket -/

/-- No special character but a backslash stands at the front of an item. -/
theorem head?_write_ne (item : Item) (rest : List Char) {c : Char}
    (special : isSpecialMember c = true) (notBackslash : c ≠ '\\') :
    (item.write ++ rest).head? ≠ some c := by
  have first_ne (first : Char) (more : List Char) : (writeMember first ++ more).head? ≠ some c := by
    intro headEq
    by_cases firstSpecial : isSpecialMember first = true
    · simp [writeMember, firstSpecial] at headEq
      exact notBackslash headEq.symm
    · simp [writeMember, firstSpecial] at headEq
      exact firstSpecial (headEq ▸ special)
  cases item with
  | single first => exact first_ne first rest
  | range first last =>
      rw [Item.write, List.append_assoc]
      exact first_ne first _

theorem head?_writeContent_ne {cls : CharClass} (holds : cls.items = [] → cls.negated = true)
    (rest : List Char) {c : Char} (special : isSpecialMember c = true)
    (notBackslash : c ≠ '\\') (notNegation : c ≠ '^') :
    (cls.writeContent ++ rest).head? ≠ some c := by
  cases cls with
  | mk negated items =>
      cases negated with
      | true => simpa [writeContent] using Ne.symm notNegation
      | false =>
          cases items with
          | nil => simp at holds
          | cons item items =>
              simp only [writeContent, Bool.false_eq_true, if_false, List.nil_append,
                List.flatMap_cons, List.append_assoc]
              exact head?_write_ne item _ special notBackslash

/-- Only the parity of the backslashes in front of a text matters to it. -/
theorem lengthToClose?_add_two (slashes : Nat) (text : List Char) :
    lengthToClose? (slashes + 2) text = lengthToClose? slashes text := by
  induction text generalizing slashes with
  | nil => rfl
  | cons c rest ih =>
      simp only [lengthToClose?, Nat.add_mod_right]
      by_cases backslash : c = '\\'
      · simp only [backslash, if_true]
        rw [show slashes + 2 + 1 = slashes + 1 + 2 from rfl, ih]
      · simp only [backslash, if_false]

/-- A text in which no closing bracket is found and which leaves no backslash
open, so that whatever follows it is searched as if it stood alone. -/
def IsPassed (text : List Char) : Prop :=
  ∀ rest, lengthToClose? 0 (text ++ rest) = (lengthToClose? 0 rest).map (text.length + ·)

theorem IsPassed.nil : IsPassed [] := by
  intro rest
  simp

theorem IsPassed.append {first second : List Char} (firstPassed : IsPassed first)
    (secondPassed : IsPassed second) : IsPassed (first ++ second) := by
  intro rest
  rw [List.append_assoc, firstPassed, secondPassed, Option.map_map]
  congr 1
  funext length
  simp [Nat.add_assoc]

theorem isPassed_singleton {c : Char} (notBackslash : c ≠ '\\') (notBracket : c ≠ ']') :
    IsPassed [c] := by
  intro rest
  simp [lengthToClose?, notBackslash, notBracket, Nat.add_comm]

theorem isPassed_pair (c : Char) : IsPassed ['\\', c] := by
  intro rest
  have found : lengthToClose? 0 (['\\', c] ++ rest) =
      ((lengthToClose? 0 rest).map (· + 1)).map (· + 1) := by
    by_cases backslash : c = '\\'
    · simp [backslash, lengthToClose?, lengthToClose?_add_two]
    · simp [backslash, lengthToClose?]
  rw [found, Option.map_map]
  congr 1
  funext length
  exact Nat.add_comm length 2

theorem isPassed_writeMember (c : Char) : IsPassed (writeMember c) := by
  unfold writeMember
  split
  · exact isPassed_pair c
  · next ordinary =>
      apply isPassed_singleton
      · intro equal
        exact ordinary (by rw [equal]; rfl)
      · intro equal
        exact ordinary (by rw [equal]; rfl)

theorem isPassed_write (item : Item) : IsPassed item.write := by
  cases item with
  | single c => exact isPassed_writeMember c
  | range first last =>
      have dash : IsPassed ['-'] := isPassed_singleton (by decide) (by decide)
      exact (isPassed_writeMember first).append (dash.append (isPassed_writeMember last))

theorem isPassed_flatMap_write (items : List Item) : IsPassed (items.flatMap Item.write) := by
  induction items with
  | nil => exact .nil
  | cons item items ih => exact (isPassed_write item).append ih

theorem isPassed_writeContent (cls : CharClass) : IsPassed cls.writeContent := by
  unfold writeContent
  split
  · have negation : IsPassed ['^'] := isPassed_singleton (by decide) (by decide)
    exact negation.append (isPassed_flatMap_write cls.items)
  · exact isPassed_flatMap_write cls.items

/-- The bracket that closes a written class is the one after its text. -/
theorem contentLength?_writeContent {cls : CharClass} (holds : cls.items = [] → cls.negated = true)
    (rest : List Char) :
    contentLength? (cls.writeContent ++ ']' :: rest) = some cls.writeContent.length := by
  unfold contentLength?
  split
  · next equal =>
      have notClosed := head?_writeContent_ne holds (']' :: rest) (c := ']') rfl (by decide)
        (by decide)
      exact absurd (by rw [equal]; rfl) notClosed
  · rw [isPassed_writeContent cls]
    simp [lengthToClose?]

/-! ## Reading back -/

/-- The text between the brackets of a written class stands for the class. -/
theorem ofMembers_writeContent (cls : CharClass) : ofMembers cls.writeContent = cls := by
  have items_eq : Member.toItems (Member.resolve (cls.items.flatMap Item.write)) = cls.items := by
    rw [Member.resolve_flatMap_write, Member.toItems_flatMap_ofItem]
  cases cls with
  | mk negated items =>
      cases negated with
      | true => simp only [writeContent, if_true, List.singleton_append, ofMembers, items_eq]
      | false =>
          simp only [writeContent, Bool.false_eq_true, if_false, List.nil_append]
          unfold ofMembers
          split
          · next equal =>
              cases items with
              | nil => simp at equal
              | cons item items =>
                  have notNegation := head?_write_ne item (items.flatMap Item.write) (c := '^')
                    rfl (by decide)
                  rw [List.flatMap_cons] at equal
                  exact absurd (by rw [equal]; rfl) notNegation
          · rw [items_eq]

/-- A written class is read back whatever follows it. -/
theorem read_writeContent {cls : CharClass} (holds : cls.items = [] → cls.negated = true)
    (pos : Nat) (rest : List Char) :
    read pos (cls.writeContent ++ ']' :: rest) = .ok ⟨cls, cls.writeContent.length + 1⟩ := by
  have noNamedSet : ¬startsNamedSet (cls.writeContent ++ ']' :: rest) = true := by
    intro starts
    obtain ⟨name, more, _, _, equal⟩ := startsNamedSet_iff.mp starts
    have notBracket := head?_writeContent_ne holds (']' :: rest) (c := '[') rfl (by decide)
      (by decide)
    exact absurd (by rw [equal]; rfl) notBracket
  rw [read, if_neg noNamedSet, contentLength?_writeContent holds]
  simp only [List.take_left', ofMembers_writeContent]

end PatternTree.CharClass
