import PatternTree.Proofs.CharClass.Pairing
import PatternTree.Proofs.Tree.Reader
import PatternTree.Scan

/-!
# Written classes in any context

A class is written with a backslash before each character that means something between brackets,
and nothing else has to be known of its items: ranges may be reversed, letters may be those of
shorthands, and neighbours may look like ranges.  `CharClass.written_read_back` reads the class
back from its text, at any place of a pattern and before any other text.

One class has no text at all, the class that lists nothing and is not negated.
-/

namespace PatternTree

namespace CharClass

/-- Only the class that lists nothing and is not negated has no spelling. -/
theorem exists_read_iff {cls : CharClass} :
    (∃ pos text length, read pos text = .ok ⟨cls, length⟩) ↔
      (cls.items = [] → cls.negated = true) := by
  constructor
  · rintro ⟨pos, text, length, found⟩
    exact negated_of_read found
  · intro holds
    exact ⟨0, _, _, read_writeContent holds 0 []⟩

theorem endsAt_write {cls : CharClass} (holds : cls.items = [] → cls.negated = true)
    (before following : List Char) :
    EndsAt (before ++ cls.write ++ following) before.length
      (before.length + 1 + cls.writeContent.length) := by
  have textEq : before ++ cls.write ++ following =
      before ++ '[' :: (cls.writeContent ++ ']' :: following) := by
    simp [write]
  rw [textEq]
  exact endsAt_iff_contentLength?.mpr (contentLength?_writeContent holds following)

end CharClass

/-- A scan takes a written class in one step and goes on with the text after it. -/
theorem Scan.step_of_write {cls : CharClass} (holds : cls.items = [] → cls.negated = true)
    (scan : Scan) (following : List Char) :
    Scan.step { scan with unread := cls.write ++ following } '['
        (cls.writeContent ++ ']' :: following) =
      Scan.attach { scan with pos := scan.pos + cls.write.length, unread := following }
        (.oneOf cls) := by
  have atomRead : Atom.read scan.pos '[' (cls.writeContent ++ ']' :: following) =
      .ok ⟨.oneOf cls, cls.writeContent.length + 1⟩ := by
    rw [Atom.read, CharClass.read_writeContent holds]
    rfl
  have lengthEq : cls.writeContent.length + 1 + 1 = cls.write.length := by
    simp [CharClass.write]
  change Scan.takeAtom _ _ _ = _
  simp only [Scan.takeAtom, atomRead, Scan.advance, lengthEq, List.drop_left]

namespace CharClass

/-- The text of a class stands for it, and in brackets it is read back wherever it stands,
whatever stands before it and follows it.  This is so for every class that is read from any text
at all. -/
theorem written_read_back (cls : CharClass) :
    ofMembers cls.writeContent = cls ∧
      ((∃ pos text length, read pos text = .ok ⟨cls, length⟩) ↔
        (cls.items = [] → cls.negated = true)) ∧
      ((cls.items = [] → cls.negated = true) → ∀ before following : List Char,
        EndsAt (before ++ cls.write ++ following) before.length
          (before.length + 1 + cls.writeContent.length) ∧
        read before.length (cls.writeContent ++ ']' :: following) =
          .ok ⟨cls, cls.writeContent.length + 1⟩ ∧
        ∀ scan : Scan,
          Scan.step { scan with unread := cls.write ++ following } '['
              (cls.writeContent ++ ']' :: following) =
            Scan.attach { scan with pos := scan.pos + cls.write.length, unread := following }
              (.oneOf cls)) := by
  refine ⟨ofMembers_writeContent cls, exists_read_iff, ?_⟩
  intro holds before following
  refine ⟨endsAt_write holds before following, read_writeContent holds before.length following, ?_⟩
  intro scan
  exact Scan.step_of_write holds scan following

/-- A reversed range, a closing bracket that is a member, and a sign that does not negate. -/
example : write { items := [.range 'z' '-', .single ']', .single '^', .single 'd'] } =
    "[z-\\-\\]\\^d]".toList := by
  decide

end CharClass

end PatternTree
