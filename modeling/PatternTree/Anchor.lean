import PatternTree.Error
import PatternTree.Tree.Basic

/-!
# Anchors

An anchor holds at a place between characters.  At the edge of the pattern that
it names it takes no text and is read as a boundary; anywhere else, and with no
edge to name, it describes no regular language.
-/

namespace PatternTree

/-- The places that an anchor can ask for. -/
inductive Anchor where
  | start
  | stop
  /-- A place that no edge of the pattern guarantees, such as a word boundary. -/
  | within
  deriving DecidableEq, Repr

namespace Anchor

/-- The anchors that a character writes on its own. -/
def ofChar? : Char → Option Anchor
  | '^' | 'A' => some .start
  | '$' | 'z' | 'Z' => some .stop
  | _ => none

/-- The anchors that a character writes after a backslash. -/
def ofEscaped? : Char → Option Anchor
  | 'A' => some .start
  | 'z' | 'Z' => some .stop
  | 'G' | 'b' | 'B' => some .within
  | _ => none

theorem mem_of_ofChar? {c : Char} {anchor : Anchor} (written : ofChar? c = some anchor) :
    (anchor = .start ∧ c ∈ ['^', 'A']) ∨ (anchor = .stop ∧ c ∈ ['$', 'z', 'Z']) := by
  simp only [ofChar?] at written
  split at written <;> cases written <;> decide

theorem mem_of_ofEscaped? {c : Char} {anchor : Anchor} (written : ofEscaped? c = some anchor) :
    (anchor = .start ∧ c = 'A') ∨ (anchor = .stop ∧ c ∈ ['z', 'Z']) ∨
      (anchor = .within ∧ c ∈ ['G', 'b', 'B']) := by
  simp only [ofEscaped?] at written
  split at written <;> cases written <;> decide

/-- The boundary that an anchor at `pos` stands for, given whether it stands at
the start and at the end of the pattern. -/
def atom (anchor : Anchor) (pos : Nat) (atStart atEnd : Bool) : Except ParseError Atom :=
  let holds := match anchor with
    | .start => atStart
    | .stop => atEnd
    | .within => false
  if holds then .ok .boundary else .error ⟨pos, .anchor⟩

end Anchor

end PatternTree
