import PatternTree.Scan

/-!
# The depth of a scan

The depth counts the groups that are open and the alternatives that each of
their sequences has ended.  A parenthesis and a bar add one to it, and a closing
parenthesis takes back all that has been added since its partner.
-/

namespace PatternTree

@[simp] theorem Draft.alternatives_push (draft : Draft) (piece : Piece) :
    (draft.push piece).alternatives = draft.alternatives := by
  unfold push
  split <;> rfl

namespace Scan

/-- What the open groups add to the depth, with the alternatives around them. -/
def outerDepth : List OpenGroup → Nat
  | [] => 0
  | group :: rest => group.outer.alternatives.length + 1 + outerDepth rest

theorem depth_eq_add (scan : Scan) :
    scan.depth = scan.draft.alternatives.length + outerDepth scan.enclosing := by
  have shift (enclosing : List OpenGroup) (start : Nat) :
      enclosing.foldl (fun count group => count + group.outer.alternatives.length + 1) start =
        start + outerDepth enclosing := by
    induction enclosing generalizing start with
    | nil => rfl
    | cons group rest ih =>
        rw [List.foldl_cons, ih, outerDepth]
        simp only [Nat.add_assoc]
  exact shift scan.enclosing scan.draft.alternatives.length

/-- Only the alternatives and the open groups matter to the depth. -/
theorem depth_congr {first second : Scan}
    (alternatives : first.draft.alternatives.length = second.draft.alternatives.length)
    (enclosing : first.enclosing = second.enclosing) : first.depth = second.depth := by
  rw [depth_eq_add, depth_eq_add, alternatives, enclosing]

end Scan

end PatternTree
