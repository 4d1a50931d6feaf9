import PatternTree.Scan

/-!
# What a finished draft holds

The alternatives of a draft become nested choices when it is finished, the last one
innermost.  What holds of choices holds of the whole then, by `Draft.finish_induction`.

A list that is made of a sequence piece by piece, and of a choice side by side, does not
see the nesting: it grows at its end as pieces are added.
-/

namespace PatternTree

/-- What holds of the last alternative, and of a choice if it holds of the right side, holds
of the finished sequence. -/
theorem Draft.finish_induction {holds : Sequence → Prop} {draft : Draft}
    (last : holds draft.pieces.reverse)
    (choice : ∀ left ∈ draft.alternatives, ∀ right, holds right →
      holds [⟨.once, .either left right⟩]) : holds draft.finish := by
  cases draft with
  | mk alternatives pieces =>
      simp only [finish] at choice ⊢
      generalize pieces.reverse = sequence at last ⊢
      induction alternatives generalizing sequence with
      | nil => exact last
      | cons left rest ih =>
          rw [List.foldl_cons]
          apply ih
          · intro other member
            exact choice other (List.mem_cons_of_mem _ member)
          · exact choice left List.mem_cons_self sequence last

/-- A list made of the pieces of a sequence in order.  It has nothing of a bare
boundary, and `separator` between the sides of a choice. -/
structure Listing {β : Type} (list : Sequence → List β) (separator : List β) : Prop where
  nil : list [] = []
  append : ∀ first second, list (first ++ second) = list first ++ list second
  boundary : list [⟨.once, .boundary⟩] = []
  either : ∀ left right, list [⟨.once, .either left right⟩] =
    list left ++ (separator ++ list right)

namespace Listing

variable {β : Type} {list : Sequence → List β} {separator : List β}

theorem foldl_either (listing : Listing list separator) (alternatives : List Sequence)
    (last : Sequence) :
    list (alternatives.foldl (fun right left => [⟨.once, .either left right⟩]) last) =
      alternatives.reverse.flatMap (fun left => list left ++ separator) ++ list last := by
  induction alternatives generalizing last with
  | nil => simp
  | cons left rest ih =>
      rw [List.foldl_cons, ih, listing.either]
      simp

theorem finish (listing : Listing list separator) (draft : Draft) :
    list draft.finish =
      draft.alternatives.reverse.flatMap (fun left => list left ++ separator) ++
        list draft.pieces.reverse :=
  listing.foldl_either draft.alternatives draft.pieces.reverse

theorem finish_empty (listing : Listing list separator) : list (Draft.finish {}) = [] :=
  listing.nil

theorem finish_split (listing : Listing list separator) (draft : Draft) :
    list draft.split.finish = list draft.finish ++ separator := by
  rw [listing.finish, listing.finish, Draft.split]
  simp [listing.nil]

theorem finish_push (listing : Listing list separator) (draft : Draft) (piece : Piece) :
    list (draft.push piece).finish = list draft.finish ++ list [piece] := by
  unfold Draft.push
  split
  · rw [listing.boundary, List.append_nil]
  · rw [listing.finish, listing.finish, List.reverse_cons, listing.append, List.append_assoc]

end Listing

end PatternTree
