import PatternTree.Proofs.Scan.Depth
import PatternTree.Proofs.Scan.Move

/-!
# The calls of a scan

A scan keeps what is open in its state and never counts it.  It can also be seen as made of
calls that count: one for each sequence, one for each group and one for all that comes after
a bar, each inside the one that it was entered from.  A counter goes up when a group or an
alternative is entered, and down when it is left.

`Call` says what a finished call does, and `Call.left_eq` that it leaves the counter as it
was.  `UnderWay` says which calls are unfinished where a scan stands.  The counter is the
depth of the scan there, by `underWay_of_reached`.
-/

namespace PatternTree.Scan

/-- The constructs that are read by a call. -/
inductive Construct where
  | sequence
  /-- A parenthesized group with its quantifier. -/
  | group
  /-- A bar and all that comes after it in its sequence. -/
  | alternatives

/-- What a move does to the drafts, by the character that it begins with. -/
def Effect (scan next : Scan) : Char → Prop
  | '(' => ∃ id, next.draft = {} ∧ next.enclosing = ⟨scan.pos, id, scan.draft⟩ :: scan.enclosing
  | '|' => next.draft = scan.draft.split ∧ next.enclosing = scan.enclosing
  | ')' => ∃ group piece, scan.enclosing = group :: next.enclosing ∧
      next.draft = group.outer.push piece
  | _ => ∃ piece, next.draft = scan.draft.push piece ∧ next.enclosing = scan.enclosing

theorem effect_of_move {scan next : Scan} {head : Char} {tail : List Char}
    (unreadEq : scan.unread = head :: tail) (move : Move scan next) : Effect scan next head := by
  cases move with
  | openGroup opening =>
      cases unreadEq.symm.trans opening
      exact ⟨_, rfl, rfl⟩
  | openAlternative bar =>
      cases unreadEq.symm.trans bar
      exact ⟨rfl, rfl⟩
  | closeGroup closing enclosingEq =>
      cases unreadEq.symm.trans closing
      exact ⟨_, _, enclosingEq, rfl⟩
  | takeAtom begins notOpening notBar notClosing =>
      cases unreadEq.symm.trans begins
      unfold Effect
      split
      · exact absurd rfl notOpening
      · exact absurd rfl notBar
      · exact absurd rfl notClosing
      · exact ⟨_, rfl, rfl⟩

/-- An atom that holds no sequence opens nothing and closes nothing. -/
theorem open_eq_of_ordinary {scan next : Scan} {head : Char} {tail : List Char}
    (unreadEq : scan.unread = head :: tail) (ordinary : head ∉ ['(', '|', ')'])
    (move : Move scan next) : next.enclosing = scan.enclosing ∧ next.depth = scan.depth := by
  have effect := effect_of_move unreadEq move
  unfold Effect at effect
  split at effect
  · exact absurd (by decide) ordinary
  · exact absurd (by decide) ordinary
  · exact absurd (by decide) ordinary
  · obtain ⟨piece, draftEq, enclosingEq⟩ := effect
    exact ⟨enclosingEq, depth_congr (by rw [draftEq, Draft.alternatives_push]) enclosingEq⟩

theorem depth_of_bar {scan next : Scan} {tail : List Char} (unreadEq : scan.unread = '|' :: tail)
    (move : Move scan next) : next.depth = scan.depth + 1 := by
  obtain ⟨draftEq, enclosingEq⟩ := effect_of_move unreadEq move
  rw [depth_eq_add, depth_eq_add, draftEq, enclosingEq, Draft.split, List.length_cons]
  omega

theorem depth_of_opening {scan next : Scan} {tail : List Char}
    (unreadEq : scan.unread = '(' :: tail) (move : Move scan next) :
    next.depth = scan.depth + 1 := by
  obtain ⟨id, draftEq, enclosingEq⟩ := effect_of_move unreadEq move
  simp only [depth_eq_add, draftEq, enclosingEq, outerDepth, List.length_nil]
  omega

/-- `Call construct scan count last left` reads the construct at the front of `scan` as far
as `last`.  The counter is at `count` before the call and at `left` after it. -/
inductive Call : Construct → Scan → Nat → Scan → Nat → Prop where
  /-- A sequence ends at the end of the text or before a closing parenthesis. -/
  | done {scan : Scan} {count : Nat} (ends : scan.unread.head? ∈ [none, some ')']) :
      Call .sequence scan count scan count
  | atom {scan next last : Scan} {count left : Nat} {head : Char} {tail : List Char}
      (unreadEq : scan.unread = head :: tail) (ordinary : head ∉ ['(', '|', ')'])
      (move : Move scan next) (rest : Call .sequence next count last left) :
      Call .sequence scan count last left
  | group {scan next last : Scan} {count between left : Nat}
      (called : Call .group scan count next between)
      (rest : Call .sequence next between last left) : Call .sequence scan count last left
  /-- After a bar nothing is left of the sequence. -/
  | alternatives {scan last : Scan} {count left : Nat}
      (called : Call .alternatives scan count last left) : Call .sequence scan count last left
  | parenthesized {scan body last next : Scan} {count left : Nat} {tail rest : List Char}
      (opening : scan.unread = '(' :: tail) (entered : Move scan body)
      (called : Call .sequence body (count + 1) last left)
      (closing : last.unread = ')' :: rest) (closed : Move last next) :
      Call .group scan count next (left - 1)
  | bar {scan next last : Scan} {count left : Nat} {tail : List Char}
      (unreadEq : scan.unread = '|' :: tail) (entered : Move scan next)
      (called : Call .sequence next (count + 1) last left) :
      Call .alternatives scan count last (left - 1)

namespace Call

variable {construct : Construct} {scan next last : Scan} {count left : Nat}

/-- A finished call leaves the counter as it was. -/
theorem left_eq (call : Call construct scan count last left) : left = count := by
  induction call with
  | done => rfl
  | atom _ _ _ _ ih => exact ih
  | group _ _ calledEq restEq => exact restEq.trans calledEq
  | alternatives _ ih => exact ih
  | parenthesized _ _ _ _ _ ih | bar _ _ _ ih =>
      rw [ih]
      rfl

/-- A finished call has closed the groups that it has opened. -/
theorem enclosing_eq (call : Call construct scan count last left) :
    last.enclosing = scan.enclosing := by
  induction call with
  | done => rfl
  | atom unreadEq ordinary move _ ih =>
      exact ih.trans (open_eq_of_ordinary unreadEq ordinary move).1
  | group _ _ calledEq restEq => exact restEq.trans calledEq
  | alternatives _ ih => exact ih
  | parenthesized opening entered _ closing closed ih =>
      obtain ⟨_, _, opened⟩ := effect_of_move opening entered
      obtain ⟨_, _, closedEq, _⟩ := effect_of_move closing closed
      rw [ih, opened] at closedEq
      exact (List.cons.inj closedEq).2.symm
  | bar unreadEq entered _ ih => exact ih.trans (effect_of_move unreadEq entered).2

/-- A group becomes a piece of the draft that it was opened in. -/
theorem depth_eq (call : Call .group scan count next left) : next.depth = scan.depth := by
  have enclosingEq := call.enclosing_eq
  cases call with
  | parenthesized opening entered called closing closed =>
      obtain ⟨id, _, opened⟩ := effect_of_move opening entered
      obtain ⟨group, piece, closedEq, draftEq⟩ := effect_of_move closing closed
      rw [called.enclosing_eq, opened] at closedEq
      cases (List.cons.inj closedEq).1
      refine depth_congr ?_ enclosingEq
      rw [draftEq, Draft.alternatives_push]

end Call

/-- From `start`, where the counter was at `base`, a sequence has been read as far as `scan`,
where the counter is at `count`.  The groups on the way are behind; the alternatives have not
been left. -/
inductive Reading (start : Scan) (base : Nat) : Scan → Nat → Prop where
  | start : Reading start base start base
  | atom {scan next : Scan} {count : Nat} {head : Char} {tail : List Char}
      (before : Reading start base scan count) (unreadEq : scan.unread = head :: tail)
      (ordinary : head ∉ ['(', '|', ')']) (move : Move scan next) : Reading start base next count
  | group {scan next : Scan} {count left : Nat} (before : Reading start base scan count)
      (called : Call .group scan count next left) : Reading start base next left
  | bar {scan next : Scan} {count : Nat} {tail : List Char}
      (before : Reading start base scan count) (unreadEq : scan.unread = '|' :: tail)
      (entered : Move scan next) : Reading start base next (count + 1)

namespace Reading

variable {start scan last : Scan} {base count : Nat}

/-- With the rest of its sequence, what has been read is a finished call. -/
theorem call (reading : Reading start base scan count)
    (rest : Call .sequence scan count last count) : Call .sequence start base last base := by
  induction reading with
  | start => exact rest
  | atom _ unreadEq ordinary move ih => exact ih (.atom unreadEq ordinary move rest)
  | group _ called ih =>
      cases called.left_eq
      exact ih (.group called rest)
  | bar _ unreadEq entered ih => exact ih (.alternatives (.bar unreadEq entered rest))

theorem enclosing_eq (reading : Reading start base scan count) :
    scan.enclosing = start.enclosing := by
  induction reading with
  | start => rfl
  | atom _ unreadEq ordinary move ih =>
      exact (open_eq_of_ordinary unreadEq ordinary move).1.trans ih
  | group _ called ih => exact called.enclosing_eq.trans ih
  | bar _ unreadEq entered ih => exact (effect_of_move unreadEq entered).2.trans ih

theorem depth_eq (reading : Reading start base scan count) (startEq : start.depth = base) :
    scan.depth = count := by
  induction reading with
  | start => exact startEq
  | atom _ unreadEq ordinary move ih =>
      exact (open_eq_of_ordinary unreadEq ordinary move).2.trans ih
  | group _ called ih => rw [called.left_eq, called.depth_eq, ih]
  | bar _ unreadEq entered ih => rw [depth_of_bar unreadEq entered, ih]

end Reading

/-- The calls that the scan from `start` is in where it stands at `scan`, and the counter
there. -/
inductive UnderWay (start : Scan) : Scan → Nat → Prop where
  | outermost {scan : Scan} {count : Nat} (reading : Reading start 0 scan count) :
      UnderWay start scan count
  | inGroup {outside body scan : Scan} {before count : Nat} {tail : List Char}
      (around : UnderWay start outside before) (opening : outside.unread = '(' :: tail)
      (entered : Move outside body) (reading : Reading body (before + 1) scan count) :
      UnderWay start scan count

namespace UnderWay

variable {start scan next : Scan} {count more : Nat}

/-- What goes on with the innermost sequence goes on with all of them. -/
theorem extend (underWay : UnderWay start scan count)
    (goesOn : ∀ {inner base}, Reading inner base scan count → Reading inner base next more) :
    UnderWay start next more := by
  cases underWay with
  | outermost reading => exact .outermost (goesOn reading)
  | inGroup around opening entered reading =>
      exact .inGroup around opening entered (goesOn reading)

/-- Where a parenthesis closes, the innermost call is finished. -/
theorem of_closing {tail : List Char} (outermost : start.enclosing = [])
    (underWay : UnderWay start scan count) (closing : scan.unread = ')' :: tail)
    (move : Move scan next) : ∃ more, UnderWay start next more := by
  have ends : scan.unread.head? ∈ [none, some ')'] := by
    rw [closing]
    simp
  cases underWay with
  | outermost reading =>
      obtain ⟨group, _, enclosingEq, _⟩ := effect_of_move closing move
      rw [reading.enclosing_eq, outermost] at enclosingEq
      cases enclosingEq
  | inGroup around opening entered reading =>
      -- All alternatives of the group end with it, so the counter is back where it opened.
      have finished := reading.call (.done ends)
      have group := Call.parenthesized opening entered finished closing move
      exact ⟨_, around.extend fun before => .group before group⟩

theorem of_move (outermost : start.enclosing = []) (underWay : UnderWay start scan count)
    (move : Move scan next) : ∃ more, UnderWay start next more := by
  -- The next character decides whether a call begins, ends or goes on.
  obtain ⟨head, tail, unreadEq, _⟩ := step_of_move move
  by_cases opening : head = '('
  · subst opening
    exact ⟨_, .inGroup underWay unreadEq move .start⟩
  by_cases bar : head = '|'
  · subst bar
    exact ⟨_, underWay.extend fun before => .bar before unreadEq move⟩
  by_cases closing : head = ')'
  · subst closing
    exact underWay.of_closing outermost unreadEq move
  · have ordinary : head ∉ ['(', '|', ')'] := by simp [opening, bar, closing]
    exact ⟨_, underWay.extend fun before => .atom before unreadEq ordinary move⟩

/-- The counter is at the depth of the scan. -/
theorem depth_eq (shallow : start.depth = 0) (underWay : UnderWay start scan count) :
    scan.depth = count := by
  induction underWay with
  | outermost reading => exact reading.depth_eq shallow
  | inGroup _ opening entered reading ih =>
      apply reading.depth_eq
      rw [depth_of_opening opening entered, ih]

end UnderWay

variable {text : List Char} {scan last : Scan}

theorem underWay_of_reached (reached : Relation.ReflTransGen Move { unread := text } scan) :
    UnderWay { unread := text } scan scan.depth := by
  have exists_underWay : ∃ count, UnderWay { unread := text } scan count := by
    induction reached with
    | refl => exact ⟨0, .outermost .start⟩
    | tail _ move ih =>
        obtain ⟨count, underWay⟩ := ih
        exact underWay.of_move rfl move
  obtain ⟨count, underWay⟩ := exists_underWay
  rwa [underWay.depth_eq rfl]

/-- A text that is read is a sequence. -/
theorem call_of_run (ran : Scan.run { unread := text } = .ok last) (closed : last.enclosing = []) :
    Call .sequence { unread := text } 0 last 0 := by
  have kept {scan next : Scan} (reached : Relation.ReflTransGen Move { unread := text } scan)
      (move : Move scan next) : Relation.ReflTransGen Move { unread := text } next :=
    reached.tail move
  obtain ⟨reached, unreadEq⟩ := invariant_of_run kept .refl ran
  have ends : last.unread.head? ∈ [none, some ')'] := by
    rw [unreadEq]
    decide
  cases underWay_of_reached reached with
  | outermost reading => exact reading.call (.done ends)
  | inGroup _ opening entered reading =>
      obtain ⟨_, _, opened⟩ := effect_of_move opening entered
      rw [reading.enclosing_eq, opened] at closed
      cases closed

end PatternTree.Scan
