import Mathlib.Data.List.Perm.Subperm
import PatternTree.Proofs.Scan.Descent
import PatternTree.Proofs.Scan.Evidence

/-!
# Progress

A descent goes through its text once and never back.  What happens in it happens in the order
of the positions, and no construct is looked at twice, as `Event.Precedes` says of any two
events.  No more calls are made inside one another than groups and alternatives may be open,
and the call around them: `Descent.nested` compares the counter of the calls with the depth of
the scan.

`Orderly` is the account of all that happens in the descent of a text, and
`Pattern.parse_progresses` gives it for the reading of any pattern.
-/

namespace PatternTree

namespace Scan

namespace Event

/-- Where in the text an event happens. -/
def pos : Event → Nat
  | dispatch pos | enter _ pos | leave pos => pos

@[simp] theorem pos_dispatch (pos : Nat) : (dispatch pos).pos = pos := rfl

@[simp] theorem pos_enter (caller pos : Nat) : (enter caller pos).pos = pos := rfl

@[simp] theorem pos_leave (pos : Nat) : (leave pos).pos = pos := rfl

def isEnter : Event → Bool
  | enter _ _ => true
  | dispatch _ | leave _ => false

def isLeave : Event → Bool
  | leave _ => true
  | dispatch _ | enter _ _ => false

/-- No event is behind an earlier one, and between two dispatches the position grows. -/
structure Precedes (earlier later : Event) : Prop where
  pos_le : earlier.pos ≤ later.pos
  dispatched_lt : ∀ first ∈ earlier.dispatched?, ∀ second ∈ later.dispatched?, first < second

theorem pos_eq_of_dispatched {event : Event} {pos : Nat} (dispatched : pos ∈ event.dispatched?) :
    event.pos = pos := by
  cases event with
  | dispatch => exact Option.some.inj dispatched
  | enter | leave => cases dispatched

theorem Precedes.of_pos_lt {earlier later : Event} (lt : earlier.pos < later.pos) :
    earlier.Precedes later where
  pos_le := Nat.le_of_lt lt
  dispatched_lt := by
    intro first atFirst second atSecond
    rwa [pos_eq_of_dispatched atFirst, pos_eq_of_dispatched atSecond] at lt

/-- A call that ends adds no dispatch. -/
theorem Precedes.leave {earlier : Event} {pos : Nat} (le : earlier.pos ≤ pos) :
    earlier.Precedes (.leave pos) where
  pos_le := le
  dispatched_lt := nofun

end Event

/-- How many calls are made. -/
def entered (events : List Event) : Nat :=
  events.countP Event.isEnter

/-- How many calls have ended. -/
def left (events : List Event) : Nat :=
  events.countP Event.isLeave

section

variable (caller pos : Nat) (events more : List Event)

@[simp] theorem entered_nil : entered [] = 0 := rfl

@[simp] theorem entered_dispatch : entered (.dispatch pos :: events) = entered events := rfl

@[simp] theorem entered_enter : entered (.enter caller pos :: events) = entered events + 1 :=
  List.countP_cons_of_pos rfl

@[simp] theorem entered_leave : entered (.leave pos :: events) = entered events := rfl

@[simp] theorem entered_append : entered (events ++ more) = entered events + entered more :=
  List.countP_append

@[simp] theorem left_nil : left [] = 0 := rfl

@[simp] theorem left_dispatch : left (.dispatch pos :: events) = left events := rfl

@[simp] theorem left_enter : left (.enter caller pos :: events) = left events := rfl

@[simp] theorem left_leave : left (.leave pos :: events) = left events + 1 :=
  List.countP_cons_of_pos rfl

@[simp] theorem left_append : left (events ++ more) = left events + left more :=
  List.countP_append

end

/-! ## The order of events -/

/-- All of `events` happen at `first` or later, and in the order of their positions. -/
structure Ordered (first : Nat) (events : List Event) : Prop where
  le_pos : ∀ event ∈ events, first ≤ event.pos
  pairwise : events.Pairwise Event.Precedes

namespace Ordered

variable {first last next : Nat} {events more : List Event}

theorem single {event : Event} (le : first ≤ event.pos) : Ordered first [event] where
  le_pos := by simpa using le
  pairwise := List.pairwise_singleton _ _

theorem dispatch (lt : first < next) (ordered : Ordered next events) :
    Ordered first (.dispatch first :: events) where
  le_pos := by
    simp only [List.forall_mem_cons, Event.pos_dispatch]
    exact ⟨Nat.le_refl _, fun event member =>
      Nat.le_trans (Nat.le_of_lt lt) (ordered.le_pos event member)⟩
  pairwise := by
    refine List.pairwise_cons.mpr ⟨fun event member => ?_, ordered.pairwise⟩
    exact .of_pos_lt (Nat.lt_of_lt_of_le lt (ordered.le_pos event member))

theorem enter (caller : Nat) (ordered : Ordered first events) :
    Ordered first (.enter caller first :: events) where
  le_pos := by
    simp only [List.forall_mem_cons, Event.pos_enter]
    exact ⟨Nat.le_refl _, ordered.le_pos⟩
  pairwise := by
    refine List.pairwise_cons.mpr ⟨fun event member => ?_, ordered.pairwise⟩
    exact ⟨ordered.le_pos event member, nofun⟩

theorem append (ordered : Ordered first events) (pos_le : ∀ event ∈ events, event.pos ≤ last)
    (le : first ≤ last) (lt : last < next) (rest : Ordered next more) :
    Ordered first (events ++ more) where
  le_pos := by
    refine List.forall_mem_append.mpr ⟨ordered.le_pos, fun event member => ?_⟩
    have later := rest.le_pos event member
    omega
  pairwise := by
    refine List.pairwise_append.mpr ⟨ordered.pairwise, rest.pairwise, ?_⟩
    intro earlier before later after
    have earlierLe := pos_le earlier before
    have nextLe := rest.le_pos later after
    exact .of_pos_lt (by omega)

theorem leave (ordered : Ordered first events) (pos_le : ∀ event ∈ events, event.pos ≤ last)
    (le : first ≤ last) : Ordered first (events ++ [.leave last]) where
  le_pos := List.forall_mem_append.mpr ⟨ordered.le_pos, by simpa using le⟩
  pairwise := by
    refine List.pairwise_append.mpr ⟨ordered.pairwise, List.pairwise_singleton _ _, ?_⟩
    intro earlier before later after
    obtain rfl := List.mem_singleton.mp after
    exact .leave (pos_le earlier before)

end Ordered

namespace Descent

variable {scan last : Scan} {events : List Event} {outcome : Except ParseError Scan}

/-- Nothing happens beyond the end of a descent. -/
theorem pos_le (descent : Descent scan events outcome) (succeeds : outcome = .ok last) :
    ∀ event ∈ events, event.pos ≤ last.pos := by
  induction descent generalizing last with
  | endOfText | closing =>
      cases succeeds
      simp
  | refused | calleeRefused | unclosed | groupQuantifier => cases succeeds
  | atom _ _ move rest ih =>
      have start_lt := pos_lt_of_move move
      have next_le := pos_le_of_reached (rest.reached succeeds)
      simp only [List.forall_mem_cons, Event.pos_dispatch]
      exact ⟨by omega, ih succeeds⟩
  | bar _ entered called ih =>
      have start_lt := pos_lt_of_move entered
      have next_le := pos_le_of_reached (called.reached succeeds)
      cases succeeds
      simp only [List.forall_mem_cons, List.forall_mem_append, Event.pos_dispatch, Event.pos_enter]
      exact ⟨by omega, by omega, ih rfl, by simp⟩
  | group _ entered called _ closed afterwards bodyIh restIh =>
      have start_lt := pos_lt_of_move entered
      have body_le := pos_le_of_reached (called.reached rfl)
      have close_lt := pos_lt_of_move closed
      have next_le := pos_le_of_reached (afterwards.reached succeeds)
      simp only [List.forall_mem_cons, List.forall_mem_append, Event.pos_dispatch, Event.pos_enter]
      refine ⟨by omega, by omega, fun event member => ?_, restIh succeeds⟩
      have inside := bodyIh rfl event member
      omega

/-- A descent goes through the text from its start, and never back. -/
theorem ordered (descent : Descent scan events outcome) : Ordered scan.pos events := by
  induction descent with
  | endOfText | refused => exact .single (Nat.le_refl _)
  | @closing scan =>
      have looked : Ordered scan.pos [.dispatch scan.pos] := .single (Nat.le_refl _)
      exact looked.leave (by simp) (Nat.le_refl _)
  | atom _ _ move _ ih => exact ih.dispatch (pos_lt_of_move move)
  | calleeRefused _ _ entered _ ih | unclosed _ entered _ _ ih
  | groupQuantifier _ entered _ _ _ ih => exact (ih.enter _).dispatch (pos_lt_of_move entered)
  | bar _ entered called ih =>
      have whole := ih.leave (called.pos_le rfl) (pos_le_of_reached (called.reached rfl))
      exact (whole.enter _).dispatch (pos_lt_of_move entered)
  | group _ entered called _ closed _ bodyIh restIh =>
      have whole := bodyIh.append (called.pos_le rfl) (pos_le_of_reached (called.reached rfl))
        (pos_lt_of_move closed) restIh
      exact (whole.enter _).dispatch (pos_lt_of_move entered)

end Descent

/-! ## The calls inside one another -/

theorem prefix_append_cases {front events more : List Event} (isFront : front <+: events ++ more) :
    front <+: events ∨ ∃ rest, rest <+: more ∧ front = events ++ rest := by
  obtain ⟨back, appendEq⟩ := isFront
  rcases List.append_eq_append_iff.mp appendEq with ⟨rest, eventsEq, _⟩ | ⟨rest, frontEq, moreEq⟩
  · exact .inl ⟨rest, eventsEq.symm⟩
  · exact .inr ⟨rest, ⟨back, moreEq.symm⟩, frontEq⟩

theorem depth_lt_of_opens {scan next : Scan} {head : Char} {tail : List Char}
    (unreadEq : scan.unread = head :: tail) (opens : head ∈ ['(', '|']) (move : Move scan next) :
    scan.depth < nestingLimit := by
  cases move with
  | openGroup _ room | openAlternative _ room => exact room
  | closeGroup closing =>
      cases unreadEq.symm.trans closing
      exact absurd opens (by decide)
  | takeAtom begins notOpening notBar =>
      cases unreadEq.symm.trans begins
      simp [notOpening, notBar] at opens

theorem depth_of_opens {scan next : Scan} {head : Char} {tail : List Char}
    (unreadEq : scan.unread = head :: tail) (opens : head ∈ ['(', '|']) (move : Move scan next) :
    next.depth = scan.depth + 1 := by
  obtain rfl | rfl : head = '(' ∨ head = '|' := by simpa using opens
  · exact depth_of_opening unreadEq move
  · exact depth_of_bar unreadEq move

/-- In the course of `events`, which begin with a call at `depth`, no more calls are made
inside one another than there is room for. -/
def Nested (depth : Nat) (events : List Event) : Prop :=
  ∀ front, front <+: events → depth + entered front ≤ left front + nestingLimit

namespace Nested

variable {depth : Nat} {events more : List Event}

theorem nil (room : depth ≤ nestingLimit) : Nested depth [] := by
  intro front isFront
  simp [List.prefix_nil.mp isFront, room]

theorem dispatch (pos : Nat) (nested : Nested depth events) :
    Nested depth (.dispatch pos :: events) := by
  intro front isFront
  rcases List.prefix_cons_iff.mp isFront with rfl | ⟨rest, rfl, isRest⟩
  · exact nested [] List.nil_prefix
  · simpa using nested rest isRest

theorem enter (caller pos : Nat) (nested : Nested (depth + 1) events) :
    Nested depth (.enter caller pos :: events) := by
  intro front isFront
  rcases List.prefix_cons_iff.mp isFront with rfl | ⟨rest, rfl, isRest⟩
  · have room := nested [] List.nil_prefix
    simp only [entered_nil, left_nil] at room ⊢
    omega
  · have within := nested rest isRest
    rw [entered_enter, left_enter]
    omega

theorem leave (pos : Nat) (nested : Nested depth events) :
    Nested depth (events ++ [.leave pos]) := by
  intro front isFront
  rcases List.prefix_concat_iff.mp isFront with rfl | isFront
  · have within := nested events (List.prefix_refl events)
    simp only [entered_append, entered_leave, entered_nil, left_append, left_leave, left_nil]
    omega
  · exact nested front isFront

theorem append {inner outer : Nat} (nested : Nested inner events) (deeper : inner = outer + 1)
    (balanced : left events = entered events + 1) (rest : Nested outer more) :
    Nested inner (events ++ more) := by
  intro front isFront
  rcases prefix_append_cases isFront with isFront | ⟨back, isBack, rfl⟩
  · exact nested front isFront
  · have within := rest back isBack
    simp only [entered_append, left_append]
    omega

/-- A call for what a parenthesis or a bar opens has room, and takes one level of it. -/
theorem opens {scan next : Scan} {head : Char} {tail : List Char}
    (unreadEq : scan.unread = head :: tail) (opens : head ∈ ['(', '|']) (entered : Move scan next)
    (nested : next.depth ≤ nestingLimit → Nested next.depth events) :
    Nested scan.depth (.dispatch scan.pos :: .enter scan.pos next.pos :: events) := by
  have room := depth_lt_of_opens unreadEq opens entered
  rw [depth_of_opens unreadEq opens entered] at nested
  exact ((nested room).enter _ _).dispatch _

end Nested

namespace Descent

variable {scan last : Scan} {events : List Event} {outcome : Except ParseError Scan}

/-- A descent that succeeds has left every call, its own among them. -/
theorem left_eq (descent : Descent scan events outcome) (succeeds : outcome = .ok last) :
    left events = entered events + 1 := by
  induction descent generalizing last with
  | endOfText | closing => simp
  | refused | calleeRefused | unclosed | groupQuantifier => cases succeeds
  | atom _ _ _ _ ih => simpa using ih succeeds
  | bar _ _ _ ih =>
      have balanced := ih rfl
      simp only [entered_dispatch, entered_enter, entered_append, entered_leave, entered_nil,
        left_dispatch, left_enter, left_append, left_leave, left_nil]
      omega
  | group _ _ _ _ _ _ bodyIh restIh =>
      have bodyBalanced := bodyIh rfl
      have restBalanced := restIh succeeds
      simp only [entered_dispatch, entered_enter, entered_append, left_dispatch, left_enter,
        left_append]
      omega

/-- The depth of the scan tells how many calls there is room for. -/
theorem nested (descent : Descent scan events outcome) (room : scan.depth ≤ nestingLimit) :
    Nested scan.depth events := by
  induction descent with
  | endOfText => exact (Nested.nil room).leave _
  | closing => exact ((Nested.nil room).leave _).dispatch _
  | refused => exact (Nested.nil room).dispatch _
  | atom unreadEq ordinary move _ ih =>
      have depthEq := (open_eq_of_ordinary unreadEq ordinary move).2
      rw [depthEq] at ih
      exact (ih room).dispatch _
  | calleeRefused unreadEq opens entered _ ih => exact .opens unreadEq opens entered ih
  | bar unreadEq entered _ ih =>
      exact .opens unreadEq (by decide) entered fun deeper => (ih deeper).leave _
  | unclosed opening entered _ _ ih | groupQuantifier opening entered _ _ _ ih =>
      exact .opens opening (by decide) entered ih
  | group opening entered called closing closed _ bodyIh restIh =>
      have group := Call.parenthesized opening entered (called.call rfl 1) closing closed
      rw [group.depth_eq] at restIh
      have depthEq := depth_of_opening opening entered
      exact .opens opening (by decide) entered fun deeper =>
        (bodyIh deeper).append depthEq (called.left_eq rfl) (restIh room)

end Descent

/-! ## The place of events in the text -/

/-- A scan that has its place in `text`, and is not beyond the end. -/
structure Within (text : List Char) (scan : Scan) : Prop extends Placed text scan where
  pos_le : scan.pos ≤ text.length

namespace Within

variable {text : List Char} {scan next : Scan}

theorem pos_lt {head : Char} {tail : List Char} (within : Within text scan)
    (unreadEq : scan.unread = head :: tail) : scan.pos < text.length :=
  Text.lt_length_of_drop (within.drop_pos.trans unreadEq)

theorem of_move (within : Within text scan) (move : Move scan next) : Within text next where
  toPlaced := placed_of_move within.toPlaced move
  pos_le := by
    obtain ⟨count, advanced⟩ := advanced_of_move move
    have countLe := advanced.count_le
    rw [← within.drop_pos, List.length_drop] at countLe
    rw [advanced.pos_eq]
    omega

theorem of_reached (within : Within text scan) (reached : Relation.ReflTransGen Move scan next) :
    Within text next := by
  induction reached with
  | refl => exact within
  | tail _ move ih => exact ih.of_move move

end Within

/-- What an event says of the text: a dispatch has a character to look at, a call begins
beyond the construct that it is made for, and ends where its sequence does. -/
def Event.IsSound (text : List Char) : Event → Prop
  | .dispatch pos => pos < text.length
  | .enter caller pos => caller < pos ∧ pos ≤ text.length
  | .leave pos => pos ≤ text.length ∧ (text.drop pos).head? ∈ [none, some ')']

theorem Event.IsSound.pos_le {text : List Char} {event : Event} (sound : event.IsSound text) :
    event.pos ≤ text.length := by
  cases event with
  | dispatch pos => exact Nat.le_of_lt sound
  | enter caller pos => exact sound.2
  | leave pos => exact sound.1

/-- No more constructs are looked at than there are characters. -/
theorem length_dispatches_le {text : List Char} {events : List Event}
    (sound : ∀ event ∈ events, event.IsSound text)
    (increase : (dispatches events).Pairwise (· < ·)) :
    (dispatches events).length ≤ text.length := by
  have subset : dispatches events ⊆ List.range text.length := by
    intro pos member
    obtain ⟨event, inEvents, dispatched⟩ := List.mem_filterMap.mp member
    cases event with
    | dispatch =>
        cases dispatched
        exact List.mem_range.mpr (sound _ inEvents)
    | enter | leave => cases dispatched
  simpa using (List.Nodup.subperm (increase.imp Nat.ne_of_lt) subset).length_le

namespace Descent

variable {text : List Char} {scan last : Scan} {events : List Event}
  {outcome : Except ParseError Scan}

theorem isSound (descent : Descent scan events outcome) (within : Within text scan) :
    ∀ event ∈ events, event.IsSound text := by
  have leaves {scan : Scan} (within : Within text scan)
      (ends : scan.unread.head? ∈ [none, some ')']) : (Event.leave scan.pos).IsSound text := by
    rw [← within.drop_pos] at ends
    exact ⟨within.pos_le, ends⟩
  have enters {scan next : Scan} (within : Within text scan) (move : Move scan next) :
      (Event.enter scan.pos next.pos).IsSound text :=
    ⟨pos_lt_of_move move, (within.of_move move).pos_le⟩
  induction descent with
  | endOfText unreadEq => simpa using leaves within (by simp [unreadEq])
  | closing unreadEq =>
      simp only [List.forall_mem_cons]
      exact ⟨within.pos_lt unreadEq, leaves within (by simp [unreadEq]), by simp⟩
  | refused unreadEq =>
      simp only [List.forall_mem_cons]
      exact ⟨within.pos_lt unreadEq, by simp⟩
  | atom unreadEq _ move _ ih =>
      simp only [List.forall_mem_cons]
      exact ⟨within.pos_lt unreadEq, ih (within.of_move move)⟩
  | calleeRefused unreadEq _ entered _ ih | unclosed unreadEq entered _ _ ih
  | groupQuantifier unreadEq entered _ _ _ ih =>
      simp only [List.forall_mem_cons]
      exact ⟨within.pos_lt unreadEq, enters within entered, ih (within.of_move entered)⟩
  | bar unreadEq entered called ih =>
      have inside := within.of_move entered
      have finished := inside.of_reached (called.reached rfl)
      simp only [List.forall_mem_cons, List.forall_mem_append]
      exact ⟨within.pos_lt unreadEq, enters within entered, ih inside,
        leaves finished (called.ends rfl), by simp⟩
  | group unreadEq entered called _ closed _ bodyIh restIh =>
      have inside := within.of_move entered
      have finished := inside.of_reached (called.reached rfl)
      simp only [List.forall_mem_cons, List.forall_mem_append]
      exact ⟨within.pos_lt unreadEq, enters within entered, bodyIh inside,
        restIh (finished.of_move closed)⟩

end Descent

/-- Each call is made right after the dispatch of the construct that it is made for. -/
def CallsAreDispatched (events : List Event) : Prop :=
  ∀ caller pos, .enter caller pos ∈ events → [.dispatch caller, .enter caller pos] <:+: events

namespace CallsAreDispatched

variable {events more : List Event} {event : Event}

theorem append (first : CallsAreDispatched events) (rest : CallsAreDispatched more) :
    CallsAreDispatched (events ++ more) := by
  intro caller pos member
  rcases List.mem_append.mp member with member | member
  · exact (first caller pos member).trans (List.prefix_append events more).isInfix
  · exact (rest caller pos member).trans (List.suffix_append events more).isInfix

theorem single (notEnter : event.isEnter = false) : CallsAreDispatched [event] := by
  intro caller pos member
  obtain rfl := List.mem_singleton.mp member
  cases notEnter

theorem opens (looked begun : Nat) :
    CallsAreDispatched [.dispatch looked, .enter looked begun] := by
  intro caller pos member
  obtain ⟨rfl, rfl⟩ : caller = looked ∧ pos = begun := by simpa using member
  exact List.infix_refl _

end CallsAreDispatched

namespace Descent

variable {text : String} {scan : Scan} {events : List Event} {outcome : Except ParseError Scan}

theorem callsAreDispatched (descent : Descent scan events outcome) :
    CallsAreDispatched events := by
  induction descent with
  | endOfText | refused => exact .single rfl
  | @closing scan => exact .append (.single rfl) (.single rfl)
  | atom _ _ _ _ ih => exact .append (.single rfl) ih
  | calleeRefused _ _ _ _ ih | unclosed _ _ _ _ ih | groupQuantifier _ _ _ _ _ ih =>
      exact .append (.opens _ _) ih
  | bar _ _ _ ih => exact .append (.opens _ _) (.append ih (.single rfl))
  | group _ _ _ _ _ _ bodyIh restIh => exact .append (.opens _ _) (.append bodyIh restIh)

end Descent

/-- What happens in the descent of a text makes progress. -/
structure Orderly (text : List Char) (events : List Event) : Prop where
  /-- From each dispatch to the next the position grows, so none is dispatched twice. -/
  dispatches_increase : (dispatches events).Pairwise (· < ·)
  dispatches_le : (dispatches events).length ≤ text.length
  /-- The position never goes back. -/
  positions_increase : (events.map Event.pos).Pairwise (· ≤ ·)
  positions_le : ∀ event ∈ events, event.pos ≤ text.length
  /-- A call begins beyond the construct that has just been looked at. -/
  enters : ∀ caller pos, .enter caller pos ∈ events →
    [.dispatch caller, .enter caller pos] <:+: events ∧ caller < pos
  /-- A call that succeeds ends at the end of the text or before a closing parenthesis. -/
  leaves : ∀ pos, .leave pos ∈ events → (text.drop pos).head? ∈ [none, some ')']
  /-- At any time there are the outermost call and at most 128 more that have been entered and
  not left. -/
  nested : ∀ front, front <+: events → entered front + 1 ≤ left front + 129

theorem within_start (text : List Char) : Within text { unread := text } where
  toPlaced := placed_start text
  pos_le := Nat.zero_le _

theorem Descent.orderly {text : List Char} {events : List Event}
    {outcome : Except ParseError Scan} (descent : Descent { unread := text } events outcome) :
    Orderly text events := by
  have precedes := descent.ordered.pairwise
  have sound := descent.isSound (within_start text)
  have increase : (dispatches events).Pairwise (· < ·) :=
    List.pairwise_filterMap.mpr (precedes.imp Event.Precedes.dispatched_lt)
  exact {
    dispatches_increase := increase
    dispatches_le := length_dispatches_le sound increase
    positions_increase := List.pairwise_map.mpr (precedes.imp Event.Precedes.pos_le)
    positions_le := fun event member => (sound event member).pos_le
    enters := fun caller pos member =>
      ⟨descent.callsAreDispatched caller pos member, (sound _ member).1⟩
    leaves := fun pos member => (sound _ member).2
    nested := by
      intro front isFront
      have within := descent.nested (Nat.zero_le _) front isFront
      rw [nestingLimit_eq] at within
      omega }

theorem unread_of_conclude {options : LimitOptions} {last : Scan} {pattern : Pattern}
    (concluded : conclude options last = .ok pattern) : last.unread = [] := by
  rw [conclude] at concluded
  split at concluded
  · next isEmpty => exact List.isEmpty_iff.mp isEmpty
  · cases concluded

/-- A pattern is read by a descent that ends where the text does. -/
theorem Descent.eq_ok_of_parse {text : String} {events : List Event}
    {outcome : Except ParseError Scan} {options : LimitOptions} {pattern : Pattern}
    (descent : Descent { unread := text.toList } events outcome)
    (parsed : Pattern.parse options text = .ok pattern) :
    ∃ last, outcome = .ok last ∧ last.pos = text.length ∧ last.unread = [] := by
  rw [descent.parse_eq options] at parsed
  cases outcome with
  | error error => cases parsed
  | ok last =>
      have unreadEq := unread_of_conclude parsed
      have within := (within_start text.toList).of_reached (descent.reached rfl)
      have reaches := List.drop_eq_nil_iff.mp (within.drop_pos.trans unreadEq)
      have posEq := Nat.le_antisymm within.pos_le reaches
      exact ⟨last, rfl, posEq.trans String.length_toList, unreadEq⟩

end Scan

/-- A call for a sequence is a total function of the scan.  A text is read with steps that take
the scan further on in it, and these are the dispatches of the descent of the text.  The
descent makes progress, and the reading of the pattern comes to what it comes to, which is a
pattern only if it ends where the text does. -/
theorem Pattern.parse_progresses (text : String) :
    (∀ scan, ∃! call : List Scan.Event × Except ParseError Scan,
      Scan.Descent scan call.1 call.2) ∧
    (∀ scan next, Relation.ReflTransGen Scan.Move { unread := text.toList } scan →
      Scan.Move scan next → scan.pos < next.pos ∧ next.pos ≤ text.length) ∧
    ∀ events outcome, Scan.Descent { unread := text.toList } events outcome →
      Scan.Orderly text.toList events ∧
      (∀ pos, pos ∈ Scan.dispatches events ↔
        ∃ scan, Relation.ReflTransGen Scan.Move { unread := text.toList } scan ∧
          scan.pos = pos ∧ scan.unread ≠ []) ∧
      ∀ options, parse options text = outcome.bind (Scan.conclude options) ∧
        ∀ pattern, parse options text = .ok pattern →
          ∃ last, outcome = .ok last ∧ last.pos = text.length ∧ last.unread = [] := by
  refine ⟨Scan.existsUnique_descent, ?_, ?_⟩
  · intro scan next reached move
    have within := ((Scan.within_start text.toList).of_reached reached).of_move move
    rw [← String.length_toList]
    exact ⟨Scan.pos_lt_of_move move, within.pos_le⟩
  · intro events outcome descent
    refine ⟨descent.orderly, fun pos => descent.mem_dispatches_iff rfl, fun options => ?_⟩
    exact ⟨descent.parse_eq options, fun pattern => descent.eq_ok_of_parse⟩

end PatternTree
