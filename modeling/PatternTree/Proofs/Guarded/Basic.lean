import PatternTree.Error

/-!
# Guarded reading

A reader that has lost its place need not fail.  A move can stop at the end of the text instead of
going beyond it, a counter can stay at zero, and a value that is missing can be replaced by some
other.  Each of these precautions would hide the mistake.

A guarded reader does the same as a reader, with its position as a number, and stops with a `Lapse`
where a precaution would be needed.  It gives the same answers if it never does.
-/

namespace PatternTree

/-- A need for a precaution. -/
inductive Lapse where
  /-- A move goes beyond the end of the text. -/
  | clamped
  /-- A part of a list does not lie in it. -/
  | outOfBounds
  /-- No character has the five low bits of a given one. -/
  | noControl
  /-- The length of a number in braces is asked for, and there is none. -/
  | noDigits
  /-- A hexadecimal number is greater than four digits can write. -/
  | overflow
  /-- No text is left to decode after a backslash. -/
  | emptyEscape
  /-- A call is left when none has been entered. -/
  | notEntered
  /-- A construct has taken no text. -/
  | standstill
  deriving DecidableEq, Repr

/-- Why a guarded reader stops early. -/
inductive Halt where
  | lapse (lapse : Lapse)
  | refusal (error : ParseError)
  deriving DecidableEq, Repr

/-- What a guarded reader comes to. -/
abbrev Guarded (α : Type) := Except Halt α

namespace Guarded

variable {α β : Type}

/-- What a reader with nothing to guard comes to. -/
def lift (result : Except ParseError α) : Guarded α :=
  result.mapError .refusal

@[simp] theorem lift_ok (value : α) : lift (.ok value : Except ParseError α) = .ok value := rfl

@[simp] theorem lift_error (error : ParseError) :
    lift (.error error : Except ParseError α) = .error (.refusal error) := rfl

@[simp] theorem pure_eq_ok (value : α) : (pure value : Guarded α) = .ok value := rfl

@[simp] theorem ok_bind (value : α) (next : α → Guarded β) :
    (Except.ok value >>= next) = next value := rfl

@[simp] theorem error_bind (halt : Halt) (next : α → Guarded β) :
    ((Except.error halt : Guarded α) >>= next) = .error halt := rfl

/-- What succeeds has succeeded in every step. -/
theorem exists_of_bind_eq_ok {result : Guarded α} {next : α → Guarded β} {value : β}
    (succeeds : (result >>= next) = .ok value) :
    ∃ first, result = .ok first ∧ next first = .ok value := by
  cases result with
  | error halt => cases succeeds
  | ok first => exact ⟨first, rfl, succeeds⟩

/-- The part of a list from `start` up to `stop`. -/
def slice (list : List α) (start stop : Nat) : Guarded (List α) :=
  if start ≤ stop ∧ stop ≤ list.length then .ok ((list.drop start).take (stop - start))
  else .error (.lapse .outOfBounds)

theorem slice_zero {list : List α} {stop : Nat} (inside : stop ≤ list.length) :
    slice list 0 stop = .ok (list.take stop) := by
  rw [slice, if_pos ⟨Nat.zero_le _, inside⟩, List.drop_zero, Nat.sub_zero]

/-- What a list begins with can be cut out of it. -/
theorem slice_front {front list : List α} (begins : front <+: list) :
    slice list 0 front.length = .ok front := by
  rw [slice_zero begins.length_le, ← List.prefix_iff_eq_take.mp begins]

theorem slice_length {list : List α} {start : Nat} (inside : start ≤ list.length) :
    slice list start list.length = .ok (list.drop start) := by
  rw [slice, if_pos ⟨inside, Nat.le_refl _⟩,
    List.take_of_length_le (Nat.le_of_eq List.length_drop)]

/-- The position `count` characters further on in a text. -/
def advance (text : List Char) (pos count : Nat) : Guarded Nat :=
  if pos + count ≤ text.length then .ok (pos + count) else .error (.lapse .clamped)

theorem advance_of_le {text : List Char} {pos count : Nat} (inside : pos + count ≤ text.length) :
    advance text pos count = .ok (pos + count) :=
  if_pos inside

theorem le_of_advance {text : List Char} {pos count next : Nat}
    (advanced : advance text pos count = .ok next) : next = pos + count ∧ next ≤ text.length := by
  rw [advance] at advanced
  split at advanced
  · next inside =>
      cases advanced
      exact ⟨rfl, inside⟩
  · cases advanced

end Guarded

end PatternTree
