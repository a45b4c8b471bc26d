import Mathlib.Data.List.Basic

/-! Buffered Go channels. A send or a close on a closed channel panics and answers `none`. -/

namespace Mitigador.Go

structure Chan (α : Type*) where
  capacity : Nat
  buffer : List α
  closed : Bool
  bounded : buffer.length ≤ capacity

namespace Chan

variable {α : Type*}

def make (capacity : Nat) : Chan α := ⟨capacity, [], false, Nat.zero_le _⟩

/-- A send that does not wait: the flag is false where the buffer is full and the value is not
sent. Nobody waits on an empty buffer of positive capacity, so a full one is the only obstacle. -/
def offer (c : Chan α) (value : α) : Option (Chan α × Bool) :=
  if c.closed then none
  else if room : c.buffer.length < c.capacity then
    some ({ c with
      buffer := c.buffer ++ [value]
      bounded := by simp only [List.length_append, List.length_singleton]; omega }, true)
  else some (c, false)

/-- A receive: `none` where it would wait, and no value where the channel is closed and empty. -/
def receive (c : Chan α) : Option (Option α × Chan α) :=
  match held : c.buffer with
  | value :: rest =>
      some (some value, { c with
        buffer := rest
        bounded := by
          have bound := c.bounded
          rw [held] at bound
          exact Nat.le_of_succ_le bound })
  | [] => if c.closed then some (none, c) else none

def close (c : Chan α) : Option (Chan α) :=
  if c.closed then none else some { c with closed := true }

theorem offer_open {c : Chan α} (value : α) (opened : c.closed = false) :
    ∃ next sent, c.offer value = some (next, sent) ∧ next.closed = false ∧
      next.capacity = c.capacity := by
  unfold offer
  rw [opened]
  split
  · contradiction
  · split
    · exact ⟨_, true, rfl, rfl, rfl⟩
    · exact ⟨c, false, rfl, opened, rfl⟩

theorem offer_spec {c next : Chan α} {value : α} {sent : Bool}
    (offered : c.offer value = some (next, sent)) :
    next.closed = c.closed ∧ next.capacity = c.capacity ∧
      next.buffer = c.buffer ++ (if sent then [value] else []) ∧
      (sent = false ↔ c.buffer.length = c.capacity) := by
  unfold offer at offered
  split at offered
  · contradiction
  · split at offered
    · next room =>
        cases offered
        exact ⟨rfl, rfl, rfl, by simp; omega⟩
    · next full =>
        cases offered
        have bound := c.bounded
        exact ⟨rfl, rfl, by simp, by simp; omega⟩

theorem offer_sent {c next : Chan α} {value : α} (sent : c.offer value = some (next, true)) :
    next.buffer = c.buffer ++ [value] := by
  unfold offer at sent
  split at sent
  · contradiction
  · split at sent
    · cases sent
      rfl
    · simp at sent

theorem offer_room {c next : Chan α} {value : α} {sent : Bool}
    (room : c.buffer.length < c.capacity) (offered : c.offer value = some (next, sent)) :
    next.buffer = c.buffer ++ [value] := by
  obtain ⟨-, -, queued, full⟩ := offer_spec offered
  cases sent with
  | true => exact queued
  | false => exact absurd (full.mp rfl) (Nat.ne_of_lt room)

theorem receive_value {c next : Chan α} {value : α}
    (received : c.receive = some (some value, next)) : c.buffer = value :: next.buffer := by
  unfold receive at received
  split at received
  · next head rest held =>
      cases received
      exact held
  · split at received <;> simp at received

theorem receive_shift {c next : Chan α} {value : Option α}
    (received : c.receive = some (value, next)) : c.buffer = value.toList ++ next.buffer := by
  unfold receive at received
  split at received
  · next head rest held =>
      cases received
      exact held
  · split at received
    · cases received
      rfl
    · contradiction

theorem receive_none {c : Chan α} (blocked : c.receive = none) : c.buffer = [] := by
  unfold receive at blocked
  split at blocked
  · contradiction
  · assumption

theorem receive_ended {c next : Chan α} (ended : c.receive = some (none, next)) :
    c.buffer = [] := by
  unfold receive at ended
  split at ended
  · simp at ended
  · assumption

theorem receive_closed {c next : Chan α} {value : Option α}
    (received : c.receive = some (value, next)) : next.closed = c.closed := by
  unfold receive at received
  split at received
  · cases received
    rfl
  · split at received
    · cases received
      rfl
    · contradiction

theorem receive_capacity {c next : Chan α} {value : Option α}
    (received : c.receive = some (value, next)) : next.capacity = c.capacity := by
  unfold receive at received
  split at received
  · cases received
    rfl
  · split at received
    · cases received
      rfl
    · contradiction

theorem close_spec {c next : Chan α} (closed : c.close = some next) :
    c.closed = false ∧ next = { c with closed := true } := by
  unfold close at closed
  split at closed
  · contradiction
  · next opened =>
      cases closed
      exact ⟨by simpa using opened, rfl⟩

theorem close_open {c : Chan α} (opened : c.closed = false) :
    c.close = some { c with closed := true } := by
  simp [close, opened]

inductive Attempt
  | handed
  | queued
  | full
  deriving DecidableEq, Repr

/-- `select { case c <- value: … default: … }`: a receiver that waits takes the value at once, also
where there is no buffer. -/
def attempt (c : Chan α) (waiting : Bool) (value : α) : Option (Chan α × Attempt) :=
  if c.closed then none
  else if waiting then some (c, .handed)
  else
    match c.offer value with
    | none => none
    | some (next, true) => some (next, .queued)
    | some (next, false) => some (next, .full)

theorem attempt_open {c : Chan α} (waiting : Bool) (value : α) (opened : c.closed = false) :
    ∃ next fate, c.attempt waiting value = some (next, fate) ∧ next.closed = false ∧
      (fate = .handed ∧ waiting = true ∧ next.buffer = c.buffer ∨
        fate = .queued ∧ waiting = false ∧ next.buffer = c.buffer ++ [value] ∨
        fate = .full ∧ waiting = false ∧ next.buffer = c.buffer ∧
          c.buffer.length = c.capacity) := by
  unfold attempt
  rw [opened]
  cases waiting with
  | true => exact ⟨c, .handed, rfl, opened, .inl ⟨rfl, rfl, rfl⟩⟩
  | false =>
      obtain ⟨next, sent, offered, open_, -⟩ := offer_open value opened
      obtain ⟨-, -, buffer, full⟩ := offer_spec offered
      rw [offered]
      cases sent with
      | true => exact ⟨next, .queued, rfl, open_, .inr (.inl ⟨rfl, rfl, buffer⟩)⟩
      | false =>
          rw [if_neg Bool.false_ne_true, List.append_nil] at buffer
          exact ⟨next, .full, rfl, open_, .inr (.inr ⟨rfl, rfl, buffer, full.mp rfl⟩)⟩

theorem attempt_full_iff {c next : Chan α} {waiting : Bool} {value : α} {fate : Attempt}
    (attempted : c.attempt waiting value = some (next, fate)) :
    fate = .full ↔ ¬ (waiting = true ∨ c.buffer.length < c.capacity) := by
  unfold attempt at attempted
  split at attempted
  · contradiction
  · cases waiting with
    | true =>
        cases attempted
        simp
    | false =>
        have bound := c.bounded
        rw [if_neg Bool.false_ne_true] at attempted
        split at attempted
        · contradiction
        · next offered =>
            cases attempted
            have full := (offer_spec offered).2.2.2
            simp only [Bool.true_eq_false, false_iff] at full
            simp only [reduceCtorEq, false_iff, Bool.false_eq_true, false_or, not_not]
            omega
        · next offered =>
            cases attempted
            have full := (offer_spec offered).2.2.2.mp rfl
            simp only [true_iff, Bool.false_eq_true, false_or]
            omega

end Chan

end Mitigador.Go
