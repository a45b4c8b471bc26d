import Mathlib.Logic.Function.Iterate

/-! A ring of slots that is written at a head which moves forwards, and read backwards from
the slot before it. -/

namespace Mitigador.Lib.Ring

variable {α : Type*} {size : Nat}

def next (pos : Fin size) : Fin size :=
  if inside : pos.val + 1 < size then ⟨pos + 1, inside⟩
  else ⟨0, Nat.zero_lt_of_lt pos.isLt⟩

def previous (pos : Fin size) : Fin size :=
  if pos.val = 0 then ⟨size - 1, Nat.sub_one_lt_of_lt pos.isLt⟩
  else ⟨pos - 1, Nat.lt_of_le_of_lt (Nat.sub_le ..) pos.isLt⟩

theorem val_next (pos : Fin size) :
    (next pos).val = if pos.val + 1 < size then pos.val + 1 else 0 := by
  by_cases inside : pos.val + 1 < size <;> simp [next, inside]

theorem val_previous (pos : Fin size) :
    (previous pos).val = if pos.val = 0 then size - 1 else pos.val - 1 := by
  by_cases first : pos.val = 0 <;> simp [previous, first]

theorem previous_next (pos : Fin size) : previous (next pos) = pos := by
  apply Fin.ext
  have bound := pos.isLt
  rw [val_previous, val_next]
  split <;> split <;> omega

def backwards (slots : Vector α size) (pos : Fin size) : Nat → List α
  | 0 => []
  | n + 1 => slots.get pos :: backwards slots (previous pos) n

theorem backwards_congr {slots others : Vector α size} {pos : Fin size} {n : Nat}
    (same : ∀ i < n, slots.get (previous^[i] pos) = others.get (previous^[i] pos)) :
    backwards slots pos n = backwards others pos n := by
  induction n generalizing pos with
  | zero => rfl
  | succ n ih =>
      have first := same 0 (Nat.zero_lt_succ n)
      have rest := ih fun i small => same (i + 1) (Nat.succ_lt_succ small)
      simp only [backwards, rest]
      exact congrArg (· :: _) first

theorem previous_iterate_ne (pos : Fin size) {i : Nat} (short : i + 1 < size) :
    previous^[i + 1] pos ≠ pos := by
  -- the distance back to `pos` goes down by one at each step
  have distance : ∀ j, j + 1 ≤ size → (previous^[j] pos).val =
      if j ≤ pos.val then pos.val - j else pos.val + size - j := by
    intro j
    induction j with
    | zero => simp
    | succ j ih =>
        intro within
        rw [Function.iterate_succ_apply', val_previous, ih (by omega)]
        split <;> split <;> split <;> omega
  intro same
  have met := distance (i + 1) (by omega)
  rw [same] at met
  have bound := pos.isLt
  split at met <;> omega

/-- What was written before the head, newest first, is what reading back from it gives, as far
as the ring reaches. -/
def Holds (slots : Vector α size) (head : Fin size) (written : List α) : Prop :=
  ∀ n ≤ min size written.length, backwards slots (previous head) n = written.take n

theorem Holds.empty (slots : Vector α size) (head : Fin size) : Holds slots head [] := by
  intro n short
  obtain rfl : n = 0 := by simpa using short
  rfl

theorem Holds.write {slots : Vector α size} {head : Fin size} {written : List α}
    (holds : Holds slots head written) (a : α) :
    Holds (slots.set head a head.isLt) (next head) (a :: written) := by
  intro n short
  rw [previous_next]
  cases n with
  | zero => rfl
  | succ n =>
      rw [Nat.le_min, List.length_cons] at short
      have rest : backwards (slots.set head a head.isLt) (previous head) n =
          backwards slots (previous head) n := by
        apply backwards_congr
        intro i small
        have other : previous^[i] (previous head) ≠ head := previous_iterate_ne head (by omega)
        exact Vector.getElem_set_ne _ _ (Fin.val_ne_of_ne other.symm)
      rw [backwards, rest, holds n (by omega), List.take_succ_cons]
      exact congrArg (· :: _) (Vector.getElem_set_self _)

end Mitigador.Lib.Ring
