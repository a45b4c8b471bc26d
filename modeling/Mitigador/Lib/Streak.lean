import Mathlib.Data.List.TakeWhile

/-! The number of most recent entries of a history that all satisfy a test; the history
lists its newest entry first. -/

namespace Mitigador.Lib

variable {α : Type*}

def streak (test : α → Bool) (history : List α) : Nat :=
  (history.takeWhile test).length

@[simp] theorem streak_nil (test : α → Bool) : streak test [] = 0 := rfl

theorem streak_cons (test : α → Bool) (entry : α) (history : List α) :
    streak test (entry :: history) =
      if test entry then streak test history + 1 else 0 := by
  by_cases holds : test entry <;> simp [streak, holds]

theorem streak_cons_pos (test : α → Bool) {entry : α} (history : List α)
    (holds : test entry = true) :
    streak test (entry :: history) = streak test history + 1 := by
  simp [streak_cons, holds]

theorem streak_cons_neg (test : α → Bool) {entry : α} (history : List α)
    (fails : test entry = false) : streak test (entry :: history) = 0 := by
  simp [streak_cons, fails]

theorem le_streak_iff (test : α → Bool) (history : List α) (count : Nat) :
    count ≤ streak test history ↔
      ∀ index < count, ∃ entry, history[index]? = some entry ∧ test entry = true := by
  induction history generalizing count with
  | nil =>
      constructor
      · intro bound index below
        simp only [streak_nil, Nat.le_zero] at bound
        omega
      · intro all
        by_contra positive
        obtain ⟨entry, present, -⟩ := all 0 (by simp at positive; omega)
        simp at present
  | cons head history ih =>
      cases count with
      | zero => simp
      | succ count =>
          cases holds : test head with
          | false =>
              rw [streak_cons_neg test history holds]
              constructor
              · intro bound
                omega
              · intro all
                obtain ⟨entry, present, passed⟩ := all 0 (by omega)
                simp only [List.getElem?_cons_zero, Option.some.injEq] at present
                rw [present, passed] at holds
                contradiction
          | true =>
              rw [streak_cons_pos test history holds, Nat.add_le_add_iff_right, ih count]
              constructor
              · intro all index below
                cases index with
                | zero => exact ⟨head, rfl, holds⟩
                | succ index => exact all index (by omega)
              · intro all index below
                exact all (index + 1) (by omega)

end Mitigador.Lib
