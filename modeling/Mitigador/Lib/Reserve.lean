import Mathlib.Data.Finset.Card

/-! A table of bounded size in which a place is reserved when an entry is asked for, and taken when
the entry arrives. Places are made free by the reservations alone. -/

namespace Mitigador.Lib

structure Places (α : Type*) where
  kept : Finset α
  pending : Finset α

inductive Turn (α : Type*)
  | quiet
  | reserve (x : α)
  | fill (x : α)

variable {α : Type*} [DecidableEq α]

inductive Reserve : Places α → Turn α → Places α → Prop
  | quiet (s : Places α) : Reserve s .quiet s
  | reserve {s : Places α} {left : Finset α} (x : α) (fresh : x ∉ s.pending)
      (less : left ⊆ s.kept) : Reserve s (.reserve x) ⟨left, insert x s.pending⟩
  | fill {s : Places α} (x : α) (due : x ∈ s.pending) :
      Reserve s (.fill x) ⟨insert x s.kept, s.pending.erase x⟩

namespace Places

def Room (limit : Nat) (s : Places α) (turn : Turn α) : Prop :=
  ∀ x, turn = .fill x → x ∈ s.kept ∨ s.kept.card < limit

def claimed (s : Places α) : Nat := s.kept.card + (s.pending \ s.kept).card

end Places

variable {limit : Nat} {s next : Places α} {turn : Turn α}

theorem Reserve.card_le_iff (moved : Reserve s turn next) (bound : s.kept.card ≤ limit) :
    next.kept.card ≤ limit ↔ s.Room limit turn := by
  cases moved with
  | quiet => exact iff_of_true bound fun x impossible => by contradiction
  | reserve x fresh less =>
      have fewer := Finset.card_le_card less
      exact iff_of_true (fewer.trans bound) fun y impossible => by contradiction
  | fill x due =>
      by_cases present : x ∈ s.kept
      · rw [Finset.insert_eq_of_mem present]
        refine iff_of_true bound ?_
        rintro y ⟨⟩
        exact .inl present
      · rw [Finset.card_insert_of_notMem present]
        constructor
        · rintro grown y ⟨⟩
          exact .inr grown
        · intro room
          exact (room x rfl).resolve_left present

/-- If every reservation leaves places for all that the table waits for, none is ever missing. -/
theorem Reserve.claimed_le (moved : Reserve s turn next) (bound : s.claimed ≤ limit)
    (spare : ∀ x, turn = .reserve x → next.kept.card + s.pending.card < limit) :
    next.claimed ≤ limit := by
  cases moved with
  | quiet => exact bound
  | @reserve left x fresh less =>
      have enough : left.card + s.pending.card < limit := spare x rfl
      have waiting : (insert x s.pending \ left).card ≤ s.pending.card + 1 :=
        (Finset.card_le_card Finset.sdiff_subset).trans (Finset.card_insert_le x s.pending)
      change left.card + (insert x s.pending \ left).card ≤ limit
      omega
  | fill x due =>
      unfold Places.claimed at bound ⊢
      dsimp only
      by_cases present : x ∈ s.kept
      · have same : s.pending.erase x \ insert x s.kept = s.pending \ s.kept := by
          grind
        rw [same, Finset.insert_eq_of_mem present]
        exact bound
      · have fewer : s.pending.erase x \ insert x s.kept = (s.pending \ s.kept).erase x := by
          grind
        have waited : x ∈ s.pending \ s.kept := Finset.mem_sdiff.mpr ⟨due, present⟩
        rw [fewer, Finset.card_insert_of_notMem present, Finset.card_erase_of_mem waited]
        have some := Finset.card_pos.mpr ⟨x, waited⟩
        omega

end Mitigador.Lib
