import Mathlib.Algebra.Order.Group.Unbundled.Int
import Mathlib.Data.List.Pairwise

/-! One pass over a list in descending rank that collects the matching entries of the greatest
matching rank. Ranks are never negative, so -1 can stand for "no match yet". -/

namespace Mitigador.Lib

variable {α : Type*} (fits : α → Bool) (rank : α → Int)

def longest : Int → List α → List α
  | _, [] => []
  | best, entry :: rest =>
      if !fits entry then longest best rest
      else
        let best := if best = -1 then rank entry else best
        if rank entry < best then [] else entry :: longest best rest

def isLongest (entries : List α) (entry : α) : Bool :=
  fits entry && entries.all fun other => !fits other || decide (rank other ≤ rank entry)

theorem isLongest_iff (entries : List α) (entry : α) :
    isLongest fits rank entries entry = true ↔
      fits entry = true ∧ ∀ other ∈ entries, fits other = true → rank other ≤ rank entry := by
  simp only [isLongest, Bool.and_eq_true, List.all_eq_true, Bool.or_eq_true, Bool.not_eq_true',
    decide_eq_true_eq]
  refine and_congr_right fun _ => forall_congr' fun other => forall_congr' fun _ => ?_
  cases fits other <;> simp

variable {fits rank}

theorem longest_known {best : Int} (known : best ≠ -1) {entries : List α}
    (sorted : entries.Pairwise fun first second => rank second ≤ rank first)
    (below : ∀ entry ∈ entries, fits entry = true → rank entry ≤ best) :
    longest fits rank best entries =
      entries.filter fun entry => fits entry && decide (rank entry = best) := by
  induction entries with
  | nil => rfl
  | cons head tail ih =>
      obtain ⟨dominates, ordered⟩ := List.pairwise_cons.mp sorted
      have rest := ih ordered fun entry member => below entry (List.mem_cons_of_mem head member)
      cases matching : fits head with
      | false => simp [longest, matching, rest]
      | true =>
          have bound := below head List.mem_cons_self matching
          by_cases short : rank head < best
          · have stopped : (head :: tail).filter
                (fun entry => fits entry && decide (rank entry = best)) = [] := by
              apply List.filter_eq_nil_iff.mpr
              intro entry member
              rcases List.mem_cons.mp member with rfl | member
              · simp [short.ne]
              · have lower := dominates entry member
                simp [(lower.trans_lt short).ne]
            rw [stopped]
            simp [longest, matching, known, short]
          · have equal : rank head = best := le_antisymm bound (not_lt.mp short)
            simp [longest, matching, known, equal, rest]

theorem longest_eq_filter {entries : List α}
    (sorted : entries.Pairwise fun first second => rank second ≤ rank first)
    (nonneg : ∀ entry ∈ entries, fits entry = true → 0 ≤ rank entry) :
    longest fits rank (-1) entries = entries.filter (isLongest fits rank entries) := by
  induction entries with
  | nil => rfl
  | cons head tail ih =>
      obtain ⟨dominates, ordered⟩ := List.pairwise_cons.mp sorted
      cases matching : fits head with
      | false =>
          have rest := ih ordered fun entry member =>
            nonneg entry (List.mem_cons_of_mem head member)
          have same : isLongest fits rank (head :: tail) = isLongest fits rank tail := by
            funext entry
            simp [isLongest, matching]
          have dropped : isLongest fits rank tail head = false := by simp [isLongest, matching]
          rw [same, List.filter_cons, dropped]
          simp [longest, matching, rest]
      | true =>
          have known : rank head ≠ -1 := by
            have low := nonneg head List.mem_cons_self matching
            omega
          have rest : longest fits rank (rank head) tail = tail.filter
              fun entry => fits entry && decide (rank entry = rank head) :=
            longest_known known ordered fun entry member _ => dominates entry member
          have top : ∀ entry ∈ head :: tail, isLongest fits rank (head :: tail) entry =
              (fits entry && decide (rank entry = rank head)) := by
            intro entry member
            have upper : rank entry ≤ rank head := by
              rcases List.mem_cons.mp member with rfl | member
              · exact le_rfl
              · exact dominates entry member
            rw [Bool.eq_iff_iff, isLongest_iff, Bool.and_eq_true, decide_eq_true_eq]
            constructor
            · intro ⟨fitting, greatest⟩
              exact ⟨fitting, le_antisymm upper (greatest head List.mem_cons_self matching)⟩
            · intro ⟨fitting, equal⟩
              refine ⟨fitting, ?_⟩
              intro other present _
              rw [equal]
              rcases List.mem_cons.mp present with rfl | present
              · exact le_rfl
              · exact dominates other present
          rw [List.filter_congr top]
          simp [longest, matching, rest]

theorem mem_longest {entries : List α}
    (sorted : entries.Pairwise fun first second => rank second ≤ rank first)
    (nonneg : ∀ entry ∈ entries, fits entry = true → 0 ≤ rank entry) (entry : α) :
    entry ∈ longest fits rank (-1) entries ↔ entry ∈ entries ∧ fits entry = true ∧
      ∀ other ∈ entries, fits other = true → rank other ≤ rank entry := by
  rw [longest_eq_filter sorted nonneg, List.mem_filter, isLongest_iff]

theorem longest_eq_nil_iff {entries : List α} :
    longest fits rank (-1) entries = [] ↔ ∀ entry ∈ entries, fits entry = false := by
  induction entries with
  | nil => simp [longest]
  | cons head tail ih =>
      cases matching : fits head with
      | false => simp [longest, matching, ih]
      | true => simp [longest, matching]

end Mitigador.Lib
