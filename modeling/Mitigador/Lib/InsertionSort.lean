import Mathlib.Data.List.FinRange
import Mathlib.Order.Lattice

/-! Insertion sort in place, largest key first: every element is swapped leftwards until the one
before it is not smaller. -/

namespace Mitigador.Lib

variable {α κ : Type*} [LinearOrder κ] {size : Nat} (key : α → κ)

def sink (items : Vector α size) : (j : Nat) → j < size → Vector α size
  | 0, _ => items
  | j + 1, inside =>
      if key items[j + 1] > key items[j] then
        sink (items.swap (j + 1) j) j (Nat.lt_of_succ_lt inside)
      else items

def sortVector (items : Vector α size) : Vector α size :=
  ((List.finRange size).drop 1).foldl (fun items (i : Fin size) => sink key items i i.isLt) items

def sortDescending (items : List α) : List α :=
  (sortVector key items.toArray.toVector).toList

variable {key}

theorem sink_perm (items : Vector α size) (j : Nat) (inside : j < size) :
    (sink key items j inside).Perm items := by
  induction j generalizing items with
  | zero => exact .rfl
  | succ j ih =>
      rw [sink]
      split
      · exact (ih _ _).trans (Vector.swap_perm _ _)
      · exact .rfl

def SortedTo (key : α → κ) (items : Vector α size) (count : Nat) : Prop :=
  ∀ p q : Fin size, p < q → q.val < count → key (items.get q) ≤ key (items.get p)

/-- As `SortedTo`, but the element at `j` may still have to move to the left. -/
structure Sinking (key : α → κ) (items : Vector α size) (count j : Nat) : Prop where
  others : ∀ p q : Fin size, p < q → q.val < count → p.val ≠ j → q.val ≠ j →
    key (items.get q) ≤ key (items.get p)
  after : ∀ p q : Fin size, p.val = j → p < q → q.val < count → key (items.get q) ≤ key (items.get p)

theorem Sinking.of_sortedTo {items : Vector α size} {j : Nat} (sorted : SortedTo key items j) :
    Sinking key items (j + 1) j where
  others p q before within _ other := sorted p q before (by omega)
  after p q own before within := by
    have order : p.val < q.val := before
    omega

theorem Sinking.arrived {items : Vector α size} {count j : Nat} (inside : j < size)
    (sinking : Sinking key items count j)
    (left : ∀ p : Fin size, p.val < j → key items[j] ≤ key (items.get p)) :
    SortedTo key items count := by
  intro p q before within
  by_cases first : p.val = j
  · exact sinking.after p q first before within
  · by_cases second : q.val = j
    · obtain rfl : q = ⟨j, inside⟩ := Fin.ext second
      exact left p before
    · exact sinking.others p q before within first second

theorem get_swap (items : Vector α size) {i j : Nat} (first : i < size) (second : j < size)
    (p : Fin size) :
    (items.swap i j first second).get p =
      if p.val = i then items[j] else if p.val = j then items[i] else items.get p :=
  Vector.getElem_swap first second p.isLt

theorem Sinking.swap {items : Vector α size} {count j : Nat} (inside : j + 1 < size)
    (sinking : Sinking key items count (j + 1)) (larger : key items[j + 1] > key items[j]) :
    Sinking key (items.swap (j + 1) j) count j where
  others p q before within first second := by
    have order : p.val < q.val := before
    have room : j < size := Nat.lt_of_succ_lt inside
    rw [get_swap, get_swap, if_neg first, if_neg second]
    by_cases left : p.val = j + 1
    · rw [if_pos left, if_neg (show ¬ q.val = j + 1 by omega)]
      exact sinking.others ⟨j, room⟩ q (Fin.mk_lt_of_lt_val (by omega)) within (by simp) (by omega)
    · rw [if_neg left]
      by_cases right : q.val = j + 1
      · rw [if_pos right]
        exact sinking.others p ⟨j, room⟩ (Fin.lt_def.mpr (by simp; omega)) (by simp; omega) left
          (by simp)
      · rw [if_neg right]
        exact sinking.others p q before within left right
  after p q own before within := by
    have order : p.val < q.val := before
    rw [get_swap, get_swap, if_neg (show ¬ q.val = j by omega), if_neg (show ¬ p.val = j + 1 by omega), if_pos own]
    by_cases right : q.val = j + 1
    · rw [if_pos right]
      exact larger.le
    · rw [if_neg right]
      exact sinking.after ⟨j + 1, inside⟩ q rfl (Fin.mk_lt_of_lt_val (by omega)) within

theorem sink_sorted {items : Vector α size} {count j : Nat} (inside : j < size)
    (counted : j < count) (sinking : Sinking key items count j) :
    SortedTo key (sink key items j inside) count := by
  induction j generalizing items with
  | zero => exact sinking.arrived inside fun p left => absurd left (Nat.not_lt_zero _)
  | succ j ih =>
      rw [sink]
      split
      next larger => exact ih _ (by omega) (sinking.swap inside larger)
      next small =>
          apply sinking.arrived inside
          intro p left
          have near : key items[j + 1] ≤ key items[j] := not_lt.mp small
          by_cases next : p.val = j
          · obtain rfl : p = ⟨j, Nat.lt_of_succ_lt inside⟩ := Fin.ext next
            exact near
          · exact near.trans (sinking.others p ⟨j, Nat.lt_of_succ_lt inside⟩
              (Fin.lt_def.mpr (by simp; omega)) (by simp; omega) (by omega) (by simp))

theorem sortedTo_foldl (items : Vector α size) (count : Nat) (inside : count ≤ size) :
    SortedTo key (((List.finRange size).take count).foldl
      (fun items (i : Fin size) => sink key items i i.isLt) items) count := by
  induction count with
  | zero => exact fun p q _ within => absurd within (Nat.not_lt_zero _)
  | succ count ih =>
      have next : (List.finRange size).take (count + 1) =
          (List.finRange size).take count ++ [⟨count, inside⟩] := by
        have listed : count < (List.finRange size).length := by rwa [List.length_finRange]
        rw [List.take_add_one, List.getElem?_eq_getElem listed, List.getElem_finRange]
        rfl
      rw [next, List.foldl_append, List.foldl_cons, List.foldl_nil]
      exact sink_sorted inside (Nat.lt_succ_self count)
        (.of_sortedTo (ih (Nat.le_of_succ_le inside)))

theorem sortVector_eq (items : Vector α size) :
    sortVector key items = ((List.finRange size).take size).foldl
      (fun items (i : Fin size) => sink key items i i.isLt) items := by
  rw [List.take_of_length_le (by simp), sortVector]
  cases size with
  | zero => rfl
  | succ size =>
      -- sinking the first element does nothing
      rw [List.finRange_succ, List.drop_one, List.tail_cons, List.foldl_cons]
      rfl

theorem sortVector_sorted (items : Vector α size) : SortedTo key (sortVector key items) size := by
  rw [sortVector_eq]
  exact sortedTo_foldl items size (Nat.le_refl size)

theorem sortVector_perm (items : Vector α size) : (sortVector key items).Perm items := by
  rw [sortVector]
  generalize (List.finRange size).drop 1 = indices
  induction indices generalizing items with
  | nil => exact .rfl
  | cons i indices ih => exact (ih _).trans (sink_perm _ _ _)

theorem sortDescending_perm (items : List α) : (sortDescending key items).Perm items := by
  have same : (sortDescending key items).Perm items.toArray.toVector.toList :=
    (sortVector_perm _).toList
  simpa using same

theorem sortDescending_sorted (items : List α) :
    (sortDescending key items).Pairwise fun first second => key second ≤ key first := by
  rw [sortDescending, List.pairwise_iff_getElem]
  intro i j before after order
  have sorted : SortedTo key (sortVector key items.toArray.toVector) _ := sortVector_sorted _
  rw [Vector.length_toList] at before after
  exact sorted ⟨i, before⟩ ⟨j, after⟩ (Fin.mk_lt_mk.mpr order) after

structure Largest (key : α → κ) (count : Nat) (items out : List α) : Prop where
  length : out.length = min count items.length
  sorted : out.Pairwise fun first second => key second ≤ key first
  omitted : ∃ others, (out ++ others).Perm items ∧
    ∀ other ∈ others, ∀ item ∈ out, key other ≤ key item

theorem largest_take (count : Nat) (items : List α) :
    Largest key count items ((sortDescending key items).take count) where
  length := by rw [List.length_take, (sortDescending_perm items).length_eq]
  sorted := (sortDescending_sorted items).sublist (List.take_sublist _ _)
  omitted := by
    have sorted : (sortDescending key items).Pairwise fun first second =>
        key second ≤ key first := sortDescending_sorted items
    rw [← List.take_append_drop count (sortDescending key items), List.pairwise_append] at sorted
    refine ⟨(sortDescending key items).drop count, ?_, ?_⟩
    · rw [List.take_append_drop]
      exact sortDescending_perm items
    · exact fun other later item earlier => sorted.2.2 item earlier other later

end Mitigador.Lib
