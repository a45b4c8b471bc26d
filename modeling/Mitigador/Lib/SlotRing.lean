import Mathlib.Algebra.BigOperators.Group.List.Basic
import Mathlib.Algebra.Group.Hom.Defs
import Mathlib.Algebra.GroupWithZero.Nat
import Mathlib.Algebra.Order.Group.Unbundled.Int
import Mathlib.Data.Fintype.Card
import Mathlib.Data.Fintype.List
import Mathlib.Tactic.Abel

/-! A ring of accumulators addressed by a second modulo its size. Each advance of the clock
clears the slot of the second to come, which until then held the oldest one. -/

namespace Mitigador.Lib.SlotRing

variable {size : Nat} [NeZero size] {M N : Type*}

/-- The slot of a second, which may lie before the epoch. -/
def slot (size : Nat) [NeZero size] (second : Int) : Fin size :=
  ⟨(second % size).toNat, by
    have positive : (0 : Int) < size := by exact_mod_cast Nat.pos_of_neZero size
    have low := Int.emod_nonneg second positive.ne'
    have high := Int.emod_lt_of_pos second positive
    omega⟩

theorem slot_eq_iff (first second : Int) :
    slot size first = slot size second ↔ first % size = second % size := by
  have nonzero : (size : Int) ≠ 0 := by exact_mod_cast NeZero.ne size
  have low := Int.emod_nonneg first nonzero
  have other := Int.emod_nonneg second nonzero
  rw [slot, slot, Fin.mk.injEq]
  omega

theorem slot_injective {low first second : Int} (fromFirst : low ≤ first)
    (toFirst : first < low + size) (fromSecond : low ≤ second) (toSecond : second < low + size)
    (same : slot size first = slot size second) : first = second := by
  have divides : (size : Int) ∣ first - second :=
    Int.dvd_of_emod_eq_zero (Int.emod_eq_emod_iff_emod_sub_eq_zero.mp ((slot_eq_iff ..).mp same))
  have near : |first - second| < size := by
    rw [abs_lt]
    constructor <;> omega
  exact sub_eq_zero.mp (Int.eq_zero_of_abs_lt_dvd divides near)

def read (ring : Vector M size) (second : Int) : M :=
  ring[slot size second]

theorem read_congr (ring : Vector M size) {first second : Int}
    (same : slot size first = slot size second) : read ring first = read ring second := by
  simp only [read, same]

theorem slots_perm (second : Int) :
    ((List.range size).map fun i : Nat => slot size (second - i)).Perm (List.finRange size) := by
  have distinct : ((List.range size).map fun i : Nat => slot size (second - i)).Nodup := by
    refine List.Nodup.map_on ?_ List.nodup_range
    intro i here j there same
    rw [List.mem_range] at here there
    have low : second - size + 1 ≤ second - i := by omega
    have equal := slot_injective low (by omega) (by omega) (by omega) same
    omega
  have full : ((List.range size).map fun i : Nat => slot size (second - i)).toFinset =
      Finset.univ := by
    apply Finset.eq_univ_of_card
    rw [List.toFinset_card_of_nodup distinct]
    simp
  rw [List.perm_ext_iff_of_nodup distinct (List.nodup_finRange size)]
  refine fun k => ⟨fun _ => List.mem_finRange k, fun _ => List.mem_toFinset.mp ?_⟩
  rw [full]
  exact Finset.mem_univ k

theorem sum_eq_sum_read [AddCommMonoid M] (ring : Vector M size) (second : Int) :
    ring.toList.sum = ((List.range size).map fun i : Nat => read ring (second - i)).sum := by
  have listed : ring.toList = (List.finRange size).map fun k => ring[k] := by
    apply List.ext_getElem
    · simp
    · intro i _ _
      simp
  rw [listed]
  calc
    ((List.finRange size).map fun k => ring[k]).sum
    _ = (((List.range size).map fun i : Nat => slot size (second - i)).map fun k => ring[k]).sum :=
        ((slots_perm second).map _).sum_eq.symm
    _ = ((List.range size).map fun i : Nat => read ring (second - i)).sum := by
        rw [List.map_map]
        rfl

section Accumulate

variable [AddZeroClass M] [AddZeroClass N]

def empty (size : Nat) : Vector M size := Vector.replicate size 0

def deposit (ring : Vector M size) (second : Int) (amount : M) : Vector M size :=
  ring.set (slot size second) (read ring second + amount) (slot size second).isLt

def clear (ring : Vector M size) (second : Int) : Vector M size :=
  ring.set (slot size second) 0 (slot size second).isLt

@[simp] theorem read_empty (second : Int) : read (empty (M := M) size) second = 0 := by
  simp [read, empty]

theorem read_deposit (ring : Vector M size) (second other : Int) (amount : M) :
    read (deposit ring second amount) other =
      if slot size other = slot size second then read ring other + amount
      else read ring other := by
  by_cases same : slot size other = slot size second
  · rw [if_pos same, read_congr _ same, read_congr ring same]
    simp [read, deposit]
  · have apart : (slot size second).val ≠ (slot size other).val := fun equal =>
      same (Fin.ext equal.symm)
    rw [if_neg same]
    simp [read, deposit, Vector.getElem_set_ne _ _ apart]

theorem deposit_zero (ring : Vector M size) (second : Int) : deposit ring second 0 = ring := by
  rw [deposit, add_zero, read]
  exact Vector.set_getElem_self ..

theorem read_clear (ring : Vector M size) (second other : Int) :
    read (clear ring second) other =
      if slot size other = slot size second then 0 else read ring other := by
  by_cases same : slot size other = slot size second
  · rw [if_pos same, read_congr _ same]
    simp [read, clear]
  · have apart : (slot size second).val ≠ (slot size other).val := fun equal =>
      same (Fin.ext equal.symm)
    rw [if_neg same]
    simp [read, clear, Vector.getElem_set_ne _ _ apart]

def Accounts (ring : Vector M size) (total : Int → M) (low high : Int) : Prop :=
  ∀ second, low ≤ second → second ≤ high → read ring second = total second

theorem accounts_empty (total : Int → M) (low high : Int)
    (silent : ∀ second, low ≤ second → second ≤ high → total second = 0) :
    Accounts (empty (M := M) size) total low high := by
  intro second fromLow toHigh
  rw [read_empty, silent second fromLow toHigh]

theorem accounts_deposit (ring : Vector M size) (total grown : Int → M) (low high second : Int)
    (amount : M) (narrow : high < low + size) (held : Accounts ring total low high)
    (fromLow : low ≤ second) (toHigh : second ≤ high)
    (here : grown second = total second + amount)
    (elsewhere : ∀ other, other ≠ second → grown other = total other) :
    Accounts (deposit ring second amount) grown low high := by
  intro other fromOther toOther
  rw [read_deposit]
  by_cases same : slot size other = slot size second
  · have equal : other = second :=
      slot_injective fromOther (by omega) fromLow (by omega) same
    rw [if_pos same, equal, here, held second fromLow toHigh]
  · have different : other ≠ second := by
      rintro rfl
      exact same rfl
    rw [if_neg same, elsewhere other different, held other fromOther toOther]

/-- Advancing the clock: the slot of the coming second is cleared, the oldest second leaves. -/
theorem accounts_clear (ring : Vector M size) (total : Int → M) (low high : Int)
    (narrow : high + 1 ≤ low + size) (held : Accounts ring total low high)
    (silent : total (high + 1) = 0) :
    Accounts (clear ring (high + 1)) total (low + 1) (high + 1) := by
  intro other fromOther toOther
  rw [read_clear]
  by_cases same : slot size other = slot size (high + 1)
  · have equal : other = high + 1 :=
      slot_injective fromOther (by omega) (by omega) (by omega) same
    rw [if_pos same, equal, silent]
  · have different : other ≠ high + 1 := by
      rintro rfl
      exact same rfl
    rw [if_neg same]
    exact held other (by omega) (by omega)

def clearFrom (ring : Vector M size) (second : Int) : Nat → Vector M size
  | 0 => ring
  | count + 1 => clearFrom (clear ring second) (second + 1) count

/-- The ring once the seconds after `last` up to `second` have been cleared, all at once where they
are as many as the slots. A second that is not after `last` clears nothing. -/
def advance (ring : Vector M size) (last second : Int) : Vector M size :=
  if second - last ≥ size then empty size
  else clearFrom ring (last + 1) (second - last).toNat

theorem read_clearFrom (ring : Vector M size) (second other : Int) (count : Nat) :
    read (clearFrom ring second count) other =
      if ∃ i < count, slot size other = slot size (second + i) then 0 else read ring other := by
  induction count generalizing ring second with
  | zero => simp [clearFrom]
  | succ count ih =>
      rw [clearFrom, ih, read_clear]
      have shifted : (∃ i < count, slot size other = slot size (second + 1 + i)) ∨
          slot size other = slot size second ↔
            ∃ i < count + 1, slot size other = slot size (second + i) := by
        constructor
        · rintro (⟨i, below, same⟩ | same)
          · refine ⟨i + 1, by omega, ?_⟩
            rw [same]
            congr 1
            push_cast
            omega
          · exact ⟨0, by omega, by simpa using same⟩
        · rintro ⟨i, below, same⟩
          cases i with
          | zero => exact .inr (by simpa using same)
          | succ i =>
              refine .inl ⟨i, by omega, ?_⟩
              rw [same]
              congr 1
              push_cast
              omega
      by_cases later : ∃ i < count, slot size other = slot size (second + 1 + i)
      · rw [if_pos later, if_pos (shifted.mp (.inl later))]
      · by_cases here : slot size other = slot size second
        · rw [if_neg later, if_pos here, if_pos (shifted.mp (.inr here))]
        · have neither : ¬ ∃ i < count + 1, slot size other = slot size (second + i) := fun some =>
            (shifted.mpr some).elim later here
          rw [if_neg later, if_neg here, if_neg neither]

theorem accounts_advance {ring : Vector M size} {total : Int → M} {low last rise second : Int}
    (held : Accounts ring total low last) (silent : ∀ later, last < later → total later = 0)
    (risen : low ≤ rise) (narrow : second < rise + size) :
    Accounts (advance ring last second) total rise second := by
  intro other fromOther toOther
  unfold advance
  split
  · next far =>
      rw [read_empty, silent other (by omega)]
  · next near =>
      rw [read_clearFrom]
      by_cases passed : last < other
      · rw [if_pos, silent other passed]
        refine ⟨(other - last - 1).toNat, by omega, ?_⟩
        congr 1
        omega
      · rw [if_neg, held other (by omega) (by omega)]
        rintro ⟨i, below, same⟩
        have equal := slot_injective fromOther (by omega) (by omega) (by omega) same
        omega

variable (f : M →+ N)

theorem read_map (ring : Vector M size) (second : Int) :
    read (ring.map f) second = f (read ring second) := by
  simp [read]

omit [NeZero size] in
theorem map_empty : (empty (M := M) size).map f = empty size := by
  simp [empty]

theorem map_deposit (ring : Vector M size) (second : Int) (amount : M) :
    (deposit ring second amount).map f = deposit (ring.map f) second (f amount) := by
  simp [deposit, read_map, Vector.map_set]

theorem map_clear (ring : Vector M size) (second : Int) :
    (clear ring second).map f = clear (ring.map f) second := by
  simp [clear, Vector.map_set]

end Accumulate

section Total

omit [NeZero size] in
theorem sum_set [AddCommMonoid M] (ring : Vector M size) (k : Fin size) (amount : M) :
    (ring.set k amount k.isLt).toList.sum + ring.get k = ring.toList.sum + amount := by
  have inside : k.val < ring.toList.length := by
    rw [Vector.length_toList]
    exact k.isLt
  have split : ring.toList.sum =
      (ring.toList.take k).sum + (ring.get k + (ring.toList.drop (k + 1)).sum) := by
    conv_lhs => rw [← List.take_append_drop k ring.toList, List.drop_eq_getElem_cons inside]
    rw [List.sum_append, List.sum_cons]
    rfl
  rw [Vector.toList_set, List.sum_set, if_pos inside, split]
  abel

theorem sum_clear [AddCommMonoid M] (ring : Vector M size) (second : Int) :
    (clear ring second).toList.sum + read ring second = ring.toList.sum :=
  (sum_set ring (slot size second) 0).trans (add_zero _)

theorem sum_deposit [AddCancelCommMonoid M] (ring : Vector M size) (second : Int) (amount : M) :
    (deposit ring second amount).toList.sum = ring.toList.sum + amount := by
  apply add_right_cancel (b := read ring second)
  calc (deposit ring second amount).toList.sum + read ring second
      = ring.toList.sum + (read ring second + amount) := sum_set ring (slot size second) _
    _ = ring.toList.sum + amount + read ring second := by abel

omit [NeZero size] in
theorem sum_empty [AddCommMonoid M] : (empty (M := M) size).toList.sum = 0 := by
  simp [empty]

end Total

end Mitigador.Lib.SlotRing
