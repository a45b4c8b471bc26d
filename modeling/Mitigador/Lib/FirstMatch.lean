import Mathlib.Data.List.MinMax

/-! A table of labelled regions that is searched in order. Regions that share a point are nested;
the first one around a point is not always the smallest. -/

namespace Mitigador.Lib.FirstMatch

variable {α ι κ : Type*}

/-- Regions grow smaller as their rank grows, and of two that overlap one lies in the other. -/
structure Nested (fits : α → ι → Bool) (rank : α → Int) (overlap : α → α → Bool) : Prop where
  meets : ∀ {a b x}, fits a x = true → fits b x = true → overlap a b = true
  inside : ∀ {a b x}, overlap a b = true → rank a ≤ rank b → fits b x = true → fits a x = true

section

variable (fits : α → ι → Bool) (rank : α → Int) (label : α → κ) (overlap : α → α → Bool)

def first (table : List α) (x : ι) : Option κ :=
  (table.find? fun entry => fits entry x).map label

def MostSpecific (table : List α) (x : ι) : Option κ → Prop
  | none => ∀ entry ∈ table, fits entry x = false
  | some found => ∃ entry ∈ table, fits entry x = true ∧ label entry = found ∧
      ∀ other ∈ table, fits other x = true → rank other ≤ rank entry

/-- The first region that overlaps `entry` is larger, and those inside `entry` have other
labels than that one. -/
def shadowed [DecidableEq κ] (table : List α) (entry : α) : Bool :=
  match table.find? fun other => overlap other entry with
  | none => false
  | some leader => decide (rank leader < rank entry) && table.all fun other =>
      !overlap other entry || decide (rank other < rank entry) ||
        decide (label other ≠ label leader)

end

variable {fits : α → ι → Bool} {rank : α → Int} {label : α → κ} {overlap : α → α → Bool}
  {table : List α} {x : ι}

theorem exists_smallest (rank : α → Int) {entry : α} (member : entry ∈ table) (around : fits entry x = true) :
    ∃ best ∈ table, fits best x = true ∧
      ∀ other ∈ table, fits other x = true → rank other ≤ rank best := by
  cases found : (table.filter fun entry => fits entry x).argmax rank with
  | none =>
      rw [List.argmax_eq_none, List.filter_eq_nil_iff] at found
      exact absurd around (found entry member)
  | some best =>
      obtain ⟨present, fitting⟩ := List.mem_filter.mp (List.argmax_mem found)
      refine ⟨best, present, fitting, ?_⟩
      intro other among matching
      exact List.le_of_mem_argmax (List.mem_filter.mpr ⟨among, matching⟩) found

theorem not_mostSpecific_of_shadowed [DecidableEq κ] (nested : Nested fits rank overlap)
    {entry : α} (hidden : shadowed rank label overlap table entry = true)
    (member : entry ∈ table) (around : fits entry x = true) :
    ¬ MostSpecific fits rank label table x (first fits label table x) := by
  cases met : table.find? fun other => overlap other entry with
  | none => simp [shadowed, met] at hidden
  | some leader =>
      simp only [shadowed, met, Bool.and_eq_true, decide_eq_true_eq, List.all_eq_true,
        Bool.or_eq_true, Bool.not_eq_true'] at hidden
      obtain ⟨larger, others⟩ := hidden
      obtain ⟨overlaps, before, after, split, apart⟩ := List.find?_eq_some_iff_append.mp met
      have found : (table.find? fun other => fits other x) = some leader := by
        rw [List.find?_eq_some_iff_append]
        refine ⟨nested.inside overlaps larger.le around, before, after, split, ?_⟩
        intro other earlier
        have missed := apart other earlier
        cases fitting : fits other x with
        | false => rfl
        | true => rwa [nested.meets fitting around] at missed
      rw [first, found]
      rintro ⟨best, present, fitting, same, greatest⟩
      have within := greatest entry member around
      rcases others best present with (disjoint | wider) | other
      · rw [nested.meets fitting around] at disjoint
        contradiction
      · omega
      · exact other same

/-- Away from the shadowed regions the first region has the label of the smallest, when every
pair that is out of order lies in a shadowed region or carries one label. -/
theorem mostSpecific_iff [DecidableEq κ] (nested : Nested fits rank overlap) {hidden : List α}
    (shadows : ∀ entry ∈ hidden, entry ∈ table ∧ shadowed rank label overlap table entry = true)
    (ordered : table.Pairwise fun a b => overlap a b = true → rank a < rank b →
      label a ≠ label b → ∃ entry ∈ hidden, overlap entry b = true ∧ rank entry ≤ rank b) :
    MostSpecific fits rank label table x (first fits label table x) ↔
      ∀ entry ∈ hidden, fits entry x = false := by
  constructor
  · intro specific entry member
    obtain ⟨present, shadow⟩ := shadows entry member
    rw [Bool.eq_false_iff]
    intro around
    exact not_mostSpecific_of_shadowed nested shadow present around specific
  · intro clear
    cases found : table.find? fun entry => fits entry x with
    | none =>
        rw [first, found]
        intro entry member
        exact Bool.eq_false_iff.mpr (List.find?_eq_none.mp found entry member)
    | some leader =>
        obtain ⟨around, before, after, split, apart⟩ := List.find?_eq_some_iff_append.mp found
        have present := List.mem_of_find?_eq_some found
        obtain ⟨best, among, fitting, greatest⟩ := exists_smallest rank present around
        rw [first, found]
        by_cases smaller : rank leader < rank best
        · have later : best ∈ after := by
            rw [split, List.mem_append, List.mem_cons] at among
            rcases among with earlier | rfl | later
            · have missed := apart best earlier
              rw [fitting] at missed
              contradiction
            · exact absurd smaller (lt_irrefl _)
            · exact later
          rw [split, List.pairwise_append, List.pairwise_cons] at ordered
          have pair := ordered.2.1.1 best later (nested.meets around fitting) smaller
          refine ⟨best, among, fitting, ?_, greatest⟩
          by_contra different
          obtain ⟨entry, shadow, overlaps, wider⟩ := pair (Ne.symm different)
          have inside := nested.inside overlaps wider fitting
          rw [clear entry shadow] at inside
          contradiction
        · refine ⟨leader, present, around, rfl, ?_⟩
          intro other member matching
          exact (greatest other member matching).trans (not_lt.mp smaller)

end Mitigador.Lib.FirstMatch
