import Mathlib.Data.List.Infix

/-! Splitting a text at every occurrence of a separator of any length, found from the left. -/

namespace Mitigador.Lib

variable {α : Type*} {sep front back : List α}

def Clear (sep front back : List α) : Prop :=
  ∀ tail, tail ≠ [] → tail <:+ front → ¬ sep <+: tail ++ back

theorem clear_nil (sep back : List α) : Clear sep [] back := by
  intro tail some suffix
  exact absurd (List.suffix_nil.mp suffix) some

theorem clear_cons {c : α} :
    Clear sep (c :: front) back ↔ ¬ sep <+: c :: (front ++ back) ∧ Clear sep front back := by
  constructor
  · intro clear
    refine ⟨clear _ (List.cons_ne_nil _ _) (List.suffix_refl _), ?_⟩
    intro tail some suffix
    exact clear tail some (suffix.trans (List.suffix_cons _ _))
  · rintro ⟨first, clear⟩ tail some suffix
    rcases List.suffix_cons_iff.mp suffix with rfl | within
    · exact first
    · exact clear tail some within

theorem clear_append {middle : List α} :
    Clear sep (front ++ middle) back ↔
      Clear sep front (middle ++ back) ∧ Clear sep middle back := by
  induction front with
  | nil => exact (and_iff_right (clear_nil _ _)).symm
  | cons c front ih =>
      rw [List.cons_append, clear_cons, clear_cons, ih, List.append_assoc, and_assoc]

theorem clear_of_not_mem {c : α} {rest : List α} (missing : c ∉ front) (back : List α) :
    Clear (c :: rest) front back := by
  intro tail some suffix start
  cases tail with
  | nil => contradiction
  | cons d tail =>
      rw [List.cons_append, List.cons_prefix_cons] at start
      exact missing (suffix.subset (start.1 ▸ List.mem_cons_self))

variable [DecidableEq α]

/-- The pieces between the separators; the first `skip` elements belong to one already found. -/
def pieces (sep : List α) : Nat → List α → List (List α)
  | _, [] => [[]]
  | skip + 1, _ :: rest => pieces sep skip rest
  | 0, c :: rest =>
      if sep.isPrefixOf (c :: rest) then [] :: pieces sep (sep.length - 1) rest
      else (pieces sep 0 rest).modifyHead (c :: ·)

theorem pieces_ne_nil (sep : List α) (skip : Nat) (text : List α) : pieces sep skip text ≠ [] := by
  induction text generalizing skip with
  | nil => cases skip <;> exact List.cons_ne_nil _ _
  | cons c rest ih =>
      cases skip with
      | succ skip => exact ih skip
      | zero =>
          rw [pieces]
          split
          · exact List.cons_ne_nil _ _
          · rw [ne_eq, List.modifyHead_eq_nil_iff]
            exact ih 0

theorem pieces_skip (found : List α) (rest : List α) :
    pieces sep found.length (found ++ rest) = pieces sep 0 rest := by
  induction found with
  | nil => rfl
  | cons c found ih => exact ih

theorem pieces_separator (some : sep ≠ []) (rest : List α) :
    pieces sep 0 (sep ++ rest) = [] :: pieces sep 0 rest := by
  cases sep with
  | nil => contradiction
  | cons c sep =>
      have found : (c :: sep).isPrefixOf (c :: (sep ++ rest)) = true := by
        rw [List.isPrefixOf_iff_prefix]
        exact List.prefix_append (c :: sep) rest
      rw [List.cons_append, pieces, if_pos found]
      exact congrArg _ (pieces_skip sep rest)

theorem pieces_append (clear : Clear sep front back) :
    pieces sep 0 (front ++ back) = (pieces sep 0 back).modifyHead (front ++ ·) := by
  induction front with
  | nil =>
      rw [List.nil_append]
      cases pieces sep 0 back <;> rfl
  | cons c front ih =>
      rw [clear_cons] at clear
      have unmatched : ¬ sep.isPrefixOf (c :: (front ++ back)) = true := by
        rw [List.isPrefixOf_iff_prefix]
        exact clear.1
      rw [List.cons_append, pieces, if_neg unmatched, ih clear.2, List.modifyHead_modifyHead]
      rfl

theorem pieces_clear (clear : Clear sep front []) : pieces sep 0 front = [front] := by
  have whole := pieces_append clear
  rw [List.append_nil] at whole
  rw [whole]
  simp [pieces]

theorem pieces_append_separator (some : sep ≠ []) (clear : Clear sep front (sep ++ back)) :
    pieces sep 0 (front ++ (sep ++ back)) = front :: pieces sep 0 back := by
  rw [pieces_append clear, pieces_separator some, List.modifyHead_cons, List.append_nil]

end Mitigador.Lib
