import Mathlib.Algebra.Ring.Parity
import Mathlib.Data.List.DropRight
import Mathlib.Data.List.Chain

/-! Escaping some characters of a text by another character that stays as it is itself, and the
reading of such texts, in which that character may also escape characters that were left alone. -/

namespace Mitigador.Lib

variable {α : Type*} [DecidableEq α] (esc : α) (special : List α) (punct : α → Prop)
  [DecidablePred punct]

def replaceAll (s : List α) (c : α) (text : List α) : List α :=
  s.flatMap fun x => if x = c then text else [x]

def escape (s : List α) : List α :=
  s.flatMap fun x => if x ∈ special then [esc, x] else [x]

/-- An escape before punctuation stands for that; every other character stands for itself. -/
def unescape : List α → List α
  | [] => []
  | [x] => [x]
  | x :: y :: rest =>
      if x = esc ∧ punct y then y :: unescape rest else x :: unescape (y :: rest)

def endRun (front : List α) : Nat := (front.rtakeWhile fun x => decide (x = esc)).length

def Guarded (t : List α) : Prop :=
  ∀ front c back, t = front ++ c :: back → c ∈ special →
    Odd (endRun esc front)

def Plain (s : List α) : Prop :=
  ∀ front y back, s = front ++ esc :: y :: back → ¬ punct y

/-- Replacing one special character after another escapes each of them once, as no pass meets what
an earlier one has put in. -/
theorem foldl_replaceAll {special : List α} (distinct : special.Nodup) (apart : esc ∉ special)
    (s : List α) :
    special.foldl (fun s c => replaceAll s c [esc, c]) s = escape esc special s := by
  induction special generalizing s with
  | nil => simp [escape]
  | cons c rest ih =>
      obtain ⟨first, later⟩ := List.nodup_cons.mp distinct
      obtain ⟨other, none⟩ := not_or.mp (List.mem_cons.not.mp apart)
      rw [List.foldl_cons, ih later none, escape, escape, replaceAll, List.flatMap_assoc]
      congr 1
      funext x
      by_cases here : x = c
      · subst here
        simp [first, none]
      · simp [here]

section Unescape

variable {esc special punct}

theorem unescape_other {x : α} (other : x ≠ esc) (t : List α) :
    unescape esc punct (x :: t) = x :: unescape esc punct t := by
  cases t with
  | nil => rfl
  | cons y rest => rw [unescape, if_neg fun both => other both.1]

theorem unescape_punct {y : α} (mark : punct y) (t : List α) :
    unescape esc punct (esc :: y :: t) = y :: unescape esc punct t := by
  rw [unescape, if_pos ⟨rfl, mark⟩]

theorem unescape_letter {y : α} (letter : ¬ punct y) (t : List α) :
    unescape esc punct (esc :: y :: t) = esc :: unescape esc punct (y :: t) := by
  rw [unescape, if_neg fun both => letter both.2]

theorem escape_special {x : α} (member : x ∈ special) (s : List α) :
    escape esc special (x :: s) = esc :: x :: escape esc special s := by
  simp [escape, member]

theorem escape_other {x : α} (none : x ∉ special) (s : List α) :
    escape esc special (x :: s) = x :: escape esc special s := by
  simp [escape, none]

end Unescape

/-- `Guarded` from left to right; `odd` says whether an odd run of escapes has just ended. -/
def GuardedFrom (odd : Bool) : List α → Prop
  | [] => True
  | x :: rest => (x ∈ special → odd = true) ∧ GuardedFrom (if x = esc then !odd else false) rest

theorem endRun_concat (front : List α) (x : α) :
    endRun esc (front ++ [x]) = if x = esc then endRun esc front + 1 else 0 := by
  unfold endRun
  rw [List.rtakeWhile_concat]
  by_cases same : x = esc
  · simp [same]
  · simp [same]

theorem guardedFrom_iff (front t : List α) :
    GuardedFrom esc special (decide (Odd (endRun esc front))) t ↔
      ∀ middle c back, t = middle ++ c :: back → c ∈ special →
        Odd (endRun esc (front ++ middle)) := by
  induction t generalizing front with
  | nil => simp [GuardedFrom]
  | cons x rest ih =>
      have run : (if x = esc then !decide (Odd (endRun esc front)) else false) =
          decide (Odd (endRun esc (front ++ [x]))) := by
        rw [endRun_concat]
        by_cases same : x = esc
        · rw [if_pos same, if_pos same, ← decide_not, decide_eq_decide, Nat.odd_add_one]
        · simp [same]
      rw [GuardedFrom, run, ih]
      constructor
      · rintro ⟨here, later⟩ middle c back split member
        cases middle with
        | nil =>
            obtain ⟨rfl, rfl⟩ := List.cons.inj split
            rw [List.append_nil]
            exact of_decide_eq_true (here member)
        | cons head middle =>
            obtain ⟨rfl, rfl⟩ := List.cons.inj split
            have odd := later middle c back rfl member
            rwa [List.append_assoc] at odd
      · intro every
        refine ⟨fun member => ?_, fun middle c back split member => ?_⟩
        · have odd := every [] x rest rfl member
          rw [List.append_nil] at odd
          exact decide_eq_true odd
        · have odd := every (x :: middle) c back (by rw [split]; rfl) member
          rwa [List.append_assoc]

theorem guarded_iff (t : List α) : Guarded esc special t ↔ GuardedFrom esc special false t :=
  (guardedFrom_iff esc special [] t).symm

section Plain

variable {esc special punct}

omit [DecidableEq α] [DecidablePred punct] in
theorem plain_cons_iff {x y : α} {rest : List α} :
    Plain esc punct (x :: y :: rest) ↔ (x = esc → ¬ punct y) ∧ Plain esc punct (y :: rest) := by
  constructor
  · intro plain
    refine ⟨?_, fun front z back split => plain (x :: front) z back (by rw [split]; rfl)⟩
    rintro rfl
    exact plain [] y rest rfl
  · rintro ⟨first, later⟩ front z back split
    cases front with
    | nil =>
        obtain ⟨same, tail⟩ := List.cons.inj split
        obtain ⟨rfl, -⟩ := List.cons.inj tail
        exact first same
    | cons head front =>
        obtain ⟨-, tail⟩ := List.cons.inj split
        exact later front z back tail

omit [DecidableEq α] [DecidablePred punct] in
theorem plain_nil : Plain esc punct ([] : List α) := by
  intro front y back split
  simp at split

omit [DecidableEq α] [DecidablePred punct] in
theorem plain_singleton (x : α) : Plain esc punct [x] := by
  intro front y back split
  have length := congrArg List.length split
  simp at length
  omega

omit [DecidableEq α] [DecidablePred punct] in
theorem Plain.tail {x : α} {rest : List α} (plain : Plain esc punct (x :: rest)) :
    Plain esc punct rest := by
  cases rest with
  | nil => exact plain_nil
  | cons y more => exact (plain_cons_iff.mp plain).2

variable (marks : ∀ c ∈ special, punct c)

include marks

theorem unescape_escape_of_plain {s : List α} (plain : Plain esc punct s) :
    unescape esc punct (escape esc special s) = s := by
  induction s with
  | nil => rfl
  | cons x rest ih =>
      have later := plain.tail
      by_cases member : x ∈ special
      · rw [escape_special member, unescape_punct (marks x member), ih later]
      · rw [escape_other member]
        by_cases same : x = esc
        · subst same
          cases rest with
          | nil => rfl
          | cons y more =>
              have letter : ¬ punct y := (plain_cons_iff.mp plain).1 rfl
              have none : y ∉ special := fun listed => letter (marks y listed)
              rw [escape_other none] at ih ⊢
              rw [unescape_letter letter, ih later]
        · rw [unescape_other same, ih later]

omit [DecidablePred punct] in
theorem guardedFrom_of_plain (apart : esc ∉ special) {s : List α} (plain : Plain esc punct s)
    {odd : Bool} (after : odd = true → Plain esc punct (esc :: s)) :
    GuardedFrom esc special odd (escape esc special s) := by
  induction s generalizing odd with
  | nil => trivial
  | cons x rest ih =>
      have later := plain.tail
      have letter : odd = true → ¬ punct x := fun run => (plain_cons_iff.mp (after run)).1 rfl
      by_cases member : x ∈ special
      · have even : odd = false := by
          cases odd with
          | false => rfl
          | true => exact absurd (marks x member) (letter rfl)
        have other : x ≠ esc := fun same => apart (same ▸ member)
        rw [escape_special member, even]
        refine ⟨fun listed => absurd listed apart, ?_⟩
        rw [if_pos rfl]
        refine ⟨fun _ => rfl, ?_⟩
        rw [if_neg other]
        exact ih later fun run => by contradiction
      · rw [escape_other member]
        refine ⟨fun listed => absurd listed member, ?_⟩
        by_cases same : x = esc
        · subst same
          rw [if_pos rfl]
          exact ih later fun _ => plain
        · rw [if_neg same]
          exact ih later fun run => by contradiction

variable (apart : esc ∉ special) (mark : punct esc)

include apart mark

theorem length_unescape_escape_le (s : List α) :
    (unescape esc punct (escape esc special s)).length ≤ s.length := by
  induction s using List.twoStepInduction with
  | nil => exact le_rfl
  | singleton x =>
      by_cases member : x ∈ special
      · rw [escape_special member, unescape_punct (marks x member)]
        exact le_rfl
      · rw [escape_other member]
        exact le_rfl
  | cons_cons x y more shorter next =>
      by_cases member : x ∈ special
      · rw [escape_special member, unescape_punct (marks x member)]
        exact Nat.succ_le_succ (next y)
      · rw [escape_other member]
        by_cases same : x = esc
        · subst same
          by_cases listed : y ∈ special
          · have other : y ≠ x := fun equal => apart (equal ▸ listed)
            rw [escape_special listed, unescape_punct mark, unescape_other other]
            exact Nat.succ_le_succ (Nat.succ_le_succ shorter)
          · rw [escape_other listed]
            by_cases letter : punct y
            · rw [unescape_punct letter]
              exact Nat.succ_le_succ (shorter.trans (Nat.le_succ _))
            · have below := next y
              rw [escape_other listed] at below
              rw [unescape_letter letter]
              exact Nat.succ_le_succ below
        · rw [unescape_other same]
          exact Nat.succ_le_succ (next y)

theorem plain_of_unescape_escape {s : List α}
    (back : unescape esc punct (escape esc special s) = s)
    (guarded : GuardedFrom esc special false (escape esc special s)) : Plain esc punct s := by
  induction s with
  | nil => exact plain_nil
  | cons x rest ih =>
      cases rest with
      | nil => exact plain_singleton x
      | cons y more =>
          rw [plain_cons_iff]
          by_cases member : x ∈ special
          · have other : x ≠ esc := fun same => apart (same ▸ member)
            rw [escape_special member, unescape_punct (marks x member)] at back
            rw [escape_special member, GuardedFrom, if_pos rfl, GuardedFrom, if_neg other] at guarded
            exact ⟨fun same => absurd same other, ih (List.cons.inj back).2 guarded.2.2⟩
          · rw [escape_other member] at back guarded
            by_cases same : x = esc
            · subst same
              rw [GuardedFrom, if_pos rfl] at guarded
              by_cases listed : y ∈ special
              · -- two escapes in a row leave the character after them free
                rw [escape_special listed, GuardedFrom, if_pos rfl, GuardedFrom] at guarded
                exact absurd (guarded.2.2.1 listed) (by decide)
              · rw [escape_other listed] at back
                by_cases equal : y = x
                · -- of the two escapes one is lost, and nothing later makes up for it
                  subst equal
                  rw [unescape_punct mark] at back
                  have below := length_unescape_escape_le marks apart mark more
                  rw [(List.cons.inj back).2, List.length_cons] at below
                  omega
                · by_cases letter : punct y
                  · rw [unescape_punct letter] at back
                    exact absurd (List.cons.inj back).1 equal
                  · rw [unescape_letter letter] at back
                    rw [escape_other listed, GuardedFrom, if_neg equal] at guarded
                    refine ⟨fun _ => letter, ih ?_ ?_⟩
                    · rw [escape_other listed]
                      exact (List.cons.inj back).2
                    · rw [escape_other listed, GuardedFrom, if_neg equal]
                      exact ⟨fun impossible => absurd impossible listed, guarded.2.2⟩
            · rw [unescape_other same] at back
              rw [GuardedFrom, if_neg same] at guarded
              exact ⟨fun equal => absurd equal same, ih (List.cons.inj back).2 guarded.2⟩

/-- Escaping loses nothing and leaves no special character free exactly where no escape stands
before punctuation. -/
theorem unescape_escape_iff (s : List α) :
    unescape esc punct (escape esc special s) = s ∧ Guarded esc special (escape esc special s) ↔
      Plain esc punct s := by
  rw [guarded_iff]
  constructor
  · rintro ⟨back, guarded⟩
    exact plain_of_unescape_escape marks apart mark back guarded
  · intro plain
    exact ⟨unescape_escape_of_plain marks plain,
      guardedFrom_of_plain marks apart plain fun impossible => by contradiction⟩

end Plain

end Mitigador.Lib
