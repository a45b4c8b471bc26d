import Mathlib.Data.List.Perm.Subperm
import Mathlib.Data.List.Count
import Mathlib.Data.List.Nodup

/-! Messages in a line, of which the first one is tried and may come back at a later place. The
line knows how often each of its messages has been tried. -/

namespace Mitigador.Lib

inductive Effect (α : Type*)
  | lost
  | joined (fresh : List α)
  | tried (x : α) (accepted : Bool)
  | requeued (x : α) (passed : List α)

variable {α : Type*} {limit : Nat}

/-- One step of a line: some messages are lost, new ones join, the first one is tried and leaves, or
stays after a try, or lets others pass. -/
inductive Move (limit : Nat) : List (α × Nat) → Effect α → List (α × Nat) → Prop
  | lose {line next : List (α × Nat)} (left : next.Sublist line) : Move limit line .lost next
  | join (line : List (α × Nat)) (fresh : List α) :
      Move limit line (.joined fresh) (line ++ fresh.map fun x => (x, 0))
  | leave (x : α) (n : Nat) (line : List (α × Nat)) (accepted : Bool) (more : n < limit) :
      Move limit ((x, n) :: line) (.tried x accepted) line
  | stay (x : α) (n : Nat) (line : List (α × Nat)) (more : n < limit) :
      Move limit ((x, n) :: line) (.tried x false) ((x, n + 1) :: line)
  | requeue (x : α) (n : Nat) (front back : List (α × Nat)) :
      Move limit ((x, n) :: (front ++ back)) (.requeued x (front.map Prod.fst))
        (front ++ (x, n) :: back)

inductive Moves (limit : Nat) : List (Effect α) → List (α × Nat) → Prop
  | start : Moves limit [] []
  | step {log : List (Effect α)} {line next : List (α × Nat)} {effect : Effect α}
      (past : Moves limit log line) (move : Move limit line effect next) :
      Moves limit (effect :: log) next

namespace Effect

def news : Effect α → List α
  | .joined fresh => fresh
  | .lost | .tried _ _ | .requeued _ _ => []

def attempt : Effect α → List α
  | .tried x _ => [x]
  | .lost | .joined _ | .requeued _ _ => []

def success : Effect α → List α
  | .tried x true => [x]
  | .tried _ false | .lost | .joined _ | .requeued _ _ => []

end Effect

def joined (log : List (Effect α)) : List α := log.reverse.flatMap Effect.news

def tries (log : List (Effect α)) : List α := log.reverse.flatMap Effect.attempt

def accepted (log : List (Effect α)) : List α := log.reverse.flatMap Effect.success

section Cons

variable (effect : Effect α) (log : List (Effect α))

theorem joined_cons : joined (effect :: log) = joined log ++ effect.news := by simp [joined]

theorem tries_cons : tries (effect :: log) = tries log ++ effect.attempt := by simp [tries]

theorem accepted_cons : accepted (effect :: log) = accepted log ++ effect.success := by
  simp [accepted]

end Cons

theorem map_fst_untried (fresh : List α) : (fresh.map fun x => (x, 0)).map Prod.fst = fresh := by
  simp [Function.comp_def]

variable {log : List (Effect α)} {line : List (α × Nat)}

theorem Moves.subperm (moves : Moves limit log line) :
    (accepted log ++ line.map Prod.fst).Subperm (joined log) := by
  induction moves with
  | start => exact List.Subperm.refl []
  | @step log line next effect past move ih =>
      rw [accepted_cons, joined_cons]
      cases move with
      | lose left =>
          rw [Effect.success, Effect.news, List.append_nil, List.append_nil]
          exact ((left.map Prod.fst).append_left _).subperm.trans ih
      | join _ fresh =>
          rw [Effect.success, Effect.news, List.append_nil, List.map_append, map_fst_untried,
            ← List.append_assoc]
          exact (List.subperm_append_right fresh).mpr ih
      | leave x n line success more =>
          rw [Effect.news, List.append_nil]
          cases success with
          | true =>
              rw [Effect.success, List.append_assoc]
              exact ih
          | false =>
              rw [Effect.success, List.append_nil]
              exact ((List.sublist_cons_self x _).append_left _).subperm.trans ih
      | stay x n line more =>
          rw [Effect.success, Effect.news, List.append_nil, List.append_nil]
          exact ih
      | requeue x n front back =>
          rw [Effect.success, Effect.news, List.append_nil, List.append_nil]
          refine (List.Perm.subperm ?_).trans ih
          simp only [List.map_cons, List.map_append]
          exact List.perm_middle.append_left _

theorem Moves.distinct (moves : Moves limit log line) (fresh : (joined log).Nodup) :
    (accepted log ++ line.map Prod.fst).Nodup := by
  obtain ⟨order, perm, sub⟩ := moves.subperm
  exact perm.nodup_iff.mp (fresh.sublist sub)

theorem counts_of_try [DecidableEq α] {done : List α} {x : α} {n : Nat} {rest : List (α × Nat)}
    (distinct : (((x, n) :: rest).map Prod.fst).Nodup) (more : n < limit)
    (most : ∀ y, done.count y ≤ limit)
    (counts : ∀ y m, (y, m) ∈ (x, n) :: rest → done.count y = m) :
    (∀ y, (done ++ [x]).count y ≤ limit) ∧ (done ++ [x]).count x = n + 1 ∧
      ∀ y m, (y, m) ∈ rest → (done ++ [x]).count y = m := by
  have here := counts x n List.mem_cons_self
  rw [List.map_cons, List.nodup_cons] at distinct
  have one : (done ++ [x]).count x = n + 1 := by
    rw [List.count_append, here, List.count_singleton_self]
  have other : ∀ y, x ≠ y → (done ++ [x]).count y = done.count y := by
    intro y apart
    rw [List.count_append, List.count_singleton, if_neg (by simpa using apart), Nat.add_zero]
  refine ⟨fun y => ?_, one, fun y m member => ?_⟩
  · by_cases same : x = y
    · rw [← same, one]
      exact more
    · rw [other y same]
      exact most y
  · have apart : x ≠ y := by
      rintro rfl
      exact distinct.1 (List.mem_map.mpr ⟨(x, m), member, rfl⟩)
    rw [other y apart, counts y m (List.mem_cons_of_mem _ member)]

theorem Moves.tried_joined (moves : Moves limit log line) : ∀ x ∈ tries log, x ∈ joined log := by
  induction moves with
  | start => exact fun _ => id
  | @step log line next effect past move ih =>
      rw [tries_cons, joined_cons]
      intro x member
      rcases List.mem_append.mp member with before | now
      · exact List.mem_append_left _ (ih x before)
      · cases move with
        | lose | join | requeue => contradiction
        | leave | stay =>
            obtain rfl := List.mem_singleton.mp now
            exact List.mem_append_left _ (past.subperm.subset (by simp))

theorem Moves.counted [DecidableEq α] (moves : Moves limit log line) (fresh : (joined log).Nodup) :
    (∀ x, (tries log).count x ≤ limit) ∧
      ∀ x n, (x, n) ∈ line → (tries log).count x = n := by
  induction moves with
  | start => exact ⟨fun _ => Nat.zero_le _, fun _ _ member => by contradiction⟩
  | @step log line next effect past move ih =>
      rw [joined_cons] at fresh
      obtain ⟨old, new, apart⟩ := List.nodup_append.mp fresh
      obtain ⟨most, counts⟩ := ih old
      have distinct := (List.nodup_append.mp (past.distinct old)).2.1
      rw [tries_cons]
      cases move with
      | lose left =>
          rw [Effect.attempt, List.append_nil]
          exact ⟨most, fun x n member => counts x n (left.subset member)⟩
      | join _ fresh =>
          rw [Effect.attempt, List.append_nil]
          refine ⟨most, fun x n member => ?_⟩
          rcases List.mem_append.mp member with before | now
          · exact counts x n before
          · obtain ⟨y, listed, same⟩ := List.mem_map.mp now
            obtain ⟨rfl, rfl⟩ := Prod.mk.inj same
            rw [List.count_eq_zero]
            exact fun early => apart y (past.tried_joined y early) y listed rfl
      | leave x n rest success more =>
          obtain ⟨all, -, others⟩ := counts_of_try distinct more most counts
          exact ⟨all, others⟩
      | stay x n rest more =>
          obtain ⟨all, own, others⟩ := counts_of_try distinct more most counts
          refine ⟨all, fun y m member => ?_⟩
          rcases List.mem_cons.mp member with same | later
          · obtain ⟨rfl, rfl⟩ := Prod.mk.inj same
            exact own
          · exact others y m later
      | requeue x n front back =>
          rw [Effect.attempt, List.append_nil]
          exact ⟨most, fun y m member => counts y m (List.perm_middle.mem_iff.mp member)⟩

def Behind (log : List (Effect α)) (x y : α) : Prop :=
  ∃ passed, .requeued x passed ∈ log ∧ y ∈ passed

theorem Behind.cons {x y : α} (effect : Effect α) (behind : Behind log x y) :
    Behind (effect :: log) x y := by
  obtain ⟨passed, member, among⟩ := behind
  exact ⟨passed, List.mem_cons_of_mem _ member, among⟩

/-- Messages that join in the order of their ranks are accepted in that order, except for those that
have come back behind others. -/
theorem Moves.ordered (rank : α → Nat) (moves : Moves limit log line)
    (sorted : (joined log).Pairwise fun a b => rank a ≤ rank b) :
    (accepted log ++ line.map Prod.fst).Pairwise fun a b => rank a ≤ rank b ∨ Behind log b a := by
  induction moves with
  | start => exact .nil
  | @step log line next effect past move ih =>
      rw [joined_cons] at sorted
      have before : (accepted log ++ line.map Prod.fst).Pairwise fun a b =>
          rank a ≤ rank b ∨ Behind (effect :: log) b a :=
        (ih (List.pairwise_append.mp sorted).1).imp fun either => either.imp_right (.cons effect)
      rw [accepted_cons]
      cases move with
      | lose left =>
          rw [Effect.success, List.append_nil]
          exact before.sublist ((left.map Prod.fst).append_left _)
      | join _ fresh =>
          obtain ⟨-, new, across⟩ := List.pairwise_append.mp sorted
          rw [Effect.success, List.append_nil, List.map_append, map_fst_untried, ← List.append_assoc]
          have within : fresh.Pairwise fun a b =>
              rank a ≤ rank b ∨ Behind (.joined fresh :: log) b a := List.Pairwise.imp .inl new
          refine List.pairwise_append.mpr ⟨before, within, ?_⟩
          intro a early b late
          exact .inl (across a (past.subperm.subset early) b late)
      | leave x n rest success more =>
          cases success with
          | true =>
              rw [Effect.success, List.append_assoc]
              exact before
          | false =>
              rw [Effect.success, List.append_nil]
              exact before.sublist ((List.sublist_cons_self x _).append_left _)
      | stay x n rest more =>
          rw [Effect.success, List.append_nil]
          exact before
      | requeue x n front back =>
          rw [Effect.success, List.append_nil]
          simp only [List.map_cons, List.map_append] at before ⊢
          obtain ⟨old, line, across⟩ := List.pairwise_append.mp before
          obtain ⟨first, others⟩ := List.pairwise_cons.mp line
          obtain ⟨front', back', cross⟩ := List.pairwise_append.mp others
          refine List.pairwise_append.mpr ⟨old, List.pairwise_append.mpr ⟨front', List.pairwise_cons.mpr
            ⟨fun b late => first b (List.mem_append_right _ late), back'⟩, ?_⟩, ?_⟩
          · intro a early b late
            rcases List.mem_cons.mp late with rfl | later
            · exact .inr ⟨_, List.mem_cons_self, early⟩
            · exact cross a early b later
          · intro a early b late
            exact across a early b (List.perm_middle.mem_iff.mp late)

end Mitigador.Lib
