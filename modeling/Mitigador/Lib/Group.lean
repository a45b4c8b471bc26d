import Mathlib.Data.List.Count
import Mathlib.Data.List.Nodup
import Mathlib.Logic.Function.Basic

/-! Goroutines that share a context. Each returns once, with an error or without; the first error
is kept and cancels the context, and a return without one cancels nothing. -/

namespace Mitigador.Lib

variable {ι ε : Type*}

structure Group (ι ε : Type*) where
  canceled : Bool
  returned : ι → Option (Option ε)
  err : Option ε

namespace Group

def start : Group ι ε := ⟨false, fun _ => none, none⟩

def cancel (g : Group ι ε) : Group ι ε := { g with canceled := true }

def Running (g : Group ι ε) (i : ι) : Prop := g.returned i = none

instance (g : Group ι ε) (i : ι) : Decidable (g.Running i) :=
  decidable_of_iff (g.returned i).isNone Option.isNone_iff_eq_none

@[simp] theorem canceled_cancel (g : Group ι ε) : g.cancel.canceled = true := rfl

@[simp] theorem err_cancel (g : Group ι ε) : g.cancel.err = g.err := rfl

variable [DecidableEq ι]

def finish (i : ι) (error : Option ε) (g : Group ι ε) : Group ι ε where
  canceled := g.canceled || error.isSome
  returned := Function.update g.returned i (some error)
  err := g.err.or error

@[simp] theorem canceled_finish (g : Group ι ε) (i : ι) (error : Option ε) :
    (g.finish i error).canceled = true ↔ g.canceled = true ∨ error.isSome = true :=
  Bool.or_eq_true_iff

@[simp] theorem err_finish (g : Group ι ε) (i : ι) (error : Option ε) :
    (g.finish i error).err = g.err.or error := rfl

theorem running_finish (g : Group ι ε) (i j : ι) (error : Option ε) :
    (g.finish i error).Running j ↔ j ≠ i ∧ g.Running j := by
  by_cases same : j = i
  · subst same
    simp [Running, finish]
  · simp [Running, finish, same]

def running (all : List ι) (g : Group ι ε) : Nat := all.countP fun i => decide (g.Running i)

theorem running_finish_lt {all : List ι} {g : Group ι ε} {i : ι} (member : i ∈ all)
    (runs : g.Running i) (error : Option ε) : (g.finish i error).running all < g.running all := by
  obtain ⟨front, back, rfl⟩ := List.append_of_mem member
  have fewer (some : List ι) : (g.finish i error).running some ≤ g.running some := by
    apply List.countP_mono_left
    intro j _ still
    exact decide_eq_true ((running_finish g i j error).mp (of_decide_eq_true still)).2
  have gone : ¬ (g.finish i error).Running i := fun still => ((running_finish ..).mp still).1 rfl
  have left := fewer front
  have right := fewer back
  unfold running at left right ⊢
  rw [List.countP_append, List.countP_append, List.countP_cons_of_neg (by simpa using gone),
    List.countP_cons_of_pos (by simpa using runs)]
  omega

end Group

end Mitigador.Lib
