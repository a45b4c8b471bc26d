import Mathlib.Data.List.Basic

/-! Runs of a partial step function, kept as traces with the newest entry first. -/

namespace Mitigador.Lib

universe u v w

structure Entry (State : Type u) (Action : Type v) (Output : Type w) where
  before : State
  action : Action
  output : Output

variable {State : Type u} {Action : Type v} {Output : Type w}

/-- `step` answers `none` where the action is not enabled, or where the program panics. -/
inductive Run (step : State → Action → Option (State × Output)) (start : State) :
    List (Entry State Action Output) → State → Prop
  | start : Run step start [] start
  | step {trace : List (Entry State Action Output)} {state next : State} {action : Action}
      {output : Output} (past : Run step start trace state)
      (moved : step state action = some (next, output)) :
      Run step start (⟨state, action, output⟩ :: trace) next

namespace Run

variable {step : State → Action → Option (State × Output)} {start : State}

theorem cut {front back : List (Entry State Action Output)}
    {entry : Entry State Action Output} {final : State}
    (run : Run step start (front ++ entry :: back) final) :
    Run step start back entry.before ∧
      ∃ next, step entry.before entry.action = some (next, entry.output) ∧
        Run step start (entry :: back) next := by
  induction front generalizing final with
  | nil =>
      cases run with
      | step past moved => exact ⟨past, _, moved, .step past moved⟩
  | cons head front ih =>
      cases run with
      | step past moved => exact ih past

theorem trans {older newer : List (Entry State Action Output)} {middle final : State}
    (past : Run step start older middle) (more : Run step middle newer final) :
    Run step start (newer ++ older) final := by
  induction more with
  | start => exact past
  | step _ moved ih => exact .step ih moved

theorem guarded_of_suffix
    {P : List (Entry State Action Output) → Entry State Action Output → Prop}
    {trace rest : List (Entry State Action Output)} (suffix : rest <:+ trace)
    (guarded : ∀ front entry back, trace = front ++ entry :: back → P back entry) :
    ∀ front entry back, rest = front ++ entry :: back → P back entry := by
  obtain ⟨newer, rfl⟩ := suffix
  rintro front entry back rfl
  exact guarded (newer ++ front) entry back (List.append_assoc ..).symm

/-- The invariant rule under a guard: a property of trace and state that holds at the start
and survives every guarded step holds at the end of every run whose steps all meet the guard. -/
theorem invariant (Guard : List (Entry State Action Output) → State → Action → Prop)
    (Holds : List (Entry State Action Output) → State → Prop) (initial : Holds [] start)
    (preserved : ∀ trace state action next output, Run step start trace state →
      Holds trace state → Guard trace state action → step state action = some (next, output) →
      Holds (⟨state, action, output⟩ :: trace) next)
    {trace : List (Entry State Action Output)} {final : State} (run : Run step start trace final)
    (guarded : ∀ front entry back, trace = front ++ entry :: back →
      Guard back entry.before entry.action) : Holds trace final := by
  induction run with
  | start => exact initial
  | @step trace state next action output past moved ih =>
      have earlier : Holds trace state := ih (guarded_of_suffix (List.suffix_cons ..) guarded)
      exact preserved trace state action next output past earlier
        (guarded [] ⟨state, action, output⟩ trace rfl) moved

/-- Forward simulation: where each step of a system is answered by steps of a model that keep the
two related, each run is. -/
theorem simulation {ModelState : Type*} {ModelAction : Type*} {ModelOutput : Type*}
    {model : ModelState → ModelAction → Option (ModelState × ModelOutput)} {origin : ModelState}
    {R : List (Entry State Action Output) → State →
      List (Entry ModelState ModelAction ModelOutput) → ModelState → Prop}
    (initial : R [] start [] origin)
    (answered : ∀ {trace state taken other action next output},
      Run step start trace state → Run model origin taken other → R trace state taken other →
        step state action = some (next, output) → ∃ more after, Run model other more after ∧
          R (⟨state, action, output⟩ :: trace) next (more ++ taken) after)
    {trace : List (Entry State Action Output)} {final : State}
    (run : Run step start trace final) :
    ∃ taken last, Run model origin taken last ∧ R trace final taken last := by
  induction run with
  | start => exact ⟨[], origin, .start, initial⟩
  | step past moved ih =>
      obtain ⟨taken, other, followed, related⟩ := ih
      obtain ⟨more, after, further, kept⟩ := answered past followed related moved
      exact ⟨more ++ taken, after, followed.trans further, kept⟩

/-- A property that the start lacks either fails all along, or there is the step that first makes
it true. -/
theorem first_time {P : State → Prop} {trace : List (Entry State Action Output)} {final : State}
    (run : Run step start trace final) (initial : ¬ P start) :
    (¬ P final ∧ ∀ entry ∈ trace, ¬ P entry.before) ∨
      ∃ front entry back next, trace = front ++ entry :: back ∧ Run step start back entry.before ∧
        (∀ older ∈ back, ¬ P older.before) ∧ ¬ P entry.before ∧
        step entry.before entry.action = some (next, entry.output) ∧ P next := by
  induction run with
  | start => exact .inl ⟨initial, fun _ impossible => nomatch impossible⟩
  | @step trace state next action output past moved ih =>
      rcases ih with ⟨never, before⟩ | ⟨front, entry, back, after, rfl, rest⟩
      · by_cases now : P next
        · exact .inr ⟨[], ⟨state, action, output⟩, trace, next, rfl, past, before, never, moved, now⟩
        · refine .inl ⟨now, fun entry member => ?_⟩
          rcases List.mem_cons.mp member with rfl | older
          · exact never
          · exact before entry older
      · exact .inr ⟨_ :: front, entry, back, after, rfl, rest⟩

theorem determined {first second : List (Entry State Action Output)} {final other : State}
    (run : Run step start first final) (again : Run step start second other)
    (same : first.map Entry.action = second.map Entry.action) :
    first = second ∧ final = other := by
  induction run generalizing second other with
  | start =>
      obtain rfl := List.map_eq_nil_iff.mp same.symm
      cases again
      exact ⟨rfl, rfl⟩
  | @step trace state next action output past moved ih =>
      cases again with
      | start => contradiction
      | @step trace' state' next' action' output' past' moved' =>
          simp only [List.map_cons, List.cons.injEq] at same
          obtain ⟨rfl, earlier⟩ := same
          obtain ⟨rfl, rfl⟩ := ih past' earlier
          rw [moved] at moved'
          cases moved'
          exact ⟨rfl, rfl⟩

def collect {α : Type*} (pick : Entry State Action Output → Option α)
    (trace : List (Entry State Action Output)) : List α :=
  (trace.filterMap pick).reverse

theorem collect_cons {α : Type*} (pick : Entry State Action Output → Option α)
    (entry : Entry State Action Output) (trace : List (Entry State Action Output)) :
    collect pick (entry :: trace) = collect pick trace ++ (pick entry).toList := by
  unfold collect
  cases seen : pick entry with
  | none => simp [seen]
  | some value => simp [seen]

theorem mem_collect {α : Type*} {pick : Entry State Action Output → Option α}
    {trace : List (Entry State Action Output)} {value : α} :
    value ∈ collect pick trace ↔ ∃ entry ∈ trace, pick entry = some value := by
  simp [collect]

theorem collect_append {α : Type*} (pick : Entry State Action Output → Option α)
    (newer older : List (Entry State Action Output)) :
    collect pick (newer ++ older) = collect pick older ++ collect pick newer := by
  simp [collect]

theorem head_collect_eq_some_iff {α : Type*} {pick : Entry State Action Output → Option α}
    {trace : List (Entry State Action Output)} {value : α} :
    (collect pick trace).head? = some value ↔
      ∃ newer entry older, trace = newer ++ entry :: older ∧ pick entry = some value ∧
        ∀ other ∈ older, pick other = none := by
  constructor
  · intro first
    obtain ⟨rest, found⟩ := List.head?_eq_some_iff.mp first
    have last : trace.filterMap pick = rest.reverse ++ [value] := by
      rw [← List.reverse_inj, List.reverse_append, List.reverse_reverse]
      exact found
    obtain ⟨newer, older, rfl, -, ends⟩ := List.filterMap_eq_append_iff.mp last
    obtain ⟨before, entry, after, rfl, none, picked, nothing⟩ := List.filterMap_eq_cons_iff.mp ends
    refine ⟨newer ++ before, entry, after, (List.append_assoc ..).symm, picked, ?_⟩
    exact fun other member => List.filterMap_eq_nil_iff.mp nothing other member
  · rintro ⟨newer, entry, older, rfl, picked, nothing⟩
    have before : older.filterMap pick = [] := List.filterMap_eq_nil_iff.mpr nothing
    simp [collect, picked, before]

def checks (test : List (Entry State Action Output) → Entry State Action Output → Bool) :
    List (Entry State Action Output) → Bool
  | [] => true
  | entry :: back => test back entry && checks test back

theorem of_checks {test : List (Entry State Action Output) → Entry State Action Output → Bool}
    {trace : List (Entry State Action Output)} (passed : checks test trace = true) :
    ∀ front entry back, trace = front ++ entry :: back → test back entry = true := by
  intro front entry back split
  induction front generalizing trace with
  | nil =>
      subst split
      exact (Bool.and_eq_true_iff.mp passed).1
  | cons head front ih =>
      subst split
      exact ih (Bool.and_eq_true_iff.mp passed).2 rfl

def replay (step : State → Action → Option (State × Output)) :
    List (Entry State Action Output) → State → List Action →
      Option (List (Entry State Action Output) × State)
  | trace, state, [] => some (trace, state)
  | trace, state, action :: rest =>
      match step state action with
      | none => none
      | some (next, output) => replay step (⟨state, action, output⟩ :: trace) next rest

theorem of_replay {trace final : List (Entry State Action Output)} {state last : State}
    {actions : List Action} (past : Run step start trace state)
    (replayed : replay step trace state actions = some (final, last)) :
    Run step start final last := by
  induction actions generalizing trace state with
  | nil =>
      simp only [replay, Option.some.injEq, Prod.mk.injEq] at replayed
      obtain ⟨rfl, rfl⟩ := replayed
      exact past
  | cons action rest ih =>
      simp only [replay] at replayed
      split at replayed
      · contradiction
      · next next output moved => exact ih (.step past moved) replayed

theorem actions_of_replay {trace final : List (Entry State Action Output)} {state last : State}
    {actions : List Action} (replayed : replay step trace state actions = some (final, last)) :
    final.map Entry.action = actions.reverse ++ trace.map Entry.action := by
  induction actions generalizing trace state with
  | nil =>
      simp only [replay, Option.some.injEq, Prod.mk.injEq] at replayed
      rw [replayed.1]
      rfl
  | cons action rest ih =>
      simp only [replay] at replayed
      split at replayed
      · contradiction
      · rw [ih replayed]
        simp

end Run

end Mitigador.Lib
