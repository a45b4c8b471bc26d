import Mitigador.Detect.Isolation
import Mitigador.Detect.Protocol

/-! The quiet period of a key after the end of an incident, over all runs of `Step`. -/

namespace Mitigador.Detect

open Go Lib

variable {ρ : Type*}

def InOrder (trace : Calls ρ) : Prop :=
  trace.Pairwise fun newer older => older.action.2.now.ns ≤ newer.action.2.now.ns

def Late (k : Key) (deadline : Time)
    (entry : Entry (StateMachine ρ) (Key × Input) (Option AttackEvent)) : Prop :=
  entry.action.1 = k ∧ entry.action.2.now.after deadline = true

def Starts (k : Key) (entry : Entry (StateMachine ρ) (Key × Input) (Option AttackEvent)) : Prop :=
  entry.action.1 = k ∧ ∃ ev, entry.output = some ev ∧ ev.state = .started

/-- The calls that follow the end of an incident of the key, whatever calls on other keys there
are between them. -/
structure Rests (thresholdOf : Key → Threshold) (k : Key) (deadline : Time) (later : Calls ρ) :
    Prop where
  quiet : ∀ entry ∈ later, entry.action.1 = k → entry.action.2.now.ns ≤ deadline.ns →
    entry.output = none
  thaws : ∀ newer first between, later = newer ++ first :: between → Late k deadline first →
    (∀ entry ∈ between, ¬ Late k deadline entry) → first.output = none
  restarts : ∀ newer entry between, later = newer ++ entry :: between → entry.action.1 = k →
    (∀ earlier ∈ between, ¬ Starts k earlier) →
      (Starts k entry ↔ (∃ first ∈ between, Late k deadline first) ∧
        entry.action.2.violating = true ∧
        (thresholdOf k).minWindowSec ≤ entry.action.2.durationViolated)

def inputsOf (k : Key) (trace : Calls ρ) : List Input :=
  (callsOf k trace).map fun entry => entry.action.2

def returnsOf (k : Key) (trace : Calls ρ) : List (Option AttackEvent) :=
  (callsOf k trace).map fun entry => entry.output.map AttackEvent.erase

def driven (k : Key) (t : Threshold) : List Input →
    Option (MachineEntry × List (Option AttackEvent))
  | [] => some (newEntry, [])
  | i :: past =>
      match driven k t past with
      | none => none
      | some (e, returns) =>
          match e.step blankULID () k i t with
          | none => none
          | some (next, _, output) => some (next, output :: returns)

section Transitions

variable {newULID : ρ → Time → String × ρ} {rnd rest : ρ} {k : Key} {i : Input} {t : Threshold}
  {e next : MachineEntry} {output : Option AttackEvent}

theorem cooldown_of_ended {ev : AttackEvent}
    (moved : Transition newULID rnd k i t e next rest (some ev)) (ended : ev.state = .ended) :
    next = ⟨.cooldown, none, i.now.add cooldownAfterEnd⟩ := by
  cases moved with
  | start | update => simp [Incident.event] at ended
  | finish => rfl

/-- In its cooldown a key returns nothing, and the deadline alone decides whether it stays. -/
theorem step_of_cooldown (moved : Transition newULID rnd k i t e next rest output)
    (cooldown : e.state = .cooldown) :
    output = none ∧ next = if i.now.after e.cooldownUntil then { e with state := .idle } else e := by
  cases moved with
  | wait idle | start idle => exact absurd (cooldown.symm.trans idle) (by decide)
  | ease active | finish active | hold active | update active =>
      exact absurd (cooldown.symm.trans active) (by decide)
  | cool _ early => simp [early]
  | thaw _ late => simp [late]

theorem idle_of_idle (moved : Transition newULID rnd k i t e next rest output)
    (idle : e.state = .idle) (silent : ¬ ∃ ev, output = some ev ∧ ev.state = .started) :
    next.state = .idle := by
  cases moved with
  | wait => exact idle
  | start _ violating long => exact absurd ⟨_, rfl, rfl⟩ silent
  | ease active | finish active | hold active | update active =>
      exact absurd (idle.symm.trans active) (by decide)
  | cool cooldown | thaw cooldown => exact absurd (idle.symm.trans cooldown) (by decide)

end Transitions

section Runs

variable {newULID : ρ → Time → String × ρ} {thresholdOf : Key → Threshold}
  {start final : StateMachine ρ} {trace later back : Calls ρ} {k : Key} {deadline : Time}
  {entry : Entry (StateMachine ρ) (Key × Input) (Option AttackEvent)}

theorem entry_of_other {sm next : StateMachine ρ} {action : Key × Input}
    {output : Option AttackEvent}
    (moved : call newULID thresholdOf sm action = some (next, output)) (other : action.1 ≠ k) :
    next.entry k = sm.entry k := by
  rw [StateMachine.entry, StateMachine.entry,
    (StateMachine.step_cases moved).2 k (Ne.symm other)]

structure Ends (k : Key) (deadline : Time)
    (entry : Entry (StateMachine ρ) (Key × Input) (Option AttackEvent)) : Prop where
  key : entry.action.1 = k
  returned : ∃ ev, entry.output = some ev ∧ ev.state = .ended
  deadline : entry.action.2.now.add cooldownAfterEnd = deadline

theorem cooling (run : Run (call newULID thresholdOf) start (later ++ entry :: back) final)
    (ends : Ends k deadline entry) (early : ∀ call ∈ later, ¬ Late k deadline call) :
    final.entry k = ⟨.cooldown, none, deadline⟩ := by
  induction later generalizing final with
  | nil =>
      obtain ⟨rfl, ⟨ev, returned, ended⟩, rfl⟩ := ends
      cases run with
      | step past moved =>
          dsimp only at returned
          subst returned
          exact cooldown_of_ended (StateMachine.step_cases moved).1 ended
  | cons head later ih =>
      cases run with
      | @step _ state _ action output past moved =>
          have before := ih past fun call member => early call (List.mem_cons_of_mem _ member)
          by_cases own : action.1 = k
          · have transition := (StateMachine.step_cases moved).1
            have short : action.2.now.after deadline = false := by
              simpa [Late, own] using early _ List.mem_cons_self
            rw [own, before] at transition
            obtain ⟨-, kept⟩ := step_of_cooldown transition rfl
            rw [kept, short]
            rfl
          · rw [entry_of_other moved own, before]

theorem idle_after (run : Run (call newULID thresholdOf) start (later ++ entry :: back) final)
    (ends : Ends k deadline entry) (late : ∃ call ∈ later, Late k deadline call)
    (unstarted : ∀ call ∈ later, ¬ Starts k call) : (final.entry k).state = .idle := by
  induction later generalizing final with
  | nil =>
      obtain ⟨call, member, -⟩ := late
      contradiction
  | cons head later ih =>
      cases run with
      | @step _ state _ action output past moved =>
          have before : ∀ call ∈ later, ¬ Starts k call := fun call member =>
            unstarted call (List.mem_cons_of_mem _ member)
          by_cases own : action.1 = k
          · have transition := (StateMachine.step_cases moved).1
            rw [own] at transition
            by_cases earlier : ∃ call ∈ later, Late k deadline call
            · exact idle_of_idle transition (ih past earlier before) fun starts =>
                unstarted _ List.mem_cons_self ⟨own, starts⟩
            · have first : Late k deadline ⟨state, action, output⟩ := by
                obtain ⟨call, member, lateCall⟩ := late
                rcases List.mem_cons.mp member with rfl | member
                · exact lateCall
                · exact absurd ⟨call, member, lateCall⟩ earlier
              rw [cooling past ends fun call member lateCall =>
                earlier ⟨call, member, lateCall⟩] at transition
              obtain ⟨-, left⟩ := step_of_cooldown transition rfl
              rw [left, first.2]
              rfl
          · rw [entry_of_other moved own]
            refine ih past ?_ before
            obtain ⟨call, member, lateCall⟩ := late
            rcases List.mem_cons.mp member with rfl | member
            · exact absurd lateCall.1 own
            · exact ⟨call, member, lateCall⟩

theorem rests_of_ended (run : Run (call newULID thresholdOf) start (later ++ entry :: back) final)
    (ends : Ends k deadline entry) (ordered : InOrder (later ++ entry :: back)) :
    Rests thresholdOf k deadline later where
  quiet := by
    intro call member own early
    obtain ⟨newer, between, rfl⟩ := List.append_of_mem member
    rw [List.append_assoc, List.cons_append] at run ordered
    obtain ⟨past, next, moved, -⟩ := run.cut
    have clock := (List.pairwise_append.mp ordered).2.1
    rw [List.pairwise_cons] at clock
    have transition := (StateMachine.step_cases moved).1
    rw [own, cooling past ends] at transition
    · exact (step_of_cooldown transition rfl).1
    · intro older place late
      have since := clock.1 older (List.mem_append_left _ place)
      have passed : deadline.ns < older.action.2.now.ns := by simpa [Time.after] using late.2
      omega
  thaws := by
    rintro newer first between rfl ⟨own, -⟩ none
    rw [List.append_assoc, List.cons_append] at run
    obtain ⟨past, next, moved, -⟩ := run.cut
    have transition := (StateMachine.step_cases moved).1
    rw [own, cooling past ends none] at transition
    exact (step_of_cooldown transition rfl).1
  restarts := by
    rintro newer call between rfl own unstarted
    rw [List.append_assoc, List.cons_append] at run
    obtain ⟨past, next, moved, -⟩ := run.cut
    have transition := (StateMachine.step_cases moved).1
    rw [own] at transition
    have starts := started_iff transition
    rw [Starts, and_iff_right own, starts]
    refine and_congr_left fun _ => ?_
    constructor
    · intro idle
      by_contra! none
      rw [cooling past ends none] at idle
      contradiction
    · intro late
      exact idle_after past ends late unstarted

theorem driven_of_run {rnd : ρ}
    (run : Run (call newULID thresholdOf) (StateMachine.new rnd) trace final) (k : Key) :
    driven k (thresholdOf k) (inputsOf k trace) = some ((final.entry k).erase, returnsOf k trace) := by
  induction run with
  | start => rfl
  | @step trace state next action output past moved ih =>
      by_cases own : action.1 = k
      · have transition := (StateMachine.step_cases moved).1
        rw [own] at transition
        have stepped := step_of_transition (transition_erase transition)
        rw [inputsOf, returnsOf, callsOf_cons_self k trace _ own, List.map_cons, List.map_cons,
          ← inputsOf, ← returnsOf, driven, ih]
        simp only [stepped]
      · rw [inputsOf, returnsOf, callsOf_cons_other k trace _ own, ← inputsOf, ← returnsOf, ih,
          entry_of_other moved own]

end Runs

/-- In every run of calls whose times do not decrease, the end of an incident at a time e is
followed by nothing until e + 60 s, by nothing at the first later call on the key, and by the next
incident at the first call after that one which violates long enough. The calls on other keys play
no part in what a key returns. -/
theorem cooldown {newULID : ρ → Time → String × ρ} (thresholdOf : Key → Threshold) (rnd : ρ)
    {trace : Calls ρ} {final : StateMachine ρ}
    (run : Run (call newULID thresholdOf) (StateMachine.new rnd) trace final)
    (ordered : InOrder trace) :
    (∀ later entry back ev, trace = later ++ entry :: back → entry.output = some ev →
      ev.state = .ended →
        Rests thresholdOf entry.action.1 (entry.action.2.now.add cooldownAfterEnd) later) ∧
      ∀ k, ∃ e, driven k (thresholdOf k) (inputsOf k trace) = some (e, returnsOf k trace) := by
  constructor
  · rintro later entry back ev rfl returned ended
    exact rests_of_ended run ⟨rfl, ⟨ev, returned, ended⟩, rfl⟩ ordered
  · intro k
    exact ⟨_, driven_of_run run k⟩

def seen (entry : Entry (StateMachine Nat) (Key × Input) (Option AttackEvent)) :
    Key × Time × Option State :=
  (entry.action.1, entry.action.2.now, entry.output.map AttackEvent.state)

def otherKey : Key := ⟨.v4 0xc0000202, .udpFlood⟩

theorem cooldown_sample : ∃ (trace : Calls Nat) (final : StateMachine Nat)
    (later back : Calls Nat) (entry : Entry (StateMachine Nat) (Key × Input) (Option AttackEvent)),
    Run (call countingULID fun _ => sampleThreshold 1 1 1 1) (StateMachine.new 0) trace final ∧
      trace = later ++ entry :: back ∧
      later.map seen = [(sampleKey, Time.ofUnix 163, some .started),
        (sampleKey, Time.ofUnix 162, none), (sampleKey, Time.ofUnix 161, none),
        (otherKey, Time.ofUnix 130, some .started)] ∧
      Rests (fun _ => sampleThreshold 1 1 1 1) sampleKey (Time.ofUnix 161) later := by
  have executed : (Run.replay (call countingULID fun _ => sampleThreshold 1 1 1 1) []
      (StateMachine.new 0) [(sampleKey, sampleInput 100 true), (sampleKey, sampleInput 101 false),
        (otherKey, sampleInput 130 true), (sampleKey, sampleInput 161 true),
        (sampleKey, sampleInput 162 true), (sampleKey, sampleInput 163 true)]).map
          (fun made => made.1.map seen) =
      some ([(sampleKey, Time.ofUnix 163, some .started), (sampleKey, Time.ofUnix 162, none),
        (sampleKey, Time.ofUnix 161, none), (otherKey, Time.ofUnix 130, some .started)] ++
          (sampleKey, Time.ofUnix 101, some .ended) ::
            [(sampleKey, Time.ofUnix 100, some .started)]) := by
    decide +kernel
  obtain ⟨⟨trace, final⟩, replayed, observed⟩ := Option.map_eq_some_iff.mp executed
  have run := Run.of_replay .start replayed
  have ordered : InOrder trace := by
    have listed : (trace.map seen).Pairwise fun newer older => older.2.1.ns ≤ newer.2.1.ns := by
      rw [observed]
      decide
    exact List.pairwise_map.mp listed
  obtain ⟨later, rest, rfl, newer, older⟩ := List.map_eq_append_iff.mp observed
  obtain ⟨entry, back, rfl, ended, -⟩ := List.map_eq_cons_iff.mp older
  simp only [seen, Prod.mk.injEq, Option.map_eq_some_iff] at ended
  obtain ⟨key, now, ev, returned, state⟩ := ended
  have rests := (cooldown _ _ run ordered).1 later entry back ev rfl returned state
  rw [key, now] at rests
  exact ⟨_, final, later, back, entry, run, rfl, newer, rests⟩

end Mitigador.Detect
