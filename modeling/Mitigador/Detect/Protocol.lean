import Mitigador.Detect.State
import Mitigador.Lib.Run
import Mitigador.Lib.Streak

/-! The event protocol of the incident state machine, over all runs of `Step`. -/

namespace Mitigador.Detect

open Go Lib

variable {ρ : Type*}

def call (newULID : ρ → Time → String × ρ) (thresholdOf : Key → Threshold)
    (sm : StateMachine ρ) (action : Key × Input) :
    Option (StateMachine ρ × Option AttackEvent) :=
  sm.step newULID action.1 action.2 (thresholdOf action.1)

abbrev Calls (ρ : Type*) := List (Entry (StateMachine ρ) (Key × Input) (Option AttackEvent))

def callsOf (k : Key) (trace : Calls ρ) : Calls ρ :=
  trace.filter fun entry => entry.action.1 = k

def eventsOf (k : Key) (trace : Calls ρ) : List AttackEvent :=
  ((callsOf k trace).filterMap Entry.output).reverse

def quiet (entry : Entry (StateMachine ρ) (Key × Input) (Option AttackEvent)) : Bool :=
  !entry.action.2.violating

def Uniform (k : Key) (id : String) (startedAt : Time) (group : List AttackEvent) : Prop :=
  ∀ ev ∈ group, ev.incidentID = id ∧ ev.startedAt = startedAt ∧
    ev.hostIP = k.hostIP ∧ ev.vector = k.vector

/-- Started, at most one Updated, Ended, all of one incident. -/
def Finished (k : Key) (group : List AttackEvent) : Prop :=
  (group.map AttackEvent.state = [.started, .ended] ∨
    group.map AttackEvent.state = [.started, .updated, .ended]) ∧
  ∃ id startedAt, Uniform k id startedAt group

/-- A proper prefix of a finished group. -/
def Unfinished (k : Key) (group : List AttackEvent) : Prop :=
  (group.map AttackEvent.state = [] ∨ group.map AttackEvent.state = [.started] ∨
    group.map AttackEvent.state = [.started, .updated]) ∧
  ∃ id startedAt, Uniform k id startedAt group

/-- The latest event of the key has not ended its group. -/
def GroupOpen (events : List AttackEvent) : Prop :=
  ∃ state, (events.map AttackEvent.state).getLast? = some state ∧ state ≠ .ended

theorem callsOf_cons_self (k : Key) (trace : Calls ρ)
    (entry : Entry (StateMachine ρ) (Key × Input) (Option AttackEvent))
    (same : entry.action.1 = k) : callsOf k (entry :: trace) = entry :: callsOf k trace := by
  simp [callsOf, same]

theorem callsOf_cons_other (k : Key) (trace : Calls ρ)
    (entry : Entry (StateMachine ρ) (Key × Input) (Option AttackEvent))
    (different : entry.action.1 ≠ k) : callsOf k (entry :: trace) = callsOf k trace := by
  simp [callsOf, different]

theorem eventsOf_cons_self (k : Key) (trace : Calls ρ)
    (entry : Entry (StateMachine ρ) (Key × Input) (Option AttackEvent))
    (same : entry.action.1 = k) :
    eventsOf k (entry :: trace) = eventsOf k trace ++ entry.output.toList := by
  rw [eventsOf, callsOf_cons_self k trace entry same]
  cases returned : entry.output <;> simp [eventsOf, returned]

theorem eventsOf_cons_other (k : Key) (trace : Calls ρ)
    (entry : Entry (StateMachine ρ) (Key × Input) (Option AttackEvent))
    (different : entry.action.1 ≠ k) : eventsOf k (entry :: trace) = eventsOf k trace := by
  rw [eventsOf, callsOf_cons_other k trace entry different, eventsOf]

theorem not_open_of_finished {k : Key} {done : List (List AttackEvent)}
    (finished : ∀ group ∈ done, Finished k group) : ¬ GroupOpen done.flatten := by
  rintro ⟨state, last, alive⟩
  rcases List.eq_nil_or_concat done with rfl | ⟨front, group, rfl⟩
  · simp at last
  · have shape := (finished group (by simp)).1
    have nonempty : group.map AttackEvent.state ≠ [] := by
      rcases shape with short | long
      · simp [short]
      · simp [long]
    rw [List.concat_eq_append, List.flatten_append, List.flatten_singleton, List.map_append,
      List.getLast?_append_of_ne_nil _ nonempty] at last
    rcases shape with short | long
    · rw [short] at last
      exact alive (Option.some.inj last).symm
    · rw [long] at last
      exact alive (Option.some.inj last).symm

inductive Tracked (k : Key) (t : Threshold) (trace : Calls ρ) (e : MachineEntry) : Prop
  | closed (inactive : e.state ≠ .active) (done : List (List AttackEvent))
      (events : eventsOf k trace = done.flatten) (finished : ∀ group ∈ done, Finished k group)
  | running (inc : Incident) (active : e.state = .active) (present : e.inc = some inc)
      (done : List (List AttackEvent)) (last : List AttackEvent)
      (events : eventsOf k trace = done.flatten ++ last)
      (finished : ∀ group ∈ done, Finished k group)
      (shape : last.map AttackEvent.state =
        if inc.updateEmitted then [.started, .updated] else [.started])
      (uniform : Uniform k inc.id inc.startedAt last)
      (counted : inc.noViolationTicks = streak quiet (callsOf k trace))
      (short : (inc.noViolationTicks : Int) < graceTicks t)

theorem Tracked.sound {k : Key} {t : Threshold} {trace : Calls ρ} {e : MachineEntry}
    (tracked : Tracked k t trace e) : e.Sound := by
  intro active
  cases tracked with
  | closed inactive => exact absurd active inactive
  | running inc _ present => rw [present]; rfl

theorem Tracked.open_iff {k : Key} {t : Threshold} {trace : Calls ρ} {e : MachineEntry}
    (tracked : Tracked k t trace e) : GroupOpen (eventsOf k trace) ↔ e.state = .active := by
  cases tracked with
  | closed inactive done events finished =>
      rw [events]
      exact ⟨fun opened => absurd opened (not_open_of_finished finished),
        fun active => absurd active inactive⟩
  | running inc active _ done last events _ shape =>
      refine ⟨fun _ => active, fun _ => ?_⟩
      have nonempty : last.map AttackEvent.state ≠ [] := by
        rw [shape]
        split <;> simp
      unfold GroupOpen
      rw [events, List.map_append, List.getLast?_append_of_ne_nil _ nonempty, shape]
      split
      · exact ⟨.updated, rfl, by decide⟩
      · exact ⟨.started, rfl, by decide⟩

theorem uniform_append {k : Key} {id : String} {startedAt : Time} {group : List AttackEvent}
    (uniform : Uniform k id startedAt group) (inc : Incident) (sameID : inc.id = id)
    (sameStart : inc.startedAt = startedAt) (i : Input) (state : State) :
    Uniform k id startedAt (group ++ [inc.event k i state]) := by
  intro ev member
  rcases List.mem_append.mp member with earlier | latest
  · exact uniform ev earlier
  · rw [List.mem_singleton.mp latest]
    exact ⟨sameID, sameStart, rfl, rfl⟩

variable {newULID : ρ → Time → String × ρ}

theorem Tracked.step {k : Key} {t : Threshold} {trace : Calls ρ} {e next : MachineEntry}
    {rnd rest : ρ} {i : Input} {output : Option AttackEvent} {sm : StateMachine ρ}
    (tracked : Tracked k t trace e) (moved : Transition newULID rnd k i t e next rest output) :
    Tracked k t (⟨sm, (k, i), output⟩ :: trace) next := by
  have events := eventsOf_cons_self k trace ⟨sm, (k, i), output⟩ rfl
  have calls := callsOf_cons_self k trace ⟨sm, (k, i), output⟩ rfl
  cases tracked with
  | closed inactive done before finished =>
      cases moved with
      | wait idle | cool cooldown =>
          exact .closed inactive done (by simp [events, before]) finished
      | thaw cooldown => exact .closed (by simp) done (by simp [events, before]) finished
      | start idle violating long =>
          refine .running _ rfl rfl done _ (by rw [events, before]) finished rfl ?_ ?_
            (graceTicks_pos t)
          · intro ev member
            rw [List.mem_singleton.mp member]
            exact ⟨rfl, rfl, rfl, rfl⟩
          · rw [calls, streak_cons_neg quiet _ (by simp [quiet, violating])]
            rfl
      | ease active | finish active | hold active | update active => exact absurd active inactive
  | running inc active present done last before finished shape uniform counted short =>
      cases moved with
      | wait idle | start idle => rw [active] at idle; contradiction
      | cool cooldown | thaw cooldown => rw [active] at cooldown; contradiction
      | @ease known _ same silent shorter =>
          obtain rfl : known = inc := Option.some.inj (same.symm.trans present)
          refine .running _ active rfl done last (by simp [events, before]) finished shape uniform
            ?_ (by simpa using shorter)
          rw [calls, streak_cons_pos quiet _ (by simp [quiet, silent]), ← counted]
      | @finish known _ same silent long =>
          obtain rfl : known = inc := Option.some.inj (same.symm.trans present)
          refine .closed (by simp) (done ++ [last ++ [(known.observe i).event k i .ended]])
            (by simp [events, before]) ?_
          intro group member
          rcases List.mem_append.mp member with earlier | latest
          · exact finished group earlier
          · rw [List.mem_singleton.mp latest]
            refine ⟨?_, known.id, known.startedAt,
              uniform_append uniform (known.observe i) rfl rfl i .ended⟩
            rw [List.map_append, shape]
            cases known.updateEmitted with
            | false => left; rfl
            | true => right; rfl
      | @hold known _ same violating small =>
          obtain rfl : known = inc := Option.some.inj (same.symm.trans present)
          refine .running _ active rfl done last (by simp [events, before]) finished shape uniform
            ?_ (graceTicks_pos t)
          rw [calls, streak_cons_neg quiet _ (by simp [quiet, violating])]
      | @update known _ same violating first large =>
          obtain rfl : known = inc := Option.some.inj (same.symm.trans present)
          refine .running _ active rfl done (last ++ [(known.observe i).event k i .updated])
            (by simp [events, before]) finished ?_
            (uniform_append uniform (known.observe i) rfl rfl i .updated) ?_
            (graceTicks_pos t)
          · rw [List.map_append, shape, first]
            rfl
          · rw [calls, streak_cons_neg quiet _ (by simp [quiet, violating])]

theorem Tracked.other {k : Key} {t : Threshold} {trace : Calls ρ} {e : MachineEntry}
    {entry : Entry (StateMachine ρ) (Key × Input) (Option AttackEvent)}
    (tracked : Tracked k t trace e) (different : entry.action.1 ≠ k) :
    Tracked k t (entry :: trace) e := by
  have events := eventsOf_cons_other k trace entry different
  have calls := callsOf_cons_other k trace entry different
  cases tracked with
  | closed inactive done before finished =>
      exact .closed inactive done (events.trans before) finished
  | running inc active present done last before finished shape uniform counted short =>
      exact .running inc active present done last (events.trans before) finished shape uniform
        (by rw [calls, counted]) short

theorem tracked_run {thresholdOf : Key → Threshold} {rnd : ρ} {trace : Calls ρ}
    {final : StateMachine ρ}
    (run : Run (call newULID thresholdOf) (StateMachine.new rnd) trace final) (k : Key) :
    Tracked k (thresholdOf k) trace (final.entry k) := by
  apply run.invariant (fun _ _ _ => True)
    (fun trace sm => Tracked k (thresholdOf k) trace (sm.entry k))
  · exact .closed (by simp [StateMachine.entry, StateMachine.new, newEntry]) [] rfl (by simp)
  · intro trace sm action next output past tracked _ moved
    obtain ⟨transition, frame⟩ := StateMachine.step_cases moved
    by_cases same : action.1 = k
    · subst same
      exact tracked.step transition
    · have untouched : next.entry k = sm.entry k := by
        rw [StateMachine.entry, StateMachine.entry, frame k (Ne.symm same)]
      rw [untouched]
      exact tracked.other same
  · intros
    trivial

theorem ended_iff {k : Key} {t : Threshold} {trace : Calls ρ} {e next : MachineEntry}
    {rnd rest : ρ} {i : Input} {output : Option AttackEvent} (sm : StateMachine ρ)
    (tracked : Tracked k t trace e) (moved : Transition newULID rnd k i t e next rest output) :
    (∃ ev, output = some ev ∧ ev.state = .ended) ↔ GroupOpen (eventsOf k trace) ∧
      (streak quiet (callsOf k (⟨sm, (k, i), output⟩ :: trace)) : Int) = graceTicks t := by
  rw [tracked.open_iff, callsOf_cons_self k trace _ rfl]
  have positive := graceTicks_pos t
  cases tracked with
  | closed inactive =>
      cases moved with
      | wait | cool | thaw => simp [inactive]
      | start idle => simp [inactive, Incident.event]
      | ease active | finish active | hold active | update active => exact absurd active inactive
  | running inc active present _ _ _ _ _ _ counted short =>
      cases moved with
      | wait idle | start idle => rw [active] at idle; contradiction
      | cool cooldown | thaw cooldown => rw [active] at cooldown; contradiction
      | @ease known _ same silent shorter =>
          obtain rfl : known = inc := Option.some.inj (same.symm.trans present)
          rw [streak_cons_pos quiet _ (by simp [quiet, silent]), ← counted]
          constructor
          · intro returned
            obtain ⟨_, impossible, _⟩ := returned
            contradiction
          · intro complete
            have full := complete.2
            push_cast at full
            omega
      | @finish known _ same silent long =>
          obtain rfl : known = inc := Option.some.inj (same.symm.trans present)
          rw [streak_cons_pos quiet _ (by simp [quiet, silent]), ← counted]
          refine ⟨fun _ => ⟨active, ?_⟩, fun _ => ⟨_, rfl, rfl⟩⟩
          push_cast
          omega
      | hold _ _ violating | update _ _ violating =>
          rw [streak_cons_neg quiet _ (by simp [quiet, violating])]
          simp [Incident.event, positive.ne]

theorem endedAt_zero {k : Key} {t : Threshold} {e next : MachineEntry} {rnd rest : ρ} {i : Input}
    {ev : AttackEvent} (moved : Transition newULID rnd k i t e next rest (some ev))
    (alive : ev.state ≠ .ended) : ev.endedAt = Time.zero := by
  cases moved with
  | start | update => rfl
  | finish => exact absurd rfl alive

/-- The event protocol over one run of calls; `entry :: back` is a call with those before it. -/
structure ObeysProtocol (newULID : ρ → Time → String × ρ) (thresholdOf : Key → Threshold)
    (trace : Calls ρ) (final : StateMachine ρ) : Prop where
  groups : ∀ k, ∃ (done : List (List AttackEvent)) (last : List AttackEvent),
    eventsOf k trace = done.flatten ++ last ∧ (∀ group ∈ done, Finished k group) ∧ Unfinished k last
  starts : ∀ entry back, entry :: back <:+ trace →
    ((∃ ev, entry.output = some ev ∧ ev.state = .started) ↔
      (entry.before.entry entry.action.1).state = .idle ∧ entry.action.2.violating = true ∧
        (thresholdOf entry.action.1).minWindowSec ≤ entry.action.2.durationViolated)
  ends : ∀ entry back, entry :: back <:+ trace →
    ((∃ ev, entry.output = some ev ∧ ev.state = .ended) ↔
      GroupOpen (eventsOf entry.action.1 back) ∧
        (streak quiet (callsOf entry.action.1 (entry :: back)) : Int) =
          graceTicks (thresholdOf entry.action.1))
  endedAt : ∀ entry back, entry :: back <:+ trace → ∀ ev, entry.output = some ev →
    ev.state ≠ .ended → ev.endedAt = Time.zero
  isolated : ∀ entry back, entry :: back <:+ trace → ∀ next,
    call newULID thresholdOf entry.before entry.action = some (next, entry.output) →
      ∀ other, other ≠ entry.action.1 → next.m other = entry.before.m other
  total : ∀ action, ∃ result, call newULID thresholdOf final action = some result

theorem Tracked.groups {k : Key} {t : Threshold} {trace : Calls ρ} {e : MachineEntry}
    (tracked : Tracked k t trace e) :
    ∃ (done : List (List AttackEvent)) (last : List AttackEvent),
      eventsOf k trace = done.flatten ++ last ∧ (∀ group ∈ done, Finished k group) ∧
        Unfinished k last := by
  cases tracked with
  | closed _ done events finished =>
      exact ⟨done, [], by simp [events], finished, Or.inl rfl, "", Time.zero, by simp [Uniform]⟩
  | running inc _ _ done last events finished shape uniform =>
      refine ⟨done, last, events, finished, ?_, _, _, uniform⟩
      rw [shape]
      cases inc.updateEmitted with
      | false => right; left; rfl
      | true => right; right; rfl

/-- The incident events of every key follow the protocol in every run of calls. -/
theorem incident_protocol (thresholdOf : Key → Threshold) (rnd : ρ) {trace : Calls ρ}
    {final : StateMachine ρ}
    (run : Run (call newULID thresholdOf) (StateMachine.new rnd) trace final) :
    ObeysProtocol newULID thresholdOf trace final where
  groups k := (tracked_run run k).groups
  starts := by
    rintro entry back ⟨front, rfl⟩
    obtain ⟨-, next, moved, -⟩ := run.cut
    exact started_iff (StateMachine.step_cases moved).1
  ends := by
    rintro entry back ⟨front, rfl⟩
    obtain ⟨past, next, moved, -⟩ := run.cut
    exact ended_iff entry.before (tracked_run past entry.action.1)
      (StateMachine.step_cases moved).1
  endedAt := by
    rintro entry back ⟨front, rfl⟩ ev returned alive
    obtain ⟨-, next, moved, -⟩ := run.cut
    rw [returned] at moved
    exact endedAt_zero (StateMachine.step_cases moved).1 alive
  isolated := by
    intro entry back _ next moved
    exact (StateMachine.step_cases moved).2
  total action := StateMachine.step_total newULID (tracked_run run action.1).sound _ _

def sampleInput (now : Int) (violating : Bool) : Input where
  now := Time.ofUnix now
  currentPps := 7
  currentBps := 700
  avgPpsLastWindow := 7
  avgBpsLastWindow := 700
  violating := violating
  durationViolated := 1
  hostgroup := "corporate"
  confidence := 0

theorem incident_protocol_sample : ∃ (trace : Calls Nat) (final : StateMachine Nat),
    (eventsOf sampleKey trace).map AttackEvent.state = [.started, .ended] ∧
      ObeysProtocol countingULID (fun _ => sampleThreshold 1 1 1 1) trace final := by
  have executed : (Run.replay (call countingULID fun _ => sampleThreshold 1 1 1 1) []
      (StateMachine.new 0)
      [(sampleKey, sampleInput 100 true), (sampleKey, sampleInput 101 false)]).map
        (fun made => (eventsOf sampleKey made.1).map AttackEvent.state) =
      some [.started, .ended] := by
    decide +kernel
  obtain ⟨⟨trace, final⟩, replayed, events⟩ := Option.map_eq_some_iff.mp executed
  exact ⟨trace, final, events,
    incident_protocol (fun _ => sampleThreshold 1 1 1 1) 0 (Run.of_replay .start replayed)⟩

end Mitigador.Detect
