import Mathlib.Data.List.Basic
import Mitigador.Incident.Recorder

/-! What becomes of the events that are buffered when the recorder is told to stop. -/

namespace Mitigador.Incident.Recorder

open Go Detect Lib

inductive Moved (r : Recorder) : Action → Recorder → Option Pass → Prop
  | publish {ev input sent} (offered : r.input.offer ev = some (input, sent)) :
      Moved r (.publish ev) { r with input := input } none
  | closeInput {input} (closed : r.input.close = some input) :
      Moved r .closeInput { r with input := input } none
  | cancel : Moved r .cancel { r with canceled := true } none
  | expire : Moved r .expire { r with expired := true } none
  | done (selecting : r.run = .selecting) (canceled : r.canceled = true) :
      Moved r .done { r with run := .draining } none
  | take {ev input} (selecting : r.run = .selecting)
      (received : r.input.receive = some (some ev, input)) :
      Moved r .take { r with input := input, run := .handling (r.pass ev .run) }
        (some (r.pass ev .run))
  | idle (selecting : r.run = .selecting) (nothing : r.input.buffer = []) : Moved r .take r none
  | deadline (draining : r.run = .draining) (expired : r.expired = true) :
      Moved r .drainDone { r with run := .returned } none
  | drain {ev input} (draining : r.run = .draining)
      (received : r.input.receive = some (some ev, input)) :
      Moved r .drainTake { r with input := input, run := .handling (r.pass ev .drain) }
        (some (r.pass ev .drain))
  | empty {action} (picked : action = .drainTake ∨ action = .drainDefault)
      (draining : r.run = .draining) (nothing : r.input.buffer = []) :
      Moved r action { r with run := .returned } none
  | finish {pass persisted} (handling : r.run = .handling pass) :
      Moved r (.finish persisted)
        { r with
          persisted := if persisted then r.persisted ++ [pass.ev] else r.persisted
          run := match pass.ctx with | .run => .selecting | .drain => .draining } none

theorem step_cases {r next : Recorder} {action : Action} {output : Option Pass}
    (stepped : r.step action = some (next, output)) : Moved r action next output := by
  cases action with
  | publish ev =>
      simp only [step] at stepped
      split at stepped
      · contradiction
      · next input sent offered =>
          cases stepped
          exact .publish offered
  | closeInput =>
      simp only [step] at stepped
      split at stepped
      · contradiction
      · next input closed =>
          cases stepped
          exact .closeInput closed
  | cancel =>
      cases stepped
      exact .cancel
  | expire =>
      simp only [step] at stepped
      split at stepped
      · cases stepped
        exact .expire
      · cases stepped
        exact .expire
      · contradiction
  | done =>
      simp only [step] at stepped
      split at stepped
      · next selecting =>
          split at stepped
          · next canceled =>
              cases stepped
              exact .done selecting canceled
          · contradiction
      · contradiction
  | take =>
      simp only [step] at stepped
      split at stepped
      · next selecting =>
          split at stepped
          · contradiction
          · next ended =>
              cases stepped
              exact .idle selecting (Chan.receive_ended ended)
          · next ev input received =>
              cases stepped
              exact .take selecting received
      · contradiction
  | drainDone =>
      simp only [step] at stepped
      split at stepped
      · next draining =>
          split at stepped
          · next expired =>
              cases stepped
              exact .deadline draining expired
          · contradiction
      · contradiction
  | drainTake =>
      simp only [step] at stepped
      split at stepped
      · next draining =>
          split at stepped
          · contradiction
          · next ended =>
              cases stepped
              exact .empty (.inl rfl) draining (Chan.receive_ended ended)
          · next ev input received =>
              cases stepped
              exact .drain draining received
      · contradiction
  | drainDefault =>
      simp only [step] at stepped
      split at stepped
      · next draining blocked =>
          split at stepped
          · contradiction
          · cases stepped
            exact .empty (.inr rfl) draining (Chan.receive_none blocked)
      · contradiction
  | finish persisted =>
      simp only [step] at stepped
      split at stepped
      · next pass handling =>
          split at stepped
          · contradiction
          · cases stepped
            exact .finish handling
      · contradiction

def inDrain : RunState → Bool
  | .selecting | .handling ⟨_, .run, _⟩ => false
  | .draining | .handling ⟨_, .drain, _⟩ | .returned => true

/-- What ties the calls of the store to the input, whichever cases `Run` picks. -/
structure Track (trace : Trace) (r : Recorder) : Prop where
  early : r.canceled = false → buffered trace = [] ∧ passedSince trace = []
  late : inDrain r.run = true → r.canceled = true
  queue : r.canceled = true → ∃ later,
    buffered trace ++ later = (passedSince trace).map Pass.ev ++ r.input.buffer
  alive : ∀ pass ∈ passedSince trace, pass.ctx = .drain → pass.live = true ∨ r.expired = true
  complete : r.run = .returned → r.expired = false →
    (buffered trace).length ≤ (passedSince trace).length

theorem buffered_cons {entry : Entry Recorder Action (Option Pass)} {back : Trace}
    (later : entry.before.canceled = true ∨ entry.action ≠ .cancel) :
    buffered (entry :: back) = buffered back := by
  rcases entry with ⟨before, action, output⟩
  cases action with
  | cancel =>
      have canceled : before.canceled = true := later.resolve_right (by simp)
      simp [buffered, canceled]
  | publish | closeInput | expire | done | take | drainDone | drainTake | drainDefault | finish =>
      rfl

theorem track_new (input : Chan AttackEvent) : Track [] (new input) where
  early _ := ⟨rfl, rfl⟩
  late impossible := by contradiction
  queue impossible := by contradiction
  alive _ impossible := by contradiction
  complete impossible := by contradiction

theorem Track.quiet {trace : Trace} {r next : Recorder} {action : Action} (track : Track trace r)
    (other : action ≠ .cancel) (canceled : next.canceled = r.canceled)
    (expired : r.expired = true → next.expired = true)
    (input : ∃ grown, next.input.buffer = r.input.buffer ++ grown)
    (late : inDrain next.run = true → r.canceled = true)
    (returned : next.run = .returned → next.expired = false →
      (buffered trace).length ≤ (passedSince trace).length) :
    Track (⟨r, action, none⟩ :: trace) next := by
  have moment : buffered (⟨r, action, none⟩ :: trace) = buffered trace :=
    buffered_cons (.inr other)
  have passed : passedSince (⟨r, action, none⟩ :: trace) = passedSince trace := by
    simp [passedSince, Run.collect_cons]
  constructor
  · intro running
    rw [moment, passed]
    exact track.early (canceled ▸ running)
  · intro draining
    rw [canceled]
    exact late draining
  · intro stopped
    obtain ⟨grown, appended⟩ := input
    obtain ⟨rest, queue⟩ := track.queue (canceled ▸ stopped)
    exact ⟨rest ++ grown, by
      rw [moment, passed, appended, ← List.append_assoc, queue, List.append_assoc]⟩
  · intro pass member fresh
    rw [passed] at member
    exact (track.alive pass member fresh).imp_right expired
  · intro ended inTime
    rw [moment, passed]
    exact returned ended inTime

theorem Track.pass {trace : Trace} {r : Recorder} {action : Action} {ev : AttackEvent}
    {input : Chan AttackEvent} {ctx : Context} (track : Track trace r) (other : action ≠ .cancel)
    (taken : r.input.buffer = ev :: input.buffer) (late : ctx = .drain → r.canceled = true) :
    Track (⟨r, action, some (r.pass ev ctx)⟩ :: trace)
      { r with input := input, run := .handling (r.pass ev ctx) } := by
  have moment : buffered (⟨r, action, some (r.pass ev ctx)⟩ :: trace) = buffered trace :=
    buffered_cons (.inr other)
  have passed : passedSince (⟨r, action, some (r.pass ev ctx)⟩ :: trace) = passedSince trace ++
      (if r.canceled then some (r.pass ev ctx) else none).toList := Run.collect_cons ..
  constructor
  · intro running
    have running : r.canceled = false := running
    rw [moment, passed, (track.early running).1, (track.early running).2]
    simp [running]
  · intro draining
    cases ctx with
    | run => contradiction
    | drain => exact late rfl
  · intro stopped
    have halted : r.canceled = true := stopped
    obtain ⟨rest, queue⟩ := track.queue halted
    refine ⟨rest, ?_⟩
    rw [moment, passed, queue, taken]
    cases ctx <;> simp [halted, Recorder.pass]
  · intro pass member fresh
    rw [passed, List.mem_append] at member
    rcases member with earlier | here
    · exact track.alive pass earlier fresh
    · cases ctx with
      | run =>
          split at here
          · obtain rfl : pass = r.pass ev .run := by simpa using here
            contradiction
          · simp at here
      | drain =>
          rw [late rfl] at here
          obtain rfl : pass = r.pass ev .drain := by simpa using here
          cases deadline : r.expired with
          | true => exact .inr rfl
          | false => exact .inl (by simp [Recorder.pass, deadline])
  · intro impossible
    contradiction

theorem Track.cancel {trace : Trace} {r : Recorder} (track : Track trace r) :
    Track (⟨r, .cancel, none⟩ :: trace) { r with canceled := true } := by
  have passed : passedSince (⟨r, .cancel, none⟩ :: trace) = passedSince trace := by
    simp [passedSince, Run.collect_cons]
  cases already : r.canceled with
  | true =>
      have moment : buffered (⟨r, .cancel, none⟩ :: trace) = buffered trace :=
        buffered_cons (.inl already)
      refine ⟨fun impossible => by contradiction, fun _ => rfl, fun _ => ?_, ?_, ?_⟩
      · rw [moment, passed]
        exact track.queue already
      · rw [passed]
        exact track.alive
      · rw [moment, passed]
        exact track.complete
  | false =>
      have moment : buffered (⟨r, .cancel, none⟩ :: trace) = r.input.buffer := by
        simp [buffered, already]
      refine ⟨fun impossible => by contradiction, fun _ => rfl, fun _ => ⟨[], ?_⟩, ?_, ?_⟩
      · rw [moment, passed, (track.early already).2]
        simp
      · rw [passed]
        exact track.alive
      · intro returned
        have draining : inDrain r.run = true := by
          rw [show r.run = .returned from returned]
          rfl
        rw [track.late draining] at already
        contradiction

theorem Track.step {trace : Trace} {r next : Recorder} {action : Action} {output : Option Pass}
    (track : Track trace r) (moved : Moved r action next output) :
    Track (⟨r, action, output⟩ :: trace) next := by
  cases moved with
  | publish offered =>
      exact track.quiet (by simp) rfl id ⟨_, (Chan.offer_spec offered).2.2.1⟩ track.late
        track.complete
  | closeInput closed =>
      obtain ⟨-, rfl⟩ := Chan.close_spec closed
      exact track.quiet (by simp) rfl id ⟨[], (List.append_nil _).symm⟩ track.late track.complete
  | cancel => exact track.cancel
  | expire =>
      exact track.quiet (by simp) rfl (fun _ => rfl) ⟨[], (List.append_nil _).symm⟩ track.late
        fun _ impossible => by contradiction
  | done selecting canceled =>
      exact track.quiet (by simp) rfl id ⟨[], (List.append_nil _).symm⟩ (fun _ => canceled)
        fun impossible => by contradiction
  | idle selecting =>
      exact track.quiet (by simp) rfl id ⟨[], (List.append_nil _).symm⟩ track.late track.complete
  | take selecting received =>
      exact track.pass (by simp) (Chan.receive_value received) fun impossible => by contradiction
  | drain draining received =>
      exact track.pass (by simp) (Chan.receive_value received) fun _ =>
        track.late (by rw [draining]; rfl)
  | deadline draining expired =>
      refine track.quiet (by simp) rfl id ⟨[], (List.append_nil _).symm⟩
        (fun _ => track.late (by rw [draining]; rfl)) ?_
      intro _ inTime
      have inTime : r.expired = false := inTime
      rw [expired] at inTime
      contradiction
  | empty picked draining nothing =>
      have canceled : r.canceled = true := track.late (by rw [draining]; rfl)
      refine track.quiet (by rcases picked with rfl | rfl <;> simp) rfl id
        ⟨[], (List.append_nil _).symm⟩ (fun _ => canceled) fun _ _ => ?_
      obtain ⟨rest, queue⟩ := track.queue canceled
      have lengths := congrArg List.length queue
      simp only [nothing, List.append_nil, List.length_append, List.length_map] at lengths
      omega
  | @finish pass persisted handling =>
      refine track.quiet (by simp) rfl id ⟨[], (List.append_nil _).symm⟩ ?_ ?_
      · intro draining
        apply track.late
        rw [handling]
        rcases pass with ⟨ev, ctx, live⟩
        cases ctx with
        | run => contradiction
        | drain => rfl
      · intro impossible
        rcases pass with ⟨ev, ctx, live⟩
        cases ctx <;> contradiction

theorem track_run {input : Chan AttackEvent} {trace : Trace} {final : Recorder}
    (run : Run step (new input) trace final) : Track trace final := by
  induction run with
  | start => exact track_new input
  | step past moved ih => exact ih.step (step_cases moved)

/-- Once its context is canceled, the `select` of `Run` does not pick its receive case while an
event that was buffered at that moment is left. -/
def StopsAtOnce (back : Trace) (r : Recorder) : Action → Prop
  | .take => r.canceled = true → (buffered back).length ≤ (passedSince back).length
  | _ => True

instance (back : Trace) (r : Recorder) : ∀ action, Decidable (StopsAtOnce back r action)
  | .take => inferInstanceAs (Decidable
      (r.canceled = true → (buffered back).length ≤ (passedSince back).length))
  | .publish _ | .closeInput | .cancel | .expire | .done | .drainDone | .drainTake
  | .drainDefault | .finish _ => isTrue trivial

/-- The buffered events go to the store in order, none with the canceled context of `Run`, all
with a live one unless the deadline passes, and all of them before `Run` returns in time. -/
structure Drained (trace : Trace) (final : Recorder) : Prop where
  queue : final.canceled = true → ∃ later,
    buffered trace ++ later = (passedSince trace).map Pass.ev ++ final.input.buffer
  fresh : ∀ (i : Nat) (pass : Pass), i < (buffered trace).length →
    (passedSince trace)[i]? = some pass →
      pass.ctx = .drain ∧ (pass.live = true ∨ final.expired = true)
  complete : final.run = .returned → final.expired = false →
    (buffered trace).length ≤ (passedSince trace).length
  unblocked : final.run = .draining → (final.step .drainDone).isSome ∨
    (final.step .drainTake).isSome ∨ (final.step .drainDefault).isSome

def ByDrain (trace : Trace) : Prop :=
  ∀ (i : Nat) (pass : Pass), i < (buffered trace).length →
    (passedSince trace)[i]? = some pass → pass.ctx = .drain

theorem byDrain_quiet {trace : Trace} {entry : Entry Recorder Action (Option Pass)}
    (before : ByDrain trace) (silent : entry.output = none)
    (later : entry.before.canceled = true ∨ entry.action ≠ .cancel) : ByDrain (entry :: trace) := by
  have passed : passedSince (entry :: trace) = passedSince trace := by
    simp [passedSince, Run.collect_cons, silent]
  unfold ByDrain
  rw [passed, buffered_cons later]
  exact before

theorem byDrain_pass {trace : Trace} {entry : Entry Recorder Action (Option Pass)} {pass : Pass}
    (before : ByDrain trace) (made : entry.output = some pass) (other : entry.action ≠ .cancel)
    (canceled : entry.before.canceled = true)
    (fits : pass.ctx = .drain ∨ (buffered trace).length ≤ (passedSince trace).length) :
    ByDrain (entry :: trace) := by
  have passed : passedSince (entry :: trace) = passedSince trace ++ [pass] := by
    simp [passedSince, Run.collect_cons, canceled, made]
  intro i known below found
  rw [buffered_cons (.inr other)] at below
  rw [passed] at found
  by_cases old : i < (passedSince trace).length
  · rw [List.getElem?_append_left old] at found
    exact before i known below found
  · have last := fits.resolve_right (by omega)
    rw [List.getElem?_append_right (not_lt.mp old)] at found
    obtain rfl : known = pass := List.mem_singleton.mp (List.mem_of_getElem? found)
    exact last

theorem byDrain_cons {trace : Trace} {r next : Recorder} {action : Action} {output : Option Pass}
    (track : Track trace r) (before : ByDrain trace) (stops : StopsAtOnce trace r action)
    (moved : Moved r action next output) : ByDrain (⟨r, action, output⟩ :: trace) := by
  cases moved with
  | publish | closeInput | expire | done | idle | deadline | finish =>
      exact byDrain_quiet before rfl (.inr (by simp))
  | empty picked =>
      exact byDrain_quiet before rfl (.inr (by rcases picked with rfl | rfl <;> simp))
  | cancel =>
      cases already : r.canceled with
      | true => exact byDrain_quiet before rfl (.inl already)
      | false =>
          intro i pass below found
          rw [passedSince, Run.collect_cons] at found
          change (passedSince trace ++ _)[i]? = some pass at found
          rw [(track.early already).2] at found
          simp at found
  | take selecting received =>
      cases stopped : r.canceled with
      | true => exact byDrain_pass before rfl (by simp) stopped (.inr (stops stopped))
      | false =>
          intro i pass below found
          rw [buffered_cons (.inr (by simp)), (track.early stopped).1] at below
          contradiction
  | drain draining received =>
      have canceled : r.canceled = true := track.late (by rw [draining]; rfl)
      exact byDrain_pass before rfl (by simp) canceled (.inl rfl)

theorem byDrain_run {input : Chan AttackEvent} {trace : Trace} {final : Recorder}
    (run : Run step (new input) trace final)
    (stops : ∀ front entry back, trace = front ++ entry :: back →
      StopsAtOnce back entry.before entry.action) : ByDrain trace := by
  apply run.invariant (fun back r action => StopsAtOnce back r action)
    (fun trace _ => ByDrain trace)
  · intro i pass below
    contradiction
  · intro trace r action next output past before stops moved
    exact byDrain_cons (track_run past) before stops (step_cases moved)
  · exact stops

theorem canceled_moved {r next : Recorder} {action : Action} {output : Option Pass}
    (canceled : r.canceled = true) (moved : Moved r action next output) : next.canceled = true := by
  cases moved with
  | cancel => rfl
  | publish | closeInput | expire | done | take | idle | deadline | drain | empty | finish =>
      exact canceled

theorem buffered_of_canceled {start final : Recorder} {front back : Trace}
    {entry : Entry Recorder Action (Option Pass)}
    (run : Run step start (front ++ entry :: back) final)
    (canceled : entry.before.canceled = true) :
    final.canceled = true ∧ buffered (front ++ entry :: back) = buffered back := by
  induction front generalizing final with
  | nil =>
      cases run with
      | step past moved =>
          exact ⟨canceled_moved canceled (step_cases moved), buffered_cons (.inl canceled)⟩
  | cons head front ih =>
      cases run with
      | step past moved =>
          obtain ⟨earlier, same⟩ := ih past
          exact ⟨canceled_moved earlier (step_cases moved),
            (buffered_cons (.inl earlier)).trans same⟩

theorem stops_of_drained {input : Chan AttackEvent} {trace : Trace} {final : Recorder}
    (run : Run step (new input) trace final) (drained : Drained trace final) :
    ∀ front entry back, trace = front ++ entry :: back →
      StopsAtOnce back entry.before entry.action := by
  rintro front ⟨r, action, output⟩ back rfl
  obtain ⟨past, next, moved, -⟩ := run.cut
  cases action with
  | publish | closeInput | cancel | expire | done | drainDone | drainTake | drainDefault
  | finish => trivial
  | take =>
      intro canceled
      by_contra left
      have left : (passedSince back).length < (buffered back).length := not_le.mp left
      obtain ⟨rest, queue⟩ := (track_run past).queue canceled
      have lengths := congrArg List.length queue
      simp only [List.length_append, List.length_map] at lengths
      have known : ∃ pass : Pass, pass.ctx = .run ∧ output = some pass := by
        have moved : Moved r .take next output := step_cases moved
        cases moved with
        | take => exact ⟨_, rfl, rfl⟩
        | idle _ nothing => simp [nothing] at lengths; omega
        | empty picked => simp at picked
      obtain ⟨pass, context, rfl⟩ := known
      have place : (passedSince (front ++ ⟨r, .take, some pass⟩ :: back))[
          (passedSince back).length]? = some pass := by
        rw [passedSince, Run.collect_append, Run.collect_cons]
        simp [show r.canceled = true from canceled]
      have bound := (buffered_of_canceled run canceled).2
      have wrong := (drained.fresh _ pass (by rw [bound]; exact left) place).1
      rw [context] at wrong
      contradiction

/-- The deadline aside, `drain` never waits. -/
theorem drain_unblocked {r : Recorder} (draining : r.run = .draining) :
    (r.step .drainDone).isSome ∨ (r.step .drainTake).isSome ∨ (r.step .drainDefault).isSome := by
  cases expired : r.expired with
  | true => exact .inl (by simp [step, draining, expired])
  | false =>
      right
      cases received : r.input.receive with
      | none => exact .inr (by simp [step, draining, received, expired])
      | some result =>
          rcases result with ⟨_ | ev, input⟩
          · exact .inl (by simp [step, draining, received])
          · exact .inl (by simp [step, draining, received])

/-- The drain is complete in exactly those runs in which `Run` turns to it at once. -/
theorem drained_iff (input : Chan AttackEvent) {trace : Trace} {final : Recorder}
    (run : Run step (new input) trace final) :
    Drained trace final ↔ ∀ front entry back, trace = front ++ entry :: back →
      StopsAtOnce back entry.before entry.action := by
  refine ⟨stops_of_drained run, fun stops => ?_⟩
  have track := track_run run
  refine ⟨track.queue, ?_, track.complete, drain_unblocked⟩
  intro i pass below found
  have context := byDrain_run run stops i pass below found
  exact ⟨context, track.alive pass (List.mem_of_getElem? found) context⟩

theorem drained_iff_sample : ∃ (trace : Trace) (final : Recorder),
    (buffered trace).length = 2 ∧ (passedSince trace).map Pass.live = [true, true] ∧
      Drained trace final := by
  have executed : (Run.replay step [] (new (Chan.make 8))
      [.publish (sampleEvent "a" .started), .publish (sampleEvent "b" .started),
        .publish (sampleEvent "c" .started), .take, .cancel, .finish false, .done, .drainTake,
        .finish true, .drainTake, .finish true, .drainDefault]).map
        (fun made => ((buffered made.1).length, (passedSince made.1).map Pass.live,
          Run.checks (fun back entry => decide (StopsAtOnce back entry.before entry.action))
            made.1)) =
      some (2, [true, true], true) := by
    decide +kernel
  obtain ⟨⟨trace, final⟩, replayed, observed⟩ := Option.map_eq_some_iff.mp executed
  simp only [Prod.mk.injEq] at observed
  obtain ⟨moment, calls, stops⟩ := observed
  refine ⟨trace, final, moment, calls, ?_⟩
  refine (drained_iff (Chan.make 8) (Run.of_replay .start replayed)).mpr ?_
  intro front entry back split
  exact of_decide_eq_true (Run.of_checks stops front entry back split)

/-- Both cases of the `select` are ready and it picks the receive: the call has the canceled
context, fails, and the event is lost. -/
theorem drain_skipped : ∃ (trace : Trace) (final : Recorder),
    Run step (new (Chan.make 8)) trace final ∧ ¬ Drained trace final ∧
      (buffered trace).map AttackEvent.incidentID = ["a"] ∧ final.persisted.length = 0 ∧
      final.input.buffer.length = 0 ∧ final.expired = false := by
  have executed : (Run.replay step [] (new (Chan.make 8))
      [.publish (sampleEvent "a" .started), .cancel, .take, .finish false, .done,
        .drainDefault]).map
        (fun made => ((buffered made.1).map AttackEvent.incidentID,
          (passedSince made.1).map fun pass => (pass.ctx, pass.live),
          made.2.persisted.length, made.2.input.buffer.length, made.2.expired)) =
      some (["a"], [(.run, false)], 0, 0, false) := by
    decide +kernel
  obtain ⟨⟨trace, final⟩, replayed, observed⟩ := Option.map_eq_some_iff.mp executed
  simp only [Prod.mk.injEq] at observed
  obtain ⟨moment, calls, unsaved, empty, inTime⟩ := observed
  refine ⟨trace, final, Run.of_replay .start replayed, ?_, moment, unsaved, empty, inTime⟩
  intro drained
  obtain ⟨pass, rest, passes, same, -⟩ := List.map_eq_cons_iff.mp calls
  have below : 0 < (buffered trace).length := by
    have lengths := congrArg List.length moment
    simp at lengths
    omega
  have context := (drained.fresh 0 pass below (by rw [passes]; rfl)).1
  rw [Prod.mk.injEq] at same
  rw [same.1] at context
  contradiction

end Mitigador.Incident.Recorder
