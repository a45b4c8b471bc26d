import Mitigador.Serve.Pipeline

/-! The pipeline from the state machine to the tables refines the lossy way of `Incident.Process`:
its channels and loops are the one list of events under way. -/

namespace Mitigador.Detect.Engine

open Go Lib Aggregate

variable {ρ : Type*} {newULID : ρ → Time → String × ρ}

theorem evalHost_cases {sec : Int} {now : Time} {e next : Engine ρ} {ip : Addr}
    {ev : Option AttackEvent} (evaluated : evalHost newULID sec now e ip = some (next, ev)) :
    next = e ∧ ev = none ∨ ∃ j, judge e.store e.catalog ip sec = some (some j) ∧
      e.sm.step newULID ⟨ip, j.vector⟩ (j.input now (next.streak ⟨ip, j.vector⟩)) j.threshold =
        some (next.sm, ev) ∧
      (ev = none ∧ next.out = e.out ∨
        ∃ found sent, ev = some found ∧ e.out.offer found = some (next.out, sent)) := by
  cases judged : judge e.store e.catalog ip sec with
  | none =>
      rw [evalHost, judged] at evaluated
      contradiction
  | some outcome =>
      cases outcome with
      | none => exact .inl (evalHost_early evaluated judged)
      | some j =>
          obtain ⟨-, -, stepped, offered⟩ := Watch.count_cases (evalHost_counted evaluated judged)
          exact .inr ⟨j, rfl, stepped, offered⟩

end Mitigador.Detect.Engine

namespace Mitigador.Serve

open Go Mitigador.Flow Lib Aggregate Detect Incident

def handled : Incident.RunState → List AttackEvent
  | .handling pass => [pass.ev]
  | _ => []

def queued (b : Alert.Bus) : List AttackEvent :=
  (b.chans Pipeline.incSub).buffer ++ b.run.owed Pipeline.incSub ++ b.input.buffer

theorem queued_same {b next : Alert.Bus}
    (buffer : (next.chans Pipeline.incSub).buffer = (b.chans Pipeline.incSub).buffer)
    (owed : next.run.owed Pipeline.incSub = b.run.owed Pipeline.incSub)
    (input : next.input.buffer = b.input.buffer) : queued next = queued b := by
  rw [queued, queued, buffer, owed, input]

/-- The loop of the bus keeps what it holds for the recorder, unless it drops one event at a full
channel. -/
theorem queued_moved {b next : Alert.Bus} {action : Alert.Action} {seen : Alert.Seen}
    (sound : Alert.Bus.Sound 4 256 b) (own : Pipeline.ofBus action = true)
    (moved : Alert.Bus.Moved b action next seen) :
    queued next = queued b ∨ ∃ n, queued next = (queued b).eraseIdx n := by
  have frame : ∀ {c : Nat} {ch : Chan AttackEvent}, c ≠ Pipeline.incSub →
      (Function.update b.chans c ch Pipeline.incSub).buffer =
        (b.chans Pipeline.incSub).buffer := by
    intro c ch other
    rw [Function.update_of_ne other.symm]
  cases moved with
  | publish | refuse | closeInput | cancel => contradiction
  | drained => exact .inl rfl
  | @receive c =>
      have other : c ≠ Pipeline.incSub := by simpa [Pipeline.ofBus] using own
      exact .inl (queued_same (frame other) rfl rfl)
  | done selecting => exact .inl (queued_same rfl (by simp [selecting, Alert.RunState.owed]) rfl)
  | finish selecting => exact .inl (queued_same rfl (by simp [selecting, Alert.RunState.owed]) rfl)
  | @consume ev input selecting received =>
      have listed : Pipeline.incSub ∈ b.sinks := by
        rw [sound.sinks (by simp [selecting])]
        decide
      have shifted := Chan.receive_value received
      left
      simp [queued, selecting, Alert.RunState.owed, listed, shifted]
  | @offer ev c rest ch sent offering offered =>
      have distinct := sound.clear
      rw [offering] at distinct
      obtain ⟨fresh, -⟩ := List.nodup_cons.mp distinct.1
      by_cases own : c = Pipeline.incSub
      · subst own
        obtain ⟨-, -, buffer, -⟩ := Chan.offer_spec offered
        cases sent with
        | true =>
            left
            simp [queued, offering, Alert.RunState.owed, fresh, buffer]
        | false =>
            right
            refine ⟨(b.chans Pipeline.incSub).buffer.length, ?_⟩
            simp [queued, offering, Alert.RunState.owed, fresh, buffer,
              List.eraseIdx_append_of_length_le]
      · refine .inl (queued_same (frame own) ?_ rfl)
        simp [offering, Alert.RunState.owed, Ne.symm own]
  | next offering => exact .inl (queued_same rfl (by simp [offering, Alert.RunState.owed]) rfl)
  | @close canceled c rest ch closing closed =>
      obtain ⟨-, rfl⟩ := Chan.close_spec closed
      refine .inl (queued_same ?_ (by simp [closing, Alert.RunState.owed]) rfl)
      by_cases own : c = Pipeline.incSub
      · simp [own]
      · exact frame own
  | leave closing => exact .inl (queued_same rfl (by simp [closing, Alert.RunState.owed]) rfl)

theorem handled_moved {r next : Recorder} {action : Incident.Action} {pass : Option Pass}
    (own : Pipeline.ofRecorder action = true) (moved : Recorder.Moved r action next pass) :
    handled next.run ++ next.input.buffer = handled r.run ++ r.input.buffer ∧
      next.input.closed = r.input.closed ∧ next.input.capacity = r.input.capacity := by
  cases moved with
  | publish | closeInput | cancel => contradiction
  | expire | idle => exact ⟨rfl, rfl, rfl⟩
  | done selecting => exact ⟨by simp [selecting, handled], rfl, rfl⟩
  | deadline draining => exact ⟨by simp [draining, handled], rfl, rfl⟩
  | empty picked draining => exact ⟨by simp [draining, handled], rfl, rfl⟩
  | take waiting received | drain waiting received =>
      have shifted := Chan.receive_value received
      refine ⟨?_, Chan.receive_closed received, Chan.receive_capacity received⟩
      simp [waiting, handled, Recorder.pass, shifted]
  | finish => contradiction

theorem sound_shared {n size c : Nat} {b : Alert.Bus} (sound : Alert.Bus.Sound n size b)
    {ch : Chan AttackEvent} (closed : ch.closed = (b.chans c).closed)
    (capacity : ch.capacity = (b.chans c).capacity) :
    Alert.Bus.Sound n size { b with chans := Function.update b.chans c ch } where
  sinks := sound.sinks
  clear := Alert.Bus.clear_update sound.clear closed
  capacity := by
    intro d below
    dsimp only
    by_cases here : d = c
    · rw [here, Function.update_self, capacity, ← here]
      exact sound.capacity d below
    · rw [Function.update_of_ne here]
      exact sound.capacity d below

namespace Pipeline

variable {ρ : Type*} {Packet : Type} {newULID : ρ → Time → String × ρ}
  {pp : Ingest.ProtoProducer Packet}

def inFlight (s : Pipeline ρ) : List AttackEvent := handled s.recorder.run ++ queued s.bus

/-- A run of the process that has done to the state machine and the tables what a run of the
pipeline did. -/
structure Matches (trace : Trace ρ Packet) (s : Pipeline ρ) (taken : Process.Trace ρ)
    (p : Process ρ) : Prop where
  sound : Alert.Bus.Sound 4 256 s.bus
  sm : p.sm = s.engine.sm
  pending : p.pending = s.inFlight
  db : p.db = s.db
  emitted : Process.emittedIn taken = emitted trace
  recorded : Process.recordedIn taken = stored trace

variable {trace : Trace ρ Packet} {s next : Pipeline ρ} {taken : Process.Trace ρ} {p : Process ρ}
  {action : Action Packet} {seen : Seen}

theorem Matches.quiet (matched : Matches trace s taken p)
    (sound : Alert.Bus.Sound 4 256 next.bus) (sm : next.engine.sm = s.engine.sm)
    (flight : next.inFlight = s.inFlight) (db : next.db = s.db)
    (silent : seen.emittedEvent = none) (unstored : seen.storedEvent = none) :
    Matches (⟨s, action, seen⟩ :: trace) next taken p where
  sound := sound
  sm := matched.sm.trans sm.symm
  pending := matched.pending.trans flight.symm
  db := matched.db.trans db.symm
  emitted := by simp [matched.emitted, emitted_cons, silent]
  recorded := by simp [matched.recorded, stored_cons, unstored]

theorem Matches.unmoved (matched : Matches trace s taken p) (bus : next.bus = s.bus)
    (sm : next.engine.sm = s.engine.sm) (recorder : next.recorder = s.recorder)
    (db : next.db = s.db) (silent : seen.emittedEvent = none)
    (unstored : seen.storedEvent = none) : Matches (⟨s, action, seen⟩ :: trace) next taken p := by
  refine matched.quiet (by rw [bus]; exact matched.sound) sm ?_ db silent unstored
  rw [inFlight, inFlight, bus, recorder]

theorem Matches.lost (matched : Matches trace s taken p) (n : Nat)
    (sound : Alert.Bus.Sound 4 256 next.bus) (sm : next.engine.sm = s.engine.sm)
    (flight : next.inFlight = s.inFlight.eraseIdx n) (db : next.db = s.db)
    (silent : seen.emittedEvent = none) (unstored : seen.storedEvent = none) :
    Matches (⟨s, action, seen⟩ :: trace) next (⟨p, .lose n, .nothing⟩ :: taken)
      { p with pending := p.pending.eraseIdx n } where
  sound := sound
  sm := matched.sm.trans sm.symm
  pending := by rw [matched.pending, flight]
  db := matched.db.trans db.symm
  emitted := by
    simp [Process.emittedIn_cons, matched.emitted, emitted_cons, silent,
      Process.Seen.emittedEvent]
  recorded := by
    simp [Process.recordedIn_cons, matched.recorded, stored_cons, unstored,
      Process.Seen.recordedEvent]

theorem Matches.evaluated (matched : Matches trace s taken p) {now : Time} {h : HostInfo}
    {rest : List HostInfo} {engine : Engine ρ} {ev : Option AttackEvent}
    (evaluated : Engine.evalHost newULID now.unix now { s.engine with out := s.bus.input } h.ip =
      some (engine, ev)) :
    ∃ more after, Run (Process.step newULID) p more after ∧
      Matches (⟨s, action, .evaluated h.ip now ev⟩ :: trace)
        { s with
          engine := engine
          bus := { s.bus with input := engine.out }
          loop := .evaluating now rest } (more ++ taken) after := by
  have sound : ∀ input, Alert.Bus.Sound 4 256 { s.bus with input := input } := fun _ =>
    ⟨matched.sound.sinks, matched.sound.clear, matched.sound.capacity⟩
  rcases Engine.evalHost_cases evaluated with ⟨rfl, rfl⟩ | ⟨j, -, stepped, ended⟩
  · exact ⟨[], p, .start, matched.quiet (sound _) rfl rfl rfl rfl rfl⟩
  · obtain ⟨k, i, t, called⟩ : ∃ k i t, p.sm.step newULID k i t = some (engine.sm, ev) :=
      ⟨_, _, _, by rw [matched.sm]; exact stepped⟩
    rcases ended with ⟨rfl, out⟩ | ⟨found, sent, rfl, offered⟩
    · have moved : p.step newULID (.call k i t) = some ({ p with sm := engine.sm }, .nothing) := by
        simp [Process.step, called]
      refine ⟨_, _, .step .start moved, sound _, rfl, ?_, matched.db, ?_, ?_⟩
      · rw [matched.pending, inFlight, inFlight, queued, queued, out]
      · rw [List.singleton_append, Process.emittedIn_cons, matched.emitted, emitted_cons]
        rfl
      · rw [List.singleton_append, Process.recordedIn_cons, matched.recorded, stored_cons]
        rfl
    · have moved : p.step newULID (.call k i t) =
          some ({ p with sm := engine.sm, pending := p.pending ++ [found] }, .emitted found) := by
        simp [Process.step, called]
      obtain ⟨-, -, buffer, -⟩ := Chan.offer_spec offered
      have emitted : Process.emittedIn (⟨p, .call k i t, .emitted found⟩ :: taken) =
          Pipeline.emitted (⟨s, action, .evaluated h.ip now (some found)⟩ :: trace) := by
        rw [Process.emittedIn_cons, matched.emitted, emitted_cons]
        rfl
      have recorded : Process.recordedIn (⟨p, .call k i t, .emitted found⟩ :: taken) =
          stored (⟨s, action, .evaluated h.ip now (some found)⟩ :: trace) := by
        rw [Process.recordedIn_cons, matched.recorded, stored_cons]
        rfl
      cases sent with
      | true =>
          refine ⟨_, _, .step .start moved, sound _, rfl, ?_, matched.db, emitted, recorded⟩
          simp [matched.pending, inFlight, queued, buffer]
      | false =>
          have lost : ({ p with sm := engine.sm, pending := p.pending ++ [found] }).step newULID
              (.lose p.pending.length) = some ({ p with sm := engine.sm }, .nothing) := by
            simp [Process.step, List.eraseIdx_append_of_length_le]
          refine ⟨_, _, .step (.step .start moved) lost, sound _, rfl, ?_, matched.db, ?_, ?_⟩
          · simp [matched.pending, inFlight, queued, buffer]
          · rw [List.cons_append, List.singleton_append, Process.emittedIn_cons, emitted]
            exact List.append_nil _
          · rw [List.cons_append, List.singleton_append, Process.recordedIn_cons, recorded]
            exact List.append_nil _

theorem Matches.recorded_next (matched : Matches trace s taken p) {fault : Fault} {now : Time}
    {pass : Pass} {recorder : Recorder} (handling : s.recorder.run = .handling pass)
    (finished : s.recorder.step (.finish (fault == .none)) = some (recorder, none)) :
    ∃ more after, Run (Process.step newULID) p more after ∧
      Matches (⟨s, action, .stored pass.ev⟩ :: trace)
        { s with recorder := recorder, db := Store.handle fault now pass.ev s.db }
        (more ++ taken) after := by
  have waiting : p.pending = pass.ev :: queued s.bus := by
    rw [matched.pending, inFlight, handling]
    rfl
  have moved : p.step newULID (.record fault now) =
      some ({ p with pending := queued s.bus, db := Store.handle fault now pass.ev p.db },
        .recorded pass.ev) := by
    simp [Process.step, waiting]
  have idle : handled recorder.run = [] := by
    cases Recorder.step_cases finished with
    | empty picked => rcases picked with impossible | impossible <;> contradiction
    | finish same =>
        dsimp only
        split <;> rfl
  refine ⟨_, _, .step .start moved, matched.sound, matched.sm, ?_, ?_, ?_, ?_⟩
  · rw [inFlight, idle, List.nil_append]
  · rw [matched.db]
  · rw [List.singleton_append, Process.emittedIn_cons, matched.emitted, emitted_cons]
    rfl
  · rw [List.singleton_append, Process.recordedIn_cons, matched.recorded, stored_cons]
    rfl

theorem matches_step (matched : Matches trace s taken p)
    (stepped : s.step newULID pp action = some (next, seen)) :
    ∃ more after, Run (Process.step newULID) p more after ∧
      Matches (⟨s, action, seen⟩ :: trace) next (more ++ taken) after := by
  have sound := matched.sound
  cases step_cases stepped with
  | call | offer | take | leave | update | tick | activeHosts | rest =>
      exact ⟨[], p, .start, matched.unmoved rfl rfl rfl rfl rfl rfl⟩
  | evalHost evaluating evaluated => exact matched.evaluated evaluated
  | store handling finished => exact matched.recorded_next handling finished
  | cancel =>
      exact ⟨[], p, .start,
        matched.quiet ⟨sound.sinks, sound.clear, sound.capacity⟩ rfl rfl rfl rfl rfl⟩
  | bus own turned =>
      have moved := Alert.Bus.step_cases sound turned
      rcases queued_moved sound own moved with kept | ⟨n, dropped⟩
      · refine ⟨[], p, .start, matched.quiet (sound.moved moved) rfl ?_ rfl rfl rfl⟩
        rw [inFlight, inFlight, kept]
      · have answer : p.step newULID (.lose ((handled s.recorder.run).length + n)) = some _ := rfl
        refine ⟨_, _, .step .start answer, matched.lost _ (sound.moved moved) rfl ?_ rfl rfl rfl⟩
        rw [inFlight, inFlight, dropped, List.eraseIdx_append_of_length_le (Nat.le_add_right ..),
          Nat.add_sub_cancel_left]
  | recorder own turned =>
      obtain ⟨kept, closed, capacity⟩ := handled_moved own (Recorder.step_cases turned)
      refine ⟨[], p, .start, matched.quiet (sound_shared sound closed capacity) rfl ?_ rfl rfl rfl⟩
      simp only [inFlight, queued, Function.update_self, ← List.append_assoc, kept]

theorem matches_run {inv : Ingest.Inventory} {defaultNumShards numCPU : Int} {catalog : Catalog}
    {rnd : ρ} {db : Database} {final : Pipeline ρ}
    (run : Run (step newULID pp) (start inv defaultNumShards numCPU catalog rnd db) trace final) :
    ∃ taken p, Run (Process.step newULID) (Process.start rnd db) taken p ∧
      Matches trace final taken p := by
  apply Run.simulation (R := Matches) ?_ ?_ run
  · have sound := Alert.Bus.start_sound (Chan.make 256) 256 ["telegram", "email", "sse", "incident"]
    exact ⟨sound, rfl, rfl, rfl, rfl, rfl⟩
  · intro _ _ _ _ _ _ _ _ _ matched stepped
    exact matches_step matched stepped

/-- The goroutines and channels of the daemon do to the state machine and to the tables what some
run of the process does, with the same events returned and stored in the same order; what the
process has pending is what the channels and the hands of the loops hold. -/
theorem refines_process (inv : Ingest.Inventory) (defaultNumShards numCPU : Int)
    (catalog : Catalog) (rnd : ρ) (db : Database) {final : Pipeline ρ}
    (run : Run (step newULID pp) (start inv defaultNumShards numCPU catalog rnd db) trace final) :
    ∃ taken p, Run (Process.step newULID) (Process.start rnd db) taken p ∧
      p.sm = final.engine.sm ∧ p.pending = final.inFlight ∧ p.db = final.db ∧
      Process.emittedIn taken = emitted trace ∧ Process.recordedIn taken = stored trace := by
  obtain ⟨taken, p, followed, matched⟩ := matches_run run
  exact ⟨taken, p, followed, matched.sm, matched.pending, matched.db, matched.emitted,
    matched.recorded⟩

theorem refines_process_sample : ∃ (trace : Trace Nat Empty) (final : Pipeline Nat)
    (taken : Process.Trace Nat) (p : Process Nat),
    (final.db.incidents.lookup "0").isSome = true ∧
      Run (Process.step countingULID) (Process.start 0 Process.emptyDatabase) taken p ∧
      p.db = final.db ∧ Process.recordedIn taken = stored trace := by
  obtain ⟨trace, final, row, run, found⟩ := sample_run
  obtain ⟨taken, p, followed, -, -, db, -, recorded⟩ := refines_process _ _ _ _ _ _ run
  exact ⟨trace, final, taken, p, by rw [found]; rfl, followed, db, recorded⟩

end Pipeline

end Mitigador.Serve
