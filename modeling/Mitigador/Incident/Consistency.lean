import Mitigador.Detect.Identity
import Mitigador.Detect.Protocol
import Mitigador.Incident.Store
import Mitigador.Lib.Run

/-! The two tables behind a lossy way from the state machine to the recorder. -/

namespace Mitigador.Incident

open Go Detect Lib

variable {ρ : Type*}

/-- The state machine, the events on their way to the recorder, and the tables. -/
structure Process (ρ : Type*) where
  sm : StateMachine ρ
  pending : List AttackEvent
  db : Database

namespace Process

inductive Action
  | call (k : Key) (i : Input) (t : Threshold)
  | lose (n : Nat)
  | record (fault : Fault) (now : Time)

inductive Seen
  | nothing
  | emitted (ev : AttackEvent)
  | recorded (ev : AttackEvent)

variable (newULID : ρ → Time → String × ρ)

def start (rnd : ρ) (db : Database) : Process ρ := ⟨StateMachine.new rnd, [], db⟩

def step (p : Process ρ) : Action → Option (Process ρ × Seen)
  | .call k i t =>
      match p.sm.step newULID k i t with
      | none => none
      | some (sm, none) => some ({ p with sm := sm }, .nothing)
      | some (sm, some ev) => some ({ p with sm := sm, pending := p.pending ++ [ev] }, .emitted ev)
  | .lose n => some ({ p with pending := p.pending.eraseIdx n }, .nothing)
  | .record fault now =>
      match p.pending with
      | [] => none
      | ev :: rest =>
          some ({ p with pending := rest, db := Store.handle fault now ev p.db }, .recorded ev)

end Process

def Process.Seen.emittedEvent : Process.Seen → Option AttackEvent
  | .emitted ev => some ev
  | _ => none

def Process.Seen.recordedEvent : Process.Seen → Option AttackEvent
  | .recorded ev => some ev
  | _ => none

namespace Process

abbrev Trace (ρ : Type*) := List (Entry (Process ρ) Action Seen)

def emittedIn : Trace ρ → List AttackEvent := Run.collect fun entry => entry.output.emittedEvent

def recordedIn : Trace ρ → List AttackEvent := Run.collect fun entry => entry.output.recordedEvent

def Persisted (id : String) (trace : Trace ρ) : Prop :=
  ∃ entry ∈ trace, ∃ fault now ev, entry.action = .record fault now ∧
    entry.output = .recorded ev ∧ ev.state = .started ∧ ev.incidentID = id ∧
      (Store.handle fault now ev entry.before.db).rows id .started ≠
        entry.before.db.rows id .started

variable {newULID : ρ → Time → String × ρ}

/-- What reached the recorder and what is under way is part of what was returned, in order. -/
structure Delivered (trace : Trace ρ) (p : Process ρ) : Prop where
  sole : Sole (emittedIn trace) p.sm.running
  order : (recordedIn trace ++ p.pending).Sublist (emittedIn trace)

theorem emittedIn_cons (entry : Entry (Process ρ) Action Seen) (trace : Trace ρ) :
    emittedIn (entry :: trace) = emittedIn trace ++ entry.output.emittedEvent.toList :=
  Run.collect_cons ..

theorem recordedIn_cons (entry : Entry (Process ρ) Action Seen) (trace : Trace ρ) :
    recordedIn (entry :: trace) = recordedIn trace ++ entry.output.recordedEvent.toList :=
  Run.collect_cons ..

theorem Delivered.cons {trace : Trace ρ} {p next : Process ρ} {action : Action} {seen : Seen}
    (delivered : Delivered trace p) (moved : p.step newULID action = some (next, seen))
    (distinct : (issued (emittedIn (⟨p, action, seen⟩ :: trace))).Nodup) :
    Delivered (⟨p, action, seen⟩ :: trace) next := by
  obtain ⟨sole, order⟩ := delivered
  cases action with
  | call k i t =>
      simp only [step] at moved
      split at moved
      · contradiction
      · next sm stepped =>
          cases moved
          obtain ⟨progress, frame⟩ := StateMachine.progress stepped
          rw [emittedIn_cons] at distinct
          constructor
          · rw [emittedIn_cons]
            exact sole.step distinct progress frame
          · simpa [emittedIn_cons, recordedIn_cons, Seen.emittedEvent, Seen.recordedEvent]
              using order
      · next sm ev stepped =>
          cases moved
          obtain ⟨progress, frame⟩ := StateMachine.progress stepped
          rw [emittedIn_cons] at distinct
          constructor
          · rw [emittedIn_cons]
            exact sole.step distinct progress frame
          · rw [emittedIn_cons, recordedIn_cons]
            simpa [Seen.emittedEvent, Seen.recordedEvent, ← List.append_assoc] using order
  | lose n =>
      cases moved
      constructor
      · simpa [emittedIn_cons, Seen.emittedEvent] using sole
      · have shorter : (recordedIn trace ++ p.pending.eraseIdx n).Sublist (emittedIn trace) :=
          ((List.Sublist.refl _).append (List.eraseIdx_sublist ..)).trans order
        simpa [emittedIn_cons, recordedIn_cons, Seen.emittedEvent, Seen.recordedEvent] using shorter
  | record fault now =>
      simp only [step] at moved
      split at moved
      · contradiction
      · next ev rest waiting =>
          cases moved
          rw [waiting] at order
          constructor
          · simpa [emittedIn_cons, Seen.emittedEvent] using sole
          · simpa [emittedIn_cons, recordedIn_cons, Seen.emittedEvent, Seen.recordedEvent]
              using order

theorem delivered_run {rnd : ρ} {db : Database} {trace : Trace ρ} {final : Process ρ}
    (run : Run (step newULID) (start rnd db) trace final)
    (distinct : (issued (emittedIn trace)).Nodup) : Delivered trace final := by
  induction run with
  | start => exact ⟨sole_nil, List.Sublist.refl _⟩
  | @step trace p next action seen past moved ih =>
      have earlier : (issued (emittedIn trace)).Nodup := by
        rw [emittedIn_cons, issued_append] at distinct
        exact (List.nodup_append.mp distinct).1
      exact (ih earlier).cons moved distinct

theorem emitted_of_recorded {rnd : ρ} {db : Database} {trace : Trace ρ} {final : Process ρ}
    (run : Run (step newULID) (start rnd db) trace final) {ev : AttackEvent}
    (there : ev ∈ recordedIn trace ++ final.pending) : ev ∈ emittedIn trace := by
  induction run with
  | start => contradiction
  | @step trace p next action seen past moved ih =>
      rw [emittedIn_cons, List.mem_append]
      rw [recordedIn_cons] at there
      cases action with
      | call k i t =>
          simp only [step] at moved
          split at moved
          · contradiction
          · cases moved
            exact .inl (ih (by simpa [Seen.recordedEvent] using there))
          · next sm found stepped =>
              cases moved
              have split : ev ∈ recordedIn trace ++ p.pending ∨ ev = found := by
                simpa [Seen.recordedEvent, or_assoc] using there
              exact split.imp ih fun own => by simp [Seen.emittedEvent, own]
      | lose n =>
          cases moved
          have earlier : ev ∈ recordedIn trace ++ p.pending.eraseIdx n := by
            simpa [Seen.recordedEvent] using there
          have part := (List.Sublist.refl (recordedIn trace)).append (List.eraseIdx_sublist p.pending n)
          exact .inl (ih (part.subset earlier))
      | record fault now =>
          simp only [step] at moved
          split at moved
          · contradiction
          · next found rest waiting =>
              cases moved
              exact .inl (ih (by simpa [Seen.recordedEvent, waiting] using there))

/-- The recorder never sees an incident twice in the same state. -/
theorem Delivered.once {trace : Trace ρ} {p : Process ρ} (delivered : Delivered trace p)
    (id : String) (state : State) : occurrences id state (recordedIn trace) ≤ 1 := by
  have part : (recordedIn trace).Sublist (emittedIn trace) :=
    (List.sublist_append_left ..).trans delivered.order
  exact (part.countP_le ..).trans (delivered.sole.once id state)

end Process

structure Reflects (id : String) (recorded : List AttackEvent) (db : Database) : Prop where
  rows : ∀ state, db.rows id (kindOf state) ≤ occurrences id state recorded
  present : id ∈ db.incidents ↔ 1 ≤ db.rows id .started
  endedAt : ∀ row, db.incidents.lookup id = some row →
    (row.endedAt.isSome = true ↔ 1 ≤ db.rows id .ended)

theorem kindOf_injective {first second : State} (same : kindOf first = kindOf second) :
    first = second := by
  cases first <;> cases second <;> first | rfl | contradiction

theorem Database.rows_logged {ev : AttackEvent} {db next : Database} {u : UpdateRow}
    (logged : next.attackUpdates = u :: db.attackUpdates) (owner : u.incidentID = ev.incidentID)
    (kind : u.kind = kindOf ev.state) (id : String) (state : State) :
    next.rows id (kindOf state) = db.rows id (kindOf state) +
      if ev.incidentID = id ∧ ev.state = state then 1 else 0 := by
  have same : (u.incidentID = id ∧ u.kind = kindOf state) ↔
      (ev.incidentID = id ∧ ev.state = state) := by
    rw [owner, kind]
    exact and_congr_right fun _ => ⟨kindOf_injective, congrArg kindOf⟩
  unfold Database.rows
  rw [logged, List.countP_cons]
  simp only [decide_eq_true_eq, same]

theorem Database.rows_own {ev : AttackEvent} {db next : Database}
    (logged : ∃ u, next.attackUpdates = u :: db.attackUpdates ∧ u.incidentID = ev.incidentID ∧
      u.kind = kindOf ev.state) (state : State) :
    next.rows ev.incidentID (kindOf state) =
      db.rows ev.incidentID (kindOf state) + if ev.state = state then 1 else 0 := by
  obtain ⟨u, appended, owner, kind⟩ := logged
  simpa using Database.rows_logged appended owner kind ev.incidentID state

theorem Database.rows_absent {db : Database} {id : String} (absent : id ∉ db.incidents)
    (kind : Kind) : db.rows id kind = 0 := by
  rw [Database.rows, List.countP_eq_zero]
  intro u member same
  simp only [decide_eq_true_eq] at same
  exact absent (same.1 ▸ db.references u member)

theorem Reflects.fresh {id : String} {db : Database} (absent : id ∉ db.incidents) :
    Reflects id [] db where
  rows state := by rw [Database.rows_absent absent]; exact Nat.zero_le _
  present := by simp [absent, Database.rows_absent absent]
  endedAt row found := absurd (AList.lookup_isSome.mp (by rw [found]; rfl)) absent

theorem Handled.rows_started {ev : AttackEvent} {db next : Database} (handled : Handled ev db next)
    {id : String} (grown : next.rows id .started ≠ db.rows id .started) :
    ev.state = .started ∧ ev.incidentID = id := by
  cases handled with
  | refused same => exact absurd (by rw [same]) grown
  | opened _ _ _ _ _ _ _ logged | again _ _ _ logged | changed _ _ _ _ _ _ _ _ _ logged =>
      obtain ⟨u, appended, owner, kind⟩ := logged
      by_contra apart
      apply grown
      have counted := Database.rows_logged appended owner kind id .started
      rw [if_neg (fun same => apart same.symm)] at counted
      exact counted

theorem Reflects.other {id : String} {recorded : List AttackEvent} {db next : Database}
    {ev : AttackEvent} (reflects : Reflects id recorded db) (handled : Handled ev db next)
    (different : ev.incidentID ≠ id) : Reflects id (recorded ++ [ev]) next := by
  have rows : ∀ kind, next.rows id kind = db.rows id kind := by
    intro kind
    unfold Database.rows
    cases handled with
    | refused same => rw [same]
    | opened _ _ _ _ _ _ _ logged | again _ _ _ logged | changed _ _ _ _ _ _ _ _ _ logged =>
        obtain ⟨u, appended, owner, -⟩ := logged
        rw [appended, List.countP_cons_of_neg]
        simp [owner, different]
  have lookup := handled.lookup_other different
  have member : id ∈ next.incidents ↔ id ∈ db.incidents := by
    rw [← AList.lookup_isSome, ← AList.lookup_isSome, lookup]
  refine ⟨fun state => ?_, ?_, fun row found => ?_⟩
  · rw [rows, occurrences_append]
    exact (reflects.rows state).trans (Nat.le_add_right _ _)
  · rw [member, rows]
    exact reflects.present
  · rw [rows]
    exact reflects.endedAt row (lookup ▸ found)

/-- A call of the store keeps the rows of every incident in step with what was recorded. -/
theorem Reflects.handled {id : String} {recorded : List AttackEvent} {db next : Database}
    {ev : AttackEvent} (reflects : Reflects id recorded db) (handled : Handled ev db next) :
    Reflects id (recorded ++ [ev]) next := by
  by_cases own : ev.incidentID = id
  · subst own
    have counted : ∀ state, (∀ state, next.rows ev.incidentID (kindOf state) =
        db.rows ev.incidentID (kindOf state) + if ev.state = state then 1 else 0) →
        next.rows ev.incidentID (kindOf state) ≤
          occurrences ev.incidentID state (recorded ++ [ev]) := by
      intro state grown
      rw [grown state, occurrences_append, occurrences_singleton]
      simpa using reflects.rows state
    cases handled with
    | refused same =>
        subst same
        refine ⟨fun state => ?_, reflects.present, reflects.endedAt⟩
        rw [occurrences_append]
        exact (reflects.rows state).trans (Nat.le_add_right _ _)
    | opened started fresh row _ _ alive incidents logged =>
        have grown := Database.rows_own logged
        refine ⟨fun state => counted state grown, ?_, ?_⟩
        · rw [incidents, ← kindOf_started, grown .started]
          simp [started]
        · intro found same
          rw [incidents, AList.lookup_insert] at same
          obtain rfl := Option.some.inj same
          rw [← kindOf_ended, grown .ended,
            Database.rows_absent fresh, alive, started]
          simp
    | again started known incidents logged =>
        have grown := Database.rows_own logged
        refine ⟨fun state => counted state grown, ?_, ?_⟩
        · rw [incidents, ← kindOf_started, grown .started]
          simp [known, started]
        · intro row same
          rw [incidents] at same
          rw [← kindOf_ended, grown .ended, started]
          simpa using reflects.endedAt row same
    | changed later old row known _ _ _ endedAt incidents logged =>
        have grown := Database.rows_own logged
        have member : ev.incidentID ∈ db.incidents := AList.lookup_isSome.mp (by rw [known]; rfl)
        refine ⟨fun state => counted state grown, ?_, ?_⟩
        · rw [incidents, ← kindOf_started, grown .started]
          simpa [later] using reflects.present.mp member
        · intro found same
          rw [incidents, AList.lookup_insert] at same
          obtain rfl := Option.some.inj same
          rw [← kindOf_ended, grown .ended, endedAt]
          by_cases last : ev.state = .ended
          · simp [last]
          · simpa [last] using reflects.endedAt old known
  · exact reflects.other handled own

namespace Process

theorem recorded_handled {p next : Process ρ} {action : Action} {ev : AttackEvent}
    (moved : p.step newULID action = some (next, .recorded ev)) :
    ∃ fault now, action = .record fault now ∧ next.db = Store.handle fault now ev p.db := by
  cases action with
  | call k i t =>
      simp only [step] at moved
      split at moved <;> cases moved
  | lose n => cases moved
  | record fault now =>
      simp only [step] at moved
      split at moved
      · contradiction
      · cases moved
        exact ⟨fault, now, rfl, rfl⟩

theorem step_db {p next : Process ρ} {action : Action} {seen : Seen}
    (moved : p.step newULID action = some (next, seen)) :
    (seen.recordedEvent = none ∧ next.db = p.db) ∨ ∃ ev, seen = .recorded ev := by
  cases action with
  | call k i t =>
      simp only [step] at moved
      split at moved
      · contradiction
      · cases moved
        exact .inl ⟨rfl, rfl⟩
      · cases moved
        exact .inl ⟨rfl, rfl⟩
  | lose n =>
      cases moved
      exact .inl ⟨rfl, rfl⟩
  | record fault now =>
      simp only [step] at moved
      split at moved
      · contradiction
      · cases moved
        exact .inr ⟨_, rfl⟩

theorem reflects_run {rnd : ρ} {db : Database} {trace : Trace ρ} {final : Process ρ}
    (run : Run (step newULID) (start rnd db) trace final) {id : String}
    (absent : id ∉ db.incidents) : Reflects id (recordedIn trace) final.db := by
  induction run with
  | start => exact Reflects.fresh absent
  | @step trace p next action seen past moved ih =>
      rw [recordedIn_cons]
      rcases step_db moved with ⟨silent, same⟩ | ⟨ev, rfl⟩
      · simpa [silent, same] using ih
      · obtain ⟨fault, now, -, written⟩ := recorded_handled moved
        have handled := Store.handle_cases fault now ev p.db
        rw [← written] at handled
        exact ih.handled handled

theorem persisted_of_rows {rnd : ρ} {db : Database} {trace : Trace ρ} {final : Process ρ}
    (run : Run (step newULID) (start rnd db) trace final) {id : String}
    (grown : final.db.rows id .started ≠ db.rows id .started) : Persisted id trace := by
  induction run with
  | start => exact absurd rfl grown
  | @step trace p next action seen past moved ih =>
      by_cases earlier : p.db.rows id .started = db.rows id .started
      · rcases step_db moved with ⟨-, same⟩ | ⟨ev, rfl⟩
        · rw [same] at grown
          exact absurd earlier grown
        · obtain ⟨fault, now, rfl, written⟩ := recorded_handled moved
          rw [written, ← earlier] at grown
          have own := (Store.handle_cases fault now ev p.db).rows_started grown
          exact ⟨_, List.mem_cons_self, fault, now, ev, rfl, rfl, own.1, own.2, grown⟩
      · obtain ⟨entry, member, rest⟩ := ih earlier
        exact ⟨entry, List.mem_cons_of_mem _ member, rest⟩

/-- The tables against the run that wrote them, `before` being what they held at its start. -/
structure Consistent (newULID : ρ → Time → String × ρ) (before : Database) (trace : Trace ρ)
    (final : Process ρ) : Prop where
  references : ∀ u ∈ final.db.attackUpdates, u.incidentID ∈ final.db.incidents
  started : ∀ id ∈ final.db.incidents, id ∉ before.incidents → final.db.rows id .started = 1
  update : ∀ id ∈ final.db.incidents, id ∉ before.incidents → final.db.rows id .update ≤ 1
  ended : ∀ id ∈ final.db.incidents, id ∉ before.incidents → final.db.rows id .ended ≤ 1
  endedAt : ∀ id row, final.db.incidents.lookup id = some row → id ∉ before.incidents →
    (row.endedAt.isSome = true ↔ final.db.rows id .ended = 1)
  orphans : ∀ front entry back, trace = front ++ entry :: back → ∀ ev next,
    entry.output = .recorded ev → ev.state ≠ .started → ¬ Persisted ev.incidentID back →
      entry.before.step newULID entry.action = some (next, entry.output) →
        next.db = entry.before.db

theorem issued_suffix {front back : Trace ρ}
    (distinct : (issued (emittedIn (front ++ back))).Nodup) : (issued (emittedIn back)).Nodup := by
  rw [emittedIn, Run.collect_append, issued_append] at distinct
  exact (List.nodup_append.mp distinct).1

theorem issued_of_recorded {rnd : ρ} {db : Database} {trace : Trace ρ} {final : Process ρ}
    (run : Run (step newULID) (start rnd db) trace final)
    (distinct : (issued (emittedIn trace)).Nodup) {ev : AttackEvent}
    (recorded : ev ∈ recordedIn trace) : ev.incidentID ∈ issued (emittedIn trace) := by
  have delivered := delivered_run run distinct
  exact delivered.sole.known ev
    (delivered.order.subset (List.mem_append_left _ recorded))

/-- An event whose incident has left no Started row changes nothing. -/
theorem orphan_unchanged {rnd : ρ} {db : Database} {back : Trace ρ} {p next : Process ρ}
    {action : Action} {ev : AttackEvent} (past : Run (step newULID) (start rnd db) back p)
    (absent : ev.incidentID ∉ db.incidents) (later : ev.state ≠ .started)
    (unsaved : ¬ Persisted ev.incidentID back)
    (moved : p.step newULID action = some (next, .recorded ev)) : next.db = p.db := by
  obtain ⟨fault, now, -, written⟩ := recorded_handled moved
  have none : p.db.rows ev.incidentID .started = 0 := by
    by_contra some
    apply unsaved
    apply persisted_of_rows past
    rw [Database.rows_absent absent]
    exact some
  have unknown : ev.incidentID ∉ p.db.incidents := by
    rw [(reflects_run past absent).present, none]
    exact Nat.not_succ_le_zero 0
  rw [written]
  cases Store.handle_cases fault now ev p.db with
  | refused same => exact same
  | opened started | again started => exact absurd started later
  | changed _ old row known =>
      exact absurd (AList.lookup_isSome.mp (by rw [known]; rfl)) unknown

/-- Whatever is lost on the way and wherever the store fails, the tables tell a consistent
history of every incident of the run. -/
theorem tables_consistent (rnd : ρ) (db : Database) {trace : Trace ρ} {final : Process ρ}
    (run : Run (step newULID) (start rnd db) trace final)
    (distinct : (issued (emittedIn trace)).Nodup)
    (fresh : ∀ id ∈ issued (emittedIn trace), id ∉ db.incidents) :
    Consistent newULID db trace final := by
  have delivered := delivered_run run distinct
  have bound : ∀ id, id ∉ db.incidents → ∀ state, final.db.rows id (kindOf state) ≤ 1 := by
    intro id absent state
    exact ((reflects_run run absent).rows state).trans (delivered.once id state)
  refine ⟨final.db.references, ?_, ?_, ?_, ?_, ?_⟩
  · intro id member absent
    exact le_antisymm (bound id absent .started) ((reflects_run run absent).present.mp member)
  · exact fun id _ absent => bound id absent .updated
  · exact fun id _ absent => bound id absent .ended
  · intro id row found absent
    have most : final.db.rows id .ended ≤ 1 := bound id absent .ended
    rw [(reflects_run run absent).endedAt row found]
    omega
  · rintro front ⟨p, action, seen⟩ back rfl ev next rfl later unsaved moved
    obtain ⟨past, next', again, run'⟩ := run.cut
    have recorded : ev ∈ recordedIn (⟨p, action, .recorded ev⟩ :: back) := by
      simp [recordedIn_cons, Seen.recordedEvent]
    have started := issued_of_recorded run' (issued_suffix distinct) recorded
    refine orphan_unchanged past (fresh _ ?_) later unsaved moved
    rw [emittedIn, Run.collect_append, issued_append]
    exact List.mem_append_left _ started

def emptyDatabase : Database := ⟨fun _ => none, ∅, [], by simp⟩

theorem tables_consistent_sample : ∃ (trace : Trace Nat) (final : Process Nat),
    (final.db.rows "0" .ended, final.db.rows "1" .started, final.db.rows "1" .update,
      final.db.rows "1" .ended) = (0, 1, 0, 1) ∧
      Consistent countingULID emptyDatabase trace final := by
  have executed : (Run.replay (step countingULID) [] (start 0 emptyDatabase)
      [.call sampleKey (sampleInput 100 true) (sampleThreshold 1 1 1 1), .lose 0,
        .call ⟨.v4 0xc0000202, .udpFlood⟩ (sampleInput 100 true) (sampleThreshold 1 1 1 1),
        .record .none (Time.ofUnix 100),
        .call ⟨.v4 0xc0000202, .udpFlood⟩ (sampleInput 400 true) (sampleThreshold 1 1 1 1),
        .record .second (Time.ofUnix 400),
        .call ⟨.v4 0xc0000202, .udpFlood⟩ (sampleInput 401 false) (sampleThreshold 1 1 1 1),
        .call sampleKey (sampleInput 401 false) (sampleThreshold 1 1 1 1),
        .record .none (Time.ofUnix 401), .record .none (Time.ofUnix 401)]).map
        (fun made => (issued (emittedIn made.1), (made.2.db.rows "0" .ended,
          made.2.db.rows "1" .started, made.2.db.rows "1" .update,
          made.2.db.rows "1" .ended))) = some (["0", "1"], (0, 1, 0, 1)) := by
    decide +kernel
  obtain ⟨⟨trace, final⟩, replayed, observed⟩ := Option.map_eq_some_iff.mp executed
  rw [Prod.mk.injEq] at observed
  obtain ⟨identifiers, counts⟩ := observed
  refine ⟨trace, final, counts, ?_⟩
  apply tables_consistent 0 emptyDatabase (Run.of_replay .start replayed)
  · rw [identifiers]
    decide
  · intro id _ impossible
    exact absurd impossible (AList.notMem_empty id)

end Process

end Mitigador.Incident
