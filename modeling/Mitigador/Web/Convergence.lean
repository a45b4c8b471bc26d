import Mitigador.Incident.Consistency
import Mitigador.Web.Following

/-! Whether the dashboard comes to show the open incidents. It has two sources, the snapshot and the
stream, and what it misses between them or while it is not connected nothing brings back. -/

namespace Mitigador.Web

open Go Detect Api Lib

variable {ρ ν : Type*}

def Seen.event : Seen → Option AttackEvent
  | .published ev => some ev
  | _ => none

def Seen.message : Seen → Option SsePayload
  | .delivered p => some p
  | _ => none

abbrev History (ρ ν : Type*) := List (Entry (System ρ ν) Action Seen)

def publishedIn : History ρ ν → List AttackEvent := Run.collect fun entry => entry.output.event

def deliveredIn : History ρ ν → List SsePayload := Run.collect fun entry => entry.output.message

def snapshotIn : History ρ ν → List String
  | [] => []
  | entry :: back =>
      match entry.action, entry.before.dashboard.load with
      | .reply, .answered rows => rows.map Prod.fst
      | _, _ => snapshotIn back

theorem publishedIn_cons (entry : Entry (System ρ ν) Action Seen) (back : History ρ ν) :
    publishedIn (entry :: back) = publishedIn back ++ entry.output.event.toList :=
  Run.collect_cons ..

theorem deliveredIn_cons (entry : Entry (System ρ ν) Action Seen) (back : History ρ ν) :
    deliveredIn (entry :: back) = deliveredIn back ++ entry.output.message.toList :=
  Run.collect_cons ..

structure Quiescent (s : System ρ ν) : Prop where
  connected : Connected s.broker s.dashboard
  recorded : s.recorder.buffer = []
  taken : s.broker.input.buffer = []
  sent : ∀ c ∈ s.dashboard.stream, (s.broker.handlers c).ch.buffer = []
  read : s.dashboard.wire = []
  faded : s.dashboard.fading = []

instance (broker : Broker) (d : Dashboard ν) : Decidable (Connected broker d) :=
  match stream : d.stream with
  | none => isFalse fun ⟨_, here, _⟩ => absurd (stream.symm.trans here) (by simp)
  | some c => decidable_of_iff _ (Follows.connected_iff stream).symm

instance (s : System ρ ν) : Decidable (Quiescent s) :=
  decidable_of_iff (Connected s.broker s.dashboard ∧ s.recorder.buffer = [] ∧
      s.broker.input.buffer = [] ∧
      (∀ c ∈ s.dashboard.stream, (s.broker.handlers c).ch.buffer = []) ∧
      s.dashboard.wire = [] ∧ s.dashboard.fading = [])
    ⟨fun ⟨connected, recorded, taken, sent, read, faded⟩ =>
      ⟨connected, recorded, taken, sent, read, faded⟩,
    fun quiescent => ⟨quiescent.connected, quiescent.recorded, quiescent.taken, quiescent.sent,
      quiescent.read, quiescent.faded⟩⟩

def unended (db : Incident.Database) : Set (Option (Scalar ν)) :=
  { x | ∃ id row, db.incidents.lookup id = some row ∧ row.endedAt = none ∧ x = some (.string id) }

structure Proper (marshal : List (String × Value) → Option String) (page : Page ν)
    (before : Incident.Database) (published : List AttackEvent) : Prop where
  distinct : (issued published).Nodup
  fresh : ∀ id ∈ issued published, id ∉ before.incidents
  read : ∀ ev ∈ published, Read marshal page.toBrowser ev

def Room (newULID : ρ → Time → String × ρ) (s : System ρ ν) : Action → Prop
  | .call k i t => ∀ sm ev, s.sm.step newULID k i t = some (sm, some ev) →
      s.recorder.buffer.length < s.recorder.capacity ∧
        s.broker.input.buffer.length < s.broker.input.capacity
  | .broker (.turn .input) => ∀ c ∈ s.dashboard.stream, Broker.Attached c s.broker →
      (s.broker.handlers c).ch.buffer.length < (s.broker.handlers c).ch.capacity
  | _ => True

/-- When the broker comes to know the stream of the page, the snapshot, the messages the page has
been given and the events the broker has yet to take account for all events published. -/
def Unmissed (before : Incident.Database) (back : History ρ ν) (s : System ρ ν) : Action → Prop
  | .broker (.turn .subscribe) => ∀ c ∈ s.dashboard.stream,
      s.broker.subscribe.buffer.head? = some c → (s.broker.handlers c).phase = .streaming →
        Accounted (openIn before) (snapshotIn back)
          ((deliveredIn back).map heard ++ s.broker.input.buffer.map signal) (publishedIn back)
  | _ => True

variable [DecidableEq ν] {newULID : ρ → Time → String × ρ}
  {marshal : List (String × Value) → Option String} {page : Page ν} {before : Incident.Database}

structure Tracked (marshal : List (String × Value) → Option String) (before : Incident.Database)
    (published : List AttackEvent) (base : List String) (told : List (String × String))
    (s : System ρ ν) : Prop where
  inStep : InStep published s.sm.running
  castable : ∀ ev ∈ published, Incident.isInet ev.hostIP = true
  books : ∃ recorded, published = recorded ++ s.recorder.buffer ∧ Books before recorded s.db
  follows : Follows marshal (openIn before) published base told s.broker s.dashboard

namespace Tracked

variable {published : List AttackEvent} {base : List String} {told : List (String × String)}
  {s : System ρ ν}

theorem call (tracked : Tracked marshal before published base told s) {k : Key} {i : Input}
    {t : Threshold} {next : System ρ ν} {output : Seen} (room : Room newULID s (.call k i t))
    (moved : s.step newULID marshal page (.call k i t) = some (next, output)) :
    output.message = none ∧
      Tracked marshal before (published ++ output.event.toList) base told next := by
  simp only [System.step] at moved
  split at moved
  · next inside =>
      split at moved
      · contradiction
      · next sm stepped =>
          cases moved
          obtain ⟨progress, frame⟩ := StateMachine.progress stepped
          have inStep := tracked.inStep.step progress frame
          rw [Option.toList_none, List.append_nil] at inStep
          have same : published ++ Seen.nothing.event.toList = published := List.append_nil _
          rw [same]
          exact ⟨rfl, inStep, tracked.castable, tracked.books, tracked.follows⟩
      · next sm ev stepped =>
          obtain ⟨space, space'⟩ := room sm ev stepped
          obtain ⟨progress, frame⟩ := StateMachine.progress stepped
          have inStep := tracked.inStep.step progress frame
          split at moved
          · next recorder _ input _ offered offered' =>
              cases moved
              refine ⟨rfl, inStep, fun other member => ?_, ?_, ?_⟩
              · rcases List.mem_append.mp member with earlier | new
                · exact tracked.castable other earlier
                · rw [List.mem_singleton.mp new, progress.hostIP]
                  exact Incident.isInet_of_contains inside
              · obtain ⟨recorded, split, books⟩ := tracked.books
                refine ⟨recorded, ?_, books⟩
                rw [Chan.offer_room space offered, split, List.append_assoc]
                rfl
              · exact tracked.follows.publish (Chan.offer_room space' offered')
          · contradiction
  · contradiction

theorem record (tracked : Tracked marshal before published base told s)
    (proper : Proper marshal page before published) {ev : AttackEvent}
    {recorder : Chan AttackEvent} (received : s.recorder.receive = some (some ev, recorder))
    (now : Time) : Tracked marshal before published base told { s with
      recorder := recorder
      db := Incident.Store.handle .none now ev s.db } := by
  obtain ⟨recorded, split, books⟩ := tracked.books
  rw [Chan.receive_value received] at split
  have castable := tracked.castable ev (by rw [split]; simp)
  have fresh : ev.state = .started → ev.incidentID ∉ s.db.incidents := by
    intro started present
    have own : ev.incidentID ∈ issued (ev :: recorder.buffer) := by simp [issued, started]
    have distinct := proper.distinct
    rw [split, issued_append] at distinct
    rcases books.known ev.incidentID present with old | earlier
    · exact proper.fresh ev.incidentID (by rw [split, issued_append]; simp [own]) old
    · exact (List.nodup_append.mp distinct).2.2 _ earlier _ own rfl
  refine ⟨tracked.inStep, tracked.castable, ⟨recorded ++ [ev], ?_, ?_⟩, tracked.follows⟩
  · rw [split, List.append_assoc]
    rfl
  · exact books.record castable fresh now

theorem moved (tracked : Tracked marshal before published base told s)
    {base' : List String} {told' : List (String × String)} {broker : Broker}
    {dashboard : Dashboard ν}
    (follows : Follows marshal (openIn before) published base' told' broker dashboard) :
    Tracked marshal before published base' told' { s with
      broker := broker
      dashboard := dashboard } :=
  ⟨tracked.inStep, tracked.castable, tracked.books, follows⟩

theorem silent {trace : History ρ ν} {next : System ρ ν} {action : Action}
    (kept : snapshotIn (⟨s, action, .nothing⟩ :: trace) = snapshotIn trace)
    (after : Tracked marshal before (publishedIn trace) (snapshotIn trace)
      ((deliveredIn trace).map heard) next) :
    Tracked marshal before (publishedIn (⟨s, action, .nothing⟩ :: trace))
      (snapshotIn (⟨s, action, .nothing⟩ :: trace))
      ((deliveredIn (⟨s, action, .nothing⟩ :: trace)).map heard) next := by
  rw [publishedIn_cons, deliveredIn_cons, kept]
  simpa [Seen.event, Seen.message] using after

theorem step {trace : History ρ ν} {next : System ρ ν} {action : Action} {output : Seen}
    (tracked : Tracked marshal before (publishedIn trace) (snapshotIn trace)
      ((deliveredIn trace).map heard) s)
    (proper : Proper marshal page before (publishedIn trace)) (room : Room newULID s action)
    (unmissed : Unmissed before trace s action)
    (stepped : s.step newULID marshal page action = some (next, output)) :
    Tracked marshal before (publishedIn (⟨s, action, output⟩ :: trace))
      (snapshotIn (⟨s, action, output⟩ :: trace))
      ((deliveredIn (⟨s, action, output⟩ :: trace)).map heard) next := by
  have follows := tracked.follows
  cases action with
  | call k i t =>
      obtain ⟨undelivered, called⟩ := tracked.call room stepped
      rw [publishedIn_cons, deliveredIn_cons, undelivered, Option.toList_none, List.append_nil]
      exact called
  | record now =>
      simp only [System.step] at stepped
      split at stepped
      · next ev recorder received =>
          cases stepped
          exact silent rfl (tracked.record proper received now)
      · contradiction
  | read order =>
      simp only [System.step] at stepped
      split at stepped
      · next rows asked listed =>
          cases stepped
          refine silent rfl (tracked.moved (follows.load ?_ ?_))
          · rw [Loading, asked]
            trivial
          · rintro _ ⟨⟩
            exact Incident.Store.listActive_spec listed
      · contradiction
  | reply =>
      simp only [System.step] at stepped
      split at stepped
      · next rows answered =>
          cases stepped
          have snapshot : snapshotIn (⟨s, .reply, .nothing⟩ :: trace) = rows.map Prod.fst := by
            rw [snapshotIn, answered]
          rw [publishedIn_cons, deliveredIn_cons, snapshot]
          simpa [Seen.event, Seen.message] using tracked.moved (follows.reply page answered)
      · contradiction
  | fail =>
      simp only [System.step] at stepped
      split at stepped
      · contradiction
      · next loading =>
          cases stepped
          refine silent rfl (tracked.moved (follows.load ?_ ?_))
          · cases load : s.dashboard.load with
            | asked | answered rows => simp [Loading, load]
            | done => exact absurd load loading
          · intro rows impossible
            contradiction
  | connect c =>
      simp only [System.step] at stepped
      split at stepped
      · next broker _ done _ connected =>
          cases stepped
          obtain ⟨input, phase⟩ := connect_spec connected
          have tidy := follows.tidy.step connected
          refine silent rfl (tracked.moved (follows.restart tidy (by rw [input]) ?_ ?_))
          · intro _ loading
            rw [Loading, done] at loading
            exact loading
          · rintro _ ⟨⟩
            simp [phase]
      · contradiction
  | lose =>
      simp only [System.step] at stepped
      split at stepped
      · contradiction
      · cases stepped
        refine silent rfl (tracked.moved (follows.restart follows.tidy rfl ?_ ?_))
        · intro impossible
          contradiction
        · intro c impossible
          contradiction
  | broker action =>
      have unpublished : ∀ ev, action ≠ .publish ev := by
        rintro ev rfl
        contradiction
      rw [System.step] at stepped
      · split at stepped
        · contradiction
        · next broker _ turned =>
            cases stepped
            refine silent rfl (tracked.moved (follows.turned proper.read unpublished ?_ ?_ turned))
            · rintro rfl
              exact room
            · rintro rfl
              exact unmissed
      · exact unpublished
  | deliver =>
      simp only [System.step] at stepped
      split at stepped
      · contradiction
      · next p rest wire =>
          cases stepped
          have delivered := follows.deliver tracked.inStep.orderly proper.distinct proper.read wire
          rw [publishedIn_cons, deliveredIn_cons]
          simpa [Seen.event, Seen.message, snapshotIn] using tracked.moved delivered
  | expire n =>
      simp only [System.step] at stepped
      obtain ⟨dashboard, expired, same⟩ := Option.map_eq_some_iff.mp stepped
      cases same
      exact silent rfl (tracked.moved (follows.expire expired))

end Tracked

omit [DecidableEq ν] in
theorem Proper.front {published more : List AttackEvent}
    (proper : Proper marshal page before (published ++ more)) :
    Proper marshal page before published where
  distinct := by
    have distinct := proper.distinct
    rw [issued_append] at distinct
    exact (List.nodup_append.mp distinct).1
  fresh id started := by
    apply proper.fresh id
    rw [issued_append]
    exact List.mem_append_left _ started
  read ev member := proper.read ev (List.mem_append_left _ member)

theorem follows_start (marshal : List (String × Value) → Option String) (before : List String)
    (input : Nat) : Follows marshal before [] [] [] (Broker.new (Chan.make input))
      (Dashboard.mounted : Dashboard ν) where
  tidy := Broker.new_tidy _
  sane := ⟨fun row impossible => by contradiction, fun id => Nat.zero_le _⟩
  early _ := ⟨rfl, rfl, rfl, rfl⟩
  answer rows impossible := by contradiction
  silent c impossible := by contradiction
  shown id := rfl
  order := by
    refine ⟨[], [], [], rfl, rfl, fun _ => rfl, fun id marked => ?_⟩
    rcases marked with ⟨row, impossible, -⟩ | impossible
    · contradiction
    · contradiction
  accounted := by
    rintro ⟨c, impossible, -⟩
    contradiction

theorem tracked_start (marshal : List (String × Value) → Option String) (rnd : ρ)
    (before : Incident.Database) (capacity input : Nat) : Tracked marshal before [] [] []
      (System.start rnd before capacity input : System ρ ν) where
  inStep := inStep_nil
  castable ev impossible := by contradiction
  books := by
    refine ⟨[], rfl, fun id present => .inl present, fun id => ?_⟩
    exact List.contains_iff_mem.symm
  follows := follows_start marshal (openIn before) input

theorem tracked_run {rnd : ρ} {capacity input : Nat} {trace : History ρ ν} {final : System ρ ν}
    (run : Run (System.step newULID marshal page) (System.start rnd before capacity input) trace
      final)
    (proper : Proper marshal page before (publishedIn trace))
    (roomy : ∀ front entry back, trace = front ++ entry :: back →
      Room newULID entry.before entry.action)
    (unmissed : ∀ front entry back, trace = front ++ entry :: back →
      Unmissed before back entry.before entry.action) :
    Tracked marshal before (publishedIn trace) (snapshotIn trace)
      ((deliveredIn trace).map heard) final := by
  induction run with
  | start => exact tracked_start marshal rnd before capacity input
  | @step trace s next action output past stepped ih =>
      rw [publishedIn_cons] at proper
      have suffix : trace <:+ ⟨s, action, output⟩ :: trace := List.suffix_cons ..
      have tracked := ih proper.front (Run.guarded_of_suffix suffix roomy)
        (Run.guarded_of_suffix suffix unmissed)
      exact tracked.step proper.front (roomy [] _ trace rfl) (unmissed [] _ trace rfl) stepped

def litRows (base : List String) (messages : List (String × String)) : Set (Option (Scalar ν)) :=
  { x | ∃ id, lit base messages id = true ∧ x = some (.string id) }

theorem shown_of_quiescent {base : List String} {told : List (String × String)}
    {published : List AttackEvent} {s : System ρ ν}
    (follows : Follows marshal (openIn before) published base told s.broker s.dashboard)
    (quiescent : Quiescent s) : s.dashboard.shown = litRows base told := by
  ext x
  constructor
  · rintro ⟨row, member, alive, rfl⟩
    obtain ⟨id, named⟩ := follows.sane.named row member
    refine ⟨id, ?_, named⟩
    rw [← follows.shown, Dashboard.isLit, quiescent.faded, Bool.and_eq_true_iff]
    refine ⟨List.any_eq_true.mpr ⟨row, ?_, by simp [alive]⟩, rfl⟩
    exact List.mem_filter.mpr ⟨member, by simpa using named⟩
  · rintro ⟨id, under, rfl⟩
    rw [← follows.shown, Dashboard.isLit, Bool.and_eq_true_iff] at under
    obtain ⟨row, member, alive⟩ := List.any_eq_true.mp under.1
    obtain ⟨active, named⟩ := List.mem_filter.mp member
    exact ⟨row, active, by simpa using alive, by simpa using named⟩

theorem unended_of_recorded {published : List AttackEvent} {base : List String}
    {told : List (String × String)} {s : System ρ ν}
    (tracked : Tracked marshal before published base told s) (quiescent : Quiescent s) :
    (unended s.db : Set (Option (Scalar ν))) =
      litRows (openIn before) (published.map signal) := by
  obtain ⟨recorded, split, books⟩ := tracked.books
  rw [quiescent.recorded, List.append_nil] at split
  subst split
  ext x
  constructor
  · rintro ⟨id, row, found, alive, rfl⟩
    exact ⟨id, (books.alive id).mp (mem_openIn.mpr ⟨row, found, alive⟩), rfl⟩
  · rintro ⟨id, under, rfl⟩
    obtain ⟨row, found, alive⟩ := mem_openIn.mp ((books.alive id).mpr under)
    exact ⟨id, row, found, alive, rfl⟩

/-- In every run, over any tables, in which no buffer overflows and nothing was missed whenever the
broker came to know the stream of the page, the page shows in every quiescent state the incidents
that are not ended in the tables. -/
theorem converges (rnd : ρ) (before : Incident.Database) (capacity input : Nat)
    {trace : History ρ ν} {final : System ρ ν}
    (run : Run (System.step newULID marshal page) (System.start rnd before capacity input) trace
      final)
    (proper : Proper marshal page before (publishedIn trace))
    (roomy : ∀ front entry back, trace = front ++ entry :: back →
      Room newULID entry.before entry.action)
    (unmissed : ∀ front entry back, trace = front ++ entry :: back →
      Unmissed before back entry.before entry.action)
    (quiescent : Quiescent final) : final.dashboard.shown = unended final.db := by
  have tracked := tracked_run run proper roomy unmissed
  obtain ⟨c, stream, attached⟩ := quiescent.connected
  have arrived : incoming final.broker final.dashboard = [] := by
    rw [Follows.incoming_eq stream, quiescent.read, pending_of_looping attached.2.2,
      quiescent.sent c stream]
    rfl
  have accounted := tracked.follows.accounted quiescent.connected
  rw [arrived, quiescent.taken, List.map_nil, List.map_nil, List.append_nil, List.append_nil]
    at accounted
  calc
    _ = litRows (snapshotIn trace) ((deliveredIn trace).map heard) :=
      shown_of_quiescent tracked.follows quiescent
    _ = litRows (openIn before) ((publishedIn trace).map signal) := by
      simp only [litRows, accounted]
    _ = unended final.db := (unended_of_recorded tracked quiescent).symm

section Sample

def samplePage : Page Nat where
  toBrowser := sampleBrowser
    [sampleEvent "0" .started, sampleEvent "0" .ended,
      { sampleEvent "1" .started with hostIP := .v4 0xc0000202 }]
  figure n := n.toNatClampNeg
  hostgroup _ := "corporate"

def sampleStart : System Nat Nat := System.start 0 Incident.Process.emptyDatabase 4 4

def sampleStep (s : System Nat Nat) (action : Action) : Option (System Nat Nat × Seen) :=
  s.step countingULID sampleMarshal samplePage action

def legible (ev : AttackEvent) : Bool :=
  samplePage.parse (sampleJson (eventToMap ev)) = some (samplePage.object ev)

def spacious (entry : Entry (System Nat Nat) Action Seen) : Bool :=
  let s := entry.before
  s.recorder.buffer.length < s.recorder.capacity &&
    s.broker.input.buffer.length < s.broker.input.capacity &&
    decide (∀ c ∈ s.dashboard.stream,
      (s.broker.handlers c).ch.buffer.length < (s.broker.handlers c).ch.capacity)

def wellRun (trace : History Nat Nat) : Bool :=
  decide (issued (publishedIn trace)).Nodup && (publishedIn trace).all legible &&
    trace.all spacious

theorem wellRun_spec {trace : History Nat Nat} (well : wellRun trace = true) :
    Proper sampleMarshal samplePage Incident.Process.emptyDatabase (publishedIn trace) ∧
      ∀ front entry back, trace = front ++ entry :: back →
        Room countingULID entry.before entry.action := by
  simp only [wellRun, Bool.and_eq_true, decide_eq_true_eq] at well
  obtain ⟨⟨distinct, readable⟩, spaced⟩ := well
  refine ⟨⟨distinct, fun id _ => AList.notMem_empty id, fun ev member => ?_⟩, ?_⟩
  · have text := List.all_eq_true.mp readable ev member
    exact ⟨_, rfl, of_decide_eq_true text⟩
  · rintro front entry back rfl
    have space := List.all_eq_true.mp spaced entry (by simp)
    simp only [spacious, Bool.and_eq_true, decide_eq_true_eq] at space
    obtain ⟨⟨recorder, input⟩, channels⟩ := space
    unfold Room
    split
    · exact fun _ _ _ => ⟨recorder, input⟩
    · exact fun c stream _ => channels c stream
    · trivial

def accounts (back : History Nat Nat) (entry : Entry (System Nat Nat) Action Seen) : Bool :=
  match entry.action with
  | .broker (.turn .subscribe) =>
      decide (Accounted [] (snapshotIn back)
        ((deliveredIn back).map heard ++ entry.before.broker.input.buffer.map signal)
        (publishedIn back))
  | _ => true

def otherKey : Key := ⟨.v4 0xc0000202, .udpFlood⟩

theorem converges_sample : ∃ (trace : History Nat Nat) (final : System Nat Nat),
    Run sampleStep sampleStart trace final ∧ Quiescent final ∧
      (publishedIn trace).map signal =
        [("0", "attack.started"), ("1", "attack.started"), ("0", "attack.ended")] ∧
      final.dashboard.shown = unended final.db := by
  have executed : (Run.replay sampleStep [] sampleStart
      [.call sampleKey (sampleInput 100 true) (sampleThreshold 1 1 1 1),
        .record (Time.ofUnix 100), .read [("0", Time.ofUnix 100)], .broker (.turn .input), .reply,
        .connect 0, .broker (.handler 0 .subscribe), .broker (.turn .subscribe),
        .call otherKey (sampleInput 100 true) (sampleThreshold 1 1 1 1),
        .call sampleKey (sampleInput 101 false) (sampleThreshold 1 1 1 1),
        .record (Time.ofUnix 101), .record (Time.ofUnix 101), .broker (.turn .input),
        .broker (.turn .input), .broker (.handler 0 .receive), .broker (.handler 0 .receive),
        .deliver, .deliver, .expire 0]).map (fun made =>
          (decide (Quiescent made.2), (publishedIn made.1).map signal, wellRun made.1,
            Run.checks accounts made.1)) =
      some (true, [("0", "attack.started"), ("1", "attack.started"), ("0", "attack.ended")], true,
        true) := by
    decide +kernel
  obtain ⟨⟨trace, final⟩, replayed, observed⟩ := Option.map_eq_some_iff.mp executed
  simp only [Prod.mk.injEq, decide_eq_true_eq] at observed
  obtain ⟨quiescent, published, well, accounted⟩ := observed
  have run := Run.of_replay .start replayed
  obtain ⟨proper, roomy⟩ := wellRun_spec well
  refine ⟨trace, final, run, quiescent, published, ?_⟩
  refine converges 0 Incident.Process.emptyDatabase 4 4 run proper roomy ?_ quiescent
  intro front entry back split
  have tested := Run.of_checks accounted front entry back split
  unfold Unmissed
  split
  · next subscribed =>
      rw [accounts, subscribed] at tested
      exact fun _ _ _ _ => of_decide_eq_true tested
  · trivial

/-- An incident of the snapshot ends while the page has lost its stream: the broker sends the end to
the old one, the page reads no second snapshot, and the row stays. -/
theorem phantom_after_gap : ∃ (trace : History Nat Nat) (final : System Nat Nat),
    Run sampleStep sampleStart trace final ∧
      Proper sampleMarshal samplePage Incident.Process.emptyDatabase (publishedIn trace) ∧
      (∀ front entry back, trace = front ++ entry :: back →
        Room countingULID entry.before entry.action) ∧
      Quiescent final ∧ final.dashboard.shown ≠ unended final.db := by
  have executed : (Run.replay sampleStep [] sampleStart
      [.call sampleKey (sampleInput 100 true) (sampleThreshold 1 1 1 1),
        .record (Time.ofUnix 100), .read [("0", Time.ofUnix 100)], .broker (.turn .input), .reply,
        .connect 0, .broker (.handler 0 .subscribe), .broker (.turn .subscribe), .lose,
        .call sampleKey (sampleInput 101 false) (sampleThreshold 1 1 1 1),
        .record (Time.ofUnix 101), .broker (.turn .input), .connect 1,
        .broker (.handler 1 .subscribe), .broker (.turn .subscribe)]).map (fun made =>
          (decide (Quiescent made.2), wellRun made.1,
            made.2.dashboard.active.any fun row =>
              row.incidentId = some (.string "0") ∧ ¬ row.ended,
            (made.2.db.incidents.lookup "0").map Incident.IncidentRow.endedAt)) =
      some (true, true, true, some (some (Time.ofUnix 101))) := by
    decide +kernel
  obtain ⟨⟨trace, final⟩, replayed, observed⟩ := Option.map_eq_some_iff.mp executed
  simp only [Prod.mk.injEq, decide_eq_true_eq] at observed
  obtain ⟨quiescent, well, table, closed⟩ := observed
  obtain ⟨proper, roomy⟩ := wellRun_spec well
  refine ⟨trace, final, Run.of_replay .start replayed, proper, roomy, quiescent, fun same => ?_⟩
  have shown : some (.string "0") ∈ final.dashboard.shown := by
    obtain ⟨row, active, here⟩ := List.any_eq_true.mp table
    obtain ⟨own, alive⟩ := of_decide_eq_true here
    exact ⟨row, active, by simpa using alive, own⟩
  rw [same] at shown
  obtain ⟨id, row, found, alive, own⟩ := shown
  cases own
  rw [found, Option.map_some, alive] at closed
  simp at closed

end Sample

end Mitigador.Web
