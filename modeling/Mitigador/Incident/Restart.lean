import Mitigador.Detect.Identity
import Mitigador.Detect.Protocol
import Mitigador.Incident.Store
import Mitigador.Lib.Run

/-! The incidents table over any number of process lifetimes (crash recovery in
cmd/mitigador/serve.go). While a process runs no event is lost. -/

namespace Mitigador.Incident

open Go Detect Lib

variable {ρ : Type*}

/-- A process, when one is up, and the tables that outlive it. -/
structure Service (ρ : Type*) where
  up : Bool
  sm : StateMachine ρ
  pending : List AttackEvent
  db : Database

namespace Service

/-- The start of a process, whose recovery may fail, a step of its state machine, its recorder's
next event, and its end at any point. -/
inductive Action (ρ : Type*)
  | serve (now : Time) (rnd : ρ) (recovered : Bool)
  | call (k : Key) (i : Input) (t : Threshold)
  | record (now : Time)
  | crash

def start (hostgroups : String → Option Int) (rnd : ρ) : Service ρ where
  up := false
  sm := StateMachine.new rnd
  pending := []
  db := ⟨hostgroups, ∅, [], fun _ impossible => absurd impossible List.not_mem_nil⟩

def day : Duration := 24 * 60 * minute

/-- Crash recovery: an error of `CloseOrphans` is only logged. -/
def recover (now : Time) (recovered : Bool) (db : Database) : Database :=
  if recovered then (Store.closeOrphans (now.add (-day)) db).1 else db

variable (newULID : ρ → Time → String × ρ)

def step (s : Service ρ) : Action ρ → Option (Service ρ × Option AttackEvent)
  | .serve now rnd recovered =>
      if s.up then none
      else some (⟨true, StateMachine.new rnd, [], recover now recovered s.db⟩, none)
  | .call k i t =>
      if s.up then
        match s.sm.step newULID k i t with
        | none => none
        | some (sm, output) =>
            some ({ s with sm := sm, pending := s.pending ++ output.toList }, output)
      else none
  | .record now =>
      match s.up, s.pending with
      | true, ev :: rest =>
          some ({ s with pending := rest, db := Store.handle .none now ev s.db }, some ev)
      | _, _ => none
  | .crash => if s.up then some ({ s with up := false, pending := [] }, none) else none

abbrev Trace (ρ : Type*) := List (Entry (Service ρ) (Action ρ) (Option AttackEvent))

def emitted : Trace ρ → List AttackEvent
  | [] => []
  | ⟨_, .serve _ _ _, _⟩ :: _ => []
  | ⟨_, .call _ _ _, output⟩ :: back => emitted back ++ output.toList
  | _ :: back => emitted back

def recorded : Trace ρ → List AttackEvent
  | [] => []
  | ⟨_, .serve _ _ _, _⟩ :: _ => []
  | ⟨_, .record _, output⟩ :: back => recorded back ++ output.toList
  | _ :: back => recorded back

def OpenRow (db : Database) (id : String) (row : IncidentRow) : Prop :=
  db.incidents.lookup id = some row ∧ row.endedAt = none

/-- The incidents that the start of the present process found open and left open. -/
def Survivor (id : String) : Trace ρ → Prop
  | [] => False
  | ⟨before, .serve now _ recovered, _⟩ :: _ =>
      ∃ row, OpenRow (recover now recovered before.db) id row
  | _ :: back => Survivor id back

/-- At most one row of a key is open. -/
def OneOpen (db : Database) : Prop :=
  ∀ first second row other, OpenRow db first row → OpenRow db second other →
    row.key = other.key → first = second

theorem open_of_recover {now : Time} {recovered : Bool} {db : Database} {id : String}
    {row : IncidentRow} (opened : OpenRow (recover now recovered db) id row) :
    OpenRow db id row := by
  unfold recover at opened
  split at opened
  · obtain ⟨found, alive⟩ := opened
    rw [Store.closeOrphans, KeyedMap.lookup_sweep] at found
    obtain ⟨old, known, same⟩ := Option.bind_eq_some_iff.mp found
    rw [Option.some.injEq] at same
    split at same
    · rw [← same] at alive
      contradiction
    · exact ⟨same ▸ known, alive⟩
  · exact opened

theorem open_handled {ev : AttackEvent} {db next : Database} (handled : Handled ev db next)
    {id : String} {row : IncidentRow} (opened : OpenRow next id row) :
    (id = ev.incidentID ∧ ev.state = .started ∧ ev.incidentID ∉ db.incidents ∧
        row.key = ev.key) ∨ ∃ old, OpenRow db id old ∧ old.key = row.key := by
  obtain ⟨found, alive⟩ := opened
  cases handled with
  | refused same => exact .inr ⟨row, ⟨same ▸ found, alive⟩, rfl⟩
  | again _ _ incidents => exact .inr ⟨row, ⟨incidents ▸ found, alive⟩, rfl⟩
  | opened started fresh new host vector _ incidents =>
      rw [incidents, KeyedMap.lookup_insert] at found
      split at found
      · next own =>
          obtain rfl := Option.some.inj found
          exact .inl ⟨own, started, fresh, by rw [IncidentRow.key, host, vector]; rfl⟩
      · exact .inr ⟨row, ⟨found, alive⟩, rfl⟩
  | changed _ old new known host vector _ endedAt incidents =>
      rw [incidents, KeyedMap.lookup_insert] at found
      split at found
      · next own =>
          obtain rfl := Option.some.inj found
          have same : old.key = new.key := by rw [IncidentRow.key, IncidentRow.key, host, vector]
          refine .inr ⟨old, ⟨own ▸ known, ?_⟩, same⟩
          rw [endedAt] at alive
          split at alive
          · contradiction
          · exact alive
      · exact .inr ⟨row, ⟨found, alive⟩, rfl⟩

/-- The present process against the tables: its events are in order, all of them are recorded or
pending, and an open row is one it has found or the one it has open itself. -/
structure Track (trace : Trace ρ) (s : Service ρ) : Prop where
  inStep : InStep (emitted trace) s.sm.running
  queue : recorded trace ++ s.pending = emitted trace
  rows : ∀ id row, OpenRow s.db id row →
    Survivor id trace ∨ openAfter row.key (recorded trace) = some id

theorem Track.next_orderly {trace : Trace ρ} {s : Service ρ} (track : Track trace s)
    {ev : AttackEvent} {rest : List AttackEvent} (waiting : s.pending = ev :: rest) :
    openAfter ev.key (recorded trace) =
      if ev.state = .started then none else some ev.incidentID := by
  apply track.inStep.orderly (recorded trace) ev rest
  rw [← track.queue, waiting]

theorem Track.record {trace : Trace ρ} {s : Service ρ} (track : Track trace s)
    {ev : AttackEvent} {rest : List AttackEvent} (waiting : s.pending = ev :: rest) (now : Time) :
    Track (⟨s, .record now, some ev⟩ :: trace)
      { s with pending := rest, db := Store.handle .none now ev s.db } where
  inStep := track.inStep
  queue := by
    change recorded trace ++ [ev] ++ rest = emitted trace
    rw [← track.queue, waiting, List.append_assoc]
    rfl
  rows := by
    intro id row opened
    have order := track.next_orderly waiting
    change Survivor id trace ∨ openAfter row.key (recorded trace ++ [ev]) = some id
    rw [openAfter_append]
    rcases open_handled (Store.handle_cases .none now ev s.db) opened with
      ⟨own, started, -, key⟩ | ⟨old, earlier, key⟩
    · right
      rw [advance, if_pos key.symm, started, own]
    · rw [← key]
      refine (track.rows id old earlier).imp_right fun current => ?_
      by_cases own : ev.key = old.key
      · rw [← own, order] at current
        rw [← own, advance, if_pos rfl, order]
        cases state : ev.state with
        | started => simp [state] at current
        | updated => simpa [state] using current
        | ended =>
            rw [state, if_neg (by simp), Option.some.injEq] at current
            obtain ⟨found, alive⟩ := opened
            rw [Store.handle, state] at found
            have closed := Store.endIncident_closes (current ▸ found)
            rw [closed] at alive
            contradiction
      · rw [advance, if_neg own, current]

variable {newULID : ρ → Time → String × ρ}

theorem Track.step {trace : Trace ρ} {s next : Service ρ} {action : Action ρ}
    {output : Option AttackEvent} (track : s.up = true → Track trace s)
    (moved : s.step newULID action = some (next, output)) (alive : next.up = true) :
    Track (⟨s, action, output⟩ :: trace) next := by
  cases action with
  | serve now rnd recovered =>
      simp only [Service.step] at moved
      split at moved
      · contradiction
      · cases moved
        exact ⟨inStep_nil, rfl, fun id row opened => .inl ⟨row, opened⟩⟩
  | call k i t =>
      simp only [Service.step] at moved
      split at moved
      · next up =>
          split at moved
          · contradiction
          · next sm output stepped =>
              cases moved
              obtain ⟨inStep, queue, rows⟩ := track up
              obtain ⟨progress, frame⟩ := StateMachine.progress stepped
              refine ⟨inStep.step progress frame, ?_, rows⟩
              change recorded trace ++ (s.pending ++ output.toList) = emitted trace ++ output.toList
              rw [← queue, List.append_assoc]
      · contradiction
  | record now =>
      simp only [Service.step] at moved
      split at moved
      · next ev rest up waiting =>
          cases moved
          exact (track up).record waiting now
      · contradiction
  | crash =>
      simp only [Service.step] at moved
      split at moved
      · cases moved
        contradiction
      · contradiction

theorem track_run {hostgroups : String → Option Int} {rnd : ρ} {trace : Trace ρ}
    {final : Service ρ} (run : Run (step newULID) (start hostgroups rnd) trace final) :
    final.up = true → Track trace final := by
  induction run with
  | start =>
      intro impossible
      contradiction
  | step past moved ih => exact Track.step ih moved

/-- A Started event with a new identifier finds no row of its key that the start of the process
had left open. -/
def Unburdened (back : Trace ρ) (s : Service ρ) : Action ρ → Prop
  | .record _ => ∀ ev ∈ s.pending.head?, ev.state = .started → ev.incidentID ∉ s.db.incidents →
      ∀ id row, OpenRow s.db id row → row.key = ev.key → ¬ Survivor id back
  | _ => True

theorem oneOpen_record {trace : Trace ρ} {s : Service ρ} (track : Track trace s) (now : Time)
    (single : OneOpen s.db) (clear : Unburdened trace s (.record now)) {ev : AttackEvent}
    {rest : List AttackEvent} (waiting : s.pending = ev :: rest) :
    OneOpen (Store.handle .none now ev s.db) := by
  have handled := Store.handle_cases .none now ev s.db
  have order := track.next_orderly waiting
  -- an open row of the key of a new incident would be one that the process has found
  have alone : ev.state = .started → ev.incidentID ∉ s.db.incidents →
      ∀ id row, OpenRow s.db id row → row.key ≠ ev.key := by
    intro started fresh id row opened same
    rcases track.rows id row opened with survivor | current
    · exact clear ev (by simp [waiting]) started fresh id row opened same survivor
    · rw [same, order, if_pos started] at current
      contradiction
  intro first second row other opened opened' same
  rcases open_handled handled opened with
    ⟨rfl, started, fresh, key⟩ | ⟨old, earlier, key⟩
  · rcases open_handled handled opened' with ⟨rfl, -⟩ | ⟨old', earlier', key'⟩
    · rfl
    · exact absurd (key'.trans (same.symm.trans key)) (alone started fresh _ _ earlier')
  · rcases open_handled handled opened' with
      ⟨rfl, started, fresh, key'⟩ | ⟨old', earlier', key'⟩
    · exact absurd (key.trans (same.trans key')) (alone started fresh _ _ earlier)
    · exact single first second old old' earlier earlier' (key.trans (same.trans key'.symm))

theorem oneOpen_step {trace : Trace ρ} {s next : Service ρ} {action : Action ρ}
    {output : Option AttackEvent} (track : s.up = true → Track trace s)
    (single : OneOpen s.db) (clear : Unburdened trace s action)
    (moved : s.step newULID action = some (next, output)) : OneOpen next.db := by
  cases action with
  | serve now rnd recovered =>
      simp only [step] at moved
      split at moved
      · contradiction
      · cases moved
        intro first second row other opened opened' same
        exact single first second row other (open_of_recover opened) (open_of_recover opened') same
  | call k i t =>
      simp only [step] at moved
      split at moved
      · split at moved
        · contradiction
        · cases moved
          exact single
      · contradiction
  | record now =>
      simp only [step] at moved
      split at moved
      · next ev rest up waiting =>
          cases moved
          exact oneOpen_record (track up) now single clear waiting
      · contradiction
  | crash =>
      simp only [step] at moved
      split at moved
      · cases moved
        exact single
      · contradiction

theorem unburdened_of_oneOpen {back : Trace ρ} {s next : Service ρ} {action : Action ρ}
    {output : Option AttackEvent} (moved : s.step newULID action = some (next, output))
    (single : OneOpen next.db) : Unburdened back s action := by
  cases action with
  | serve | call | crash => trivial
  | record now =>
      intro ev waiting started fresh id row opened same _
      simp only [step] at moved
      split at moved
      · next first rest _ pending =>
          cases moved
          obtain rfl : first = ev := by simpa [pending] using waiting
          have host : row.hostIP = first.hostIP := congrArg Key.hostIP same
          have castable : isInet first.hostIP = true := host ▸ row.castable
          obtain ⟨new, key, alive, incidents⟩ := Store.create_opens now castable fresh
          rw [Store.handle, started] at single
          have apart : id ≠ first.incidentID := by
            rintro rfl
            exact fresh (AList.lookup_isSome.mp (by rw [opened.1]; rfl))
          apply apart
          apply single id first.incidentID row new
          · exact ⟨by rw [incidents, AList.lookup_insert_ne apart, opened.1], opened.2⟩
          · exact ⟨by rw [incidents, AList.lookup_insert], alive⟩
          · exact same.trans key.symm
      · contradiction

/-- At most one incident of a key is open in every state of a run, across any number of starts and
crashes, exactly when no incident starts for a key whose row has survived the recovery. -/
theorem one_open_iff (hostgroups : String → Option Int) (rnd : ρ) {trace : Trace ρ}
    {final : Service ρ} (run : Run (step newULID) (start hostgroups rnd) trace final) :
    (∀ older state, older <:+ trace → Run (step newULID) (start hostgroups rnd) older state →
        OneOpen state.db) ↔
      ∀ front entry back, trace = front ++ entry :: back →
        Unburdened back entry.before entry.action := by
  constructor
  · rintro single front entry back rfl
    obtain ⟨-, next, moved, after⟩ := run.cut
    exact unburdened_of_oneOpen moved (single _ next (List.suffix_append front _) after)
  · intro clear older state suffix past
    refine past.invariant (fun back s action => Unburdened back s action)
      (fun _ s => OneOpen s.db) ?_ ?_ (Run.guarded_of_suffix suffix clear)
    · intro first second row other opened
      simp [OpenRow, start] at opened
    · intro back s action next output earlier single unburdened moved
      exact oneOpen_step (track_run earlier) single unburdened moved

def settled (db : Database) : Bool := db.incidents.entries.all fun entry => entry.2.endedAt.isSome

theorem not_open_of_settled {db : Database} (closed : settled db = true) {id : String}
    {row : IncidentRow} : ¬ OpenRow db id row := by
  intro opened
  have member := (KeyedMap.mem_entries db.incidents id row).mpr opened.1
  have ended := List.all_eq_true.mp closed _ member
  rw [opened.2] at ended
  contradiction

theorem one_open_iff_sample : ∃ (trace : Trace Nat) (final : Service Nat),
    Run (step countingULID) (start (fun _ => none) 0) trace final ∧
      (final.db.incidents.lookup "0").map IncidentRow.endedAt = some (some (Time.ofUnix 86500)) ∧
      (final.db.incidents.lookup "1").map IncidentRow.endedAt = some none ∧ OneOpen final.db := by
  have executed : (Run.replay (step countingULID) [] (start (fun _ => none) 0)
      [.serve (Time.ofUnix 50) 0 true,
        .call sampleKey (sampleInput 100 true) (sampleThreshold 1 1 1 1),
        .record (Time.ofUnix 100), .crash, .serve (Time.ofUnix 172900) 1 true,
        .call sampleKey (sampleInput 172910 true) (sampleThreshold 1 1 1 1),
        .record (Time.ofUnix 172910)]).map
        (fun made => ((made.2.db.incidents.lookup "0").map IncidentRow.endedAt,
          (made.2.db.incidents.lookup "1").map IncidentRow.endedAt,
          made.1.all fun entry => (entry.before.pending.all fun ev => ev.state != .started) ||
            settled entry.before.db)) =
      some (some (some (Time.ofUnix 86500)), some none, true) := by
    decide +kernel
  obtain ⟨⟨trace, final⟩, replayed, observed⟩ := Option.map_eq_some_iff.mp executed
  simp only [Prod.mk.injEq] at observed
  obtain ⟨first, second, clear⟩ := observed
  have run := Run.of_replay .start replayed
  refine ⟨trace, final, run, first, second, ?_⟩
  refine (one_open_iff (fun _ => none) 0 run).mpr ?_ trace final List.suffix_rfl run
  rintro front ⟨s, action, output⟩ back rfl
  cases action with
  | serve | call | crash => trivial
  | record now =>
      intro ev waiting started _ id row opened
      have tested := List.all_eq_true.mp clear ⟨s, .record now, output⟩ (by simp)
      rcases Bool.or_eq_true_iff.mp tested with none | closed
      · have apart := List.all_eq_true.mp none ev (List.mem_of_mem_head? waiting)
        simp [started] at apart
      · exact absurd opened (not_open_of_settled closed)

/-- The process comes back ten seconds after a crash: the open row is younger than the cutoff, and
the new state machine, which does not know it, opens another. -/
theorem second_row_after_restart : ∃ (trace : Trace Nat) (final : Service Nat),
    Run (step countingULID) (start (fun _ => none) 0) trace final ∧ ¬ OneOpen final.db := by
  have executed : (Run.replay (step countingULID) [] (start (fun _ => none) 0)
      [.serve (Time.ofUnix 50) 0 true,
        .call sampleKey (sampleInput 100 true) (sampleThreshold 1 1 1 1),
        .record (Time.ofUnix 100), .crash, .serve (Time.ofUnix 110) 1 true,
        .call sampleKey (sampleInput 120 true) (sampleThreshold 1 1 1 1),
        .record (Time.ofUnix 120)]).map
        (fun made => ((made.2.db.incidents.lookup "0").map fun row => (row.key, row.endedAt),
          (made.2.db.incidents.lookup "1").map fun row => (row.key, row.endedAt))) =
      some (some (sampleKey, none), some (sampleKey, none)) := by
    decide +kernel
  obtain ⟨⟨trace, final⟩, replayed, observed⟩ := Option.map_eq_some_iff.mp executed
  simp only [Prod.mk.injEq] at observed
  obtain ⟨row, found, old⟩ := Option.map_eq_some_iff.mp observed.1
  obtain ⟨other, found', new⟩ := Option.map_eq_some_iff.mp observed.2
  rw [Prod.mk.injEq] at old new
  refine ⟨trace, final, Run.of_replay .start replayed, ?_⟩
  intro single
  have same := single "0" "1" row other ⟨found, old.2⟩ ⟨found', new.2⟩ (old.1.trans new.1.symm)
  contradiction

end Service

end Mitigador.Incident
