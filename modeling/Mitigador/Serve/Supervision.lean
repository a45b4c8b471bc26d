import Mitigador.Lib.Group
import Mitigador.Lib.Run

/-! The goroutines of the daemon (cmd/mitigador/serve.go, internal/ingest/listener.go): which of
them stop the others, and what `serve` returns. `Lib.Group` stands for the errgroup of
golang.org/x/sync, and is used for four of its rules: the context is canceled with its parent, or
by the first non-nil error that a function returns; a nil return cancels nothing; `Wait` returns
once every function has returned; and it returns the first of their errors. -/

namespace Mitigador.Serve

open Lib

inductive Proto
  | netflow
  | ipfix
  | sflow
  deriving DecidableEq, Repr

inductive Member
  | poller
  | writer
  | listeners
  | engine
  | bus
  | telegram
  | email
  | recorder
  | sse
  | http
  | shutdown
  | monitor
  deriving DecidableEq, Repr

/-- The errors that the members return; `canceled` is the error of the context. -/
inductive Failure
  | canceled
  | listener (proto : Proto) (text : String)
  | http (text : String)
  | shutdown (text : String)
  deriving DecidableEq, Repr

inductive Listener
  | starting
  | listening
  | ended
  deriving DecidableEq, Repr

structure Daemon where
  group : Group Member Failure
  listening : Proto → Listener
  errCh : List Failure
  stopping : Bool

/-- A signal; a listener binds its port, or not, or stops; a member panics; a member stops for the
context, or for its closed channel; `ingest.Start` has waited for its three goroutines; the server
fails, returns after its shutdown, and the shutdown itself. -/
inductive Act
  | signal
  | bind (p : Proto) (failed : Option String)
  | stop (p : Proto)
  | panic (m : Member)
  | leave (m : Member)
  | drained (m : Member)
  | joined
  | serveFails (text : String)
  | serveCloses
  | beginShutdown
  | endShutdown (failed : Option String)
  deriving DecidableEq, Repr

/-- Who recovers from a panic, and then returns no error. -/
def Member.recovers : Member → Bool
  | shutdown | monitor => false
  | poller | writer | listeners | engine | bus | telegram | email | recorder | sse | http => true

/-- What a member returns when its loop sees the context done. -/
def Member.left : Member → Option (Option Failure)
  | poller | writer | monitor => some none
  | engine | bus | telegram | email | recorder | sse => some (some .canceled)
  | listeners | http | shutdown => none

/-- The sinks whose loop ends when the bus has closed their channel. -/
def Member.closable : Member → Bool
  | telegram | email | sse => true
  | poller | writer | listeners | engine | bus | recorder | http | shutdown | monitor => false

def Member.all : List Member :=
  [.poller, .writer, .listeners, .engine, .bus, .telegram, .email, .recorder, .sse, .http,
    .shutdown, .monitor]

theorem Member.mem_all (m : Member) : m ∈ all := by cases m <;> decide

def Listener.ahead : Listener → Nat
  | starting => 2
  | listening => 1
  | ended => 0

namespace Daemon

def start : Daemon := ⟨.start, fun _ => .starting, [], false⟩

def finish (m : Member) (error : Option Failure) (d : Daemon) : Daemon :=
  { d with group := d.group.finish m error }

def bind (p : Proto) (failed : Option String) (d : Daemon) : Daemon :=
  match failed with
  | none => { d with listening := Function.update d.listening p .listening }
  | some text =>
      { d with
        listening := Function.update d.listening p .ended
        errCh := d.errCh ++ [.listener p text] }

def step (d : Daemon) : Act → Option (Daemon × Unit)
  | .signal => some ({ d with group := d.group.cancel }, ())
  | .bind p failed => if d.listening p = .starting then some (d.bind p failed, ()) else none
  | .stop p =>
      if d.group.canceled = true ∧ d.listening p = .listening then
        some ({ d with listening := Function.update d.listening p .ended }, ())
      else none
  | .panic m =>
      if d.group.Running m ∧ m.recovers = true then some (d.finish m none, ()) else none
  | .leave m =>
      match m.left with
      | none => none
      | some error =>
          if d.group.Running m ∧ d.group.canceled = true then some (d.finish m error, ()) else none
  | .drained m =>
      if d.group.Running m ∧ m.closable = true ∧ ¬ d.group.Running .bus then
        some (d.finish m none, ())
      else none
  | .joined =>
      if d.group.Running .listeners ∧ d.listening .netflow = .ended ∧ d.listening .ipfix = .ended ∧
          d.listening .sflow = .ended then
        some (d.finish .listeners d.errCh.head?, ())
      else none
  | .serveFails text =>
      if d.group.Running .http ∧ d.stopping = false then
        some (d.finish .http (some (.http text)), ())
      else none
  | .serveCloses =>
      if d.group.Running .http ∧ d.stopping = true then some (d.finish .http none, ()) else none
  | .beginShutdown =>
      if d.group.Running .shutdown ∧ d.group.canceled = true ∧ d.stopping = false then
        some ({ d with stopping := true }, ())
      else none
  | .endShutdown failed =>
      if d.group.Running .shutdown ∧ d.stopping = true then
        some (d.finish .shutdown (failed.map .shutdown), ())
      else none

def result (d : Daemon) : Option Failure := d.group.err.filter (· ≠ .canceled)

def reports (d : Daemon) : Act → Option Failure
  | .leave m => m.left.join
  | .joined => d.errCh.head?
  | .serveFails text => some (.http text)
  | .endShutdown failed => failed.map .shutdown
  | .signal | .bind .. | .stop _ | .panic _ | .drained _ | .serveCloses | .beginShutdown => none

abbrev History := List (Entry Daemon Act Unit)

variable {d next final : Daemon} {act : Act} {trace : History}

theorem step_group (moved : d.step act = some (next, ())) :
    next.group.err = d.group.err.or (d.reports act) ∧
      (next.group.canceled = true ↔
        d.group.canceled = true ∨ act = .signal ∨ (d.reports act).isSome = true) := by
  cases act with
  | signal =>
      cases moved
      simp [reports]
  | bind p failed =>
      simp only [step] at moved
      split at moved
      · cases moved
        cases failed <;> simp [bind, reports]
      · contradiction
  | leave m =>
      simp only [step] at moved
      split at moved
      · contradiction
      · next error left =>
          split at moved
          · cases moved
            simp [finish, reports, left]
          · contradiction
  | stop | panic | drained | joined | serveFails | serveCloses | beginShutdown | endShutdown =>
      simp only [step] at moved
      split at moved
      · cases moved
        simp [finish, reports]
      · contradiction

theorem err_run (run : Run step start trace final) :
    final.group.err = (Run.collect (fun e => e.before.reports e.action) trace).head? := by
  induction run with
  | start => rfl
  | @step trace state next act output past moved ih =>
      rw [Run.collect_cons, List.head?_append, ← ih, (step_group moved).1]
      congr 1
      cases state.reports act <;> rfl

def Stops (older : History) : Act → Prop
  | .signal | .serveFails _ => True
  | .joined => ∀ p, ∃ bound ∈ older, ∃ text, bound.action = .bind p (some text)
  | .bind .. | .stop _ | .panic _ | .leave _ | .drained _ | .serveCloses | .beginShutdown
  | .endShutdown _ => False

def failedBind : Act → Option Failure
  | .bind p (some text) => some (.listener p text)
  | _ => none

def failedBinds (trace : History) : List Failure :=
  Run.collect (fun entry => failedBind entry.action) trace

theorem failedBinds_other (trace : History) {d : Daemon} {act : Act}
    (other : failedBind act = none) : failedBinds (⟨d, act, ()⟩ :: trace) = failedBinds trace := by
  rw [failedBinds, Run.collect_cons, other]
  exact List.append_nil _

structure Ports (trace : History) (d : Daemon) : Prop where
  ended : d.group.canceled = false → ∀ p, d.listening p = .ended →
    ∃ bound ∈ trace, ∃ text, bound.action = .bind p (some text)
  failed : d.errCh = failedBinds trace
  stopping : d.stopping = true → d.group.canceled = true

theorem listening_bind (p q : Proto) (failed : Option String) (d : Daemon) :
    (d.bind p failed).listening q =
      if q = p then (if failed.isSome then .ended else .listening) else d.listening q := by
  by_cases same : q = p
  · subst same
    cases failed <;> simp [bind]
  · cases failed <;> simp [bind, same]

theorem Ports.same (ports : Ports trace d) (moved : d.step act = some (next, ()))
    (listening : next.listening = d.listening) (errCh : next.errCh = d.errCh)
    (stopping : next.stopping = true → d.stopping = true ∨ d.group.canceled = true)
    (other : failedBind act = none) : Ports (⟨d, act, ()⟩ :: trace) next where
  ended uncanceled p ended := by
    have before : d.group.canceled = false := by
      by_contra canceled
      have after := (step_group moved).2.mpr (.inl (Bool.not_eq_false _ ▸ canceled))
      rw [uncanceled] at after
      contradiction
    rw [listening] at ended
    obtain ⟨bound, member, seen⟩ := ports.ended before p ended
    exact ⟨bound, List.mem_cons_of_mem _ member, seen⟩
  failed := by
    rw [errCh, ports.failed, failedBinds_other trace other]
  stopping now := by
    rcases stopping now with already | canceled
    · exact (step_group moved).2.mpr (.inl (ports.stopping already))
    · exact (step_group moved).2.mpr (.inl canceled)

theorem Ports.bind (ports : Ports trace d) (p : Proto) (failed : Option String) :
    Ports (⟨d, .bind p failed, ()⟩ :: trace) (d.bind p failed) where
  ended uncanceled q ended := by
    have group : (d.bind p failed).group = d.group := by cases failed <;> rfl
    rw [group] at uncanceled
    rw [listening_bind] at ended
    split at ended
    · next same =>
        subst same
        cases failed with
        | none => contradiction
        | some text => exact ⟨_, List.mem_cons_self, text, rfl⟩
    · obtain ⟨bound, member, seen⟩ := ports.ended uncanceled q ended
      exact ⟨bound, List.mem_cons_of_mem _ member, seen⟩
  failed := by
    cases failed with
    | none =>
        rw [failedBinds_other trace rfl]
        exact ports.failed
    | some text =>
        rw [failedBinds, Run.collect_cons, Daemon.bind]
        exact congrArg (· ++ [Failure.listener p text]) ports.failed
  stopping now := by
    cases failed <;> exact ports.stopping now

theorem ports_step (ports : Ports trace d) (moved : d.step act = some (next, ())) :
    Ports (⟨d, act, ()⟩ :: trace) next := by
  have copy := moved
  cases act with
  | signal =>
      cases moved
      exact ports.same copy rfl rfl .inl rfl
  | bind p failed =>
      simp only [step] at moved
      split at moved
      · cases moved
        exact ports.bind p failed
      · contradiction
  | stop p =>
      simp only [step] at moved
      split at moved
      · next asked =>
          cases moved
          refine ⟨?_, ?_, fun _ => asked.1⟩
          · intro uncanceled
            exact absurd (asked.1.symm.trans uncanceled) (by decide)
          · rw [failedBinds_other trace rfl]
            exact ports.failed
      · contradiction
  | leave m =>
      simp only [step] at moved
      split at moved
      · contradiction
      · split at moved
        · cases moved
          exact ports.same copy rfl rfl .inl rfl
        · contradiction
  | beginShutdown =>
      simp only [step] at moved
      split at moved
      · next asked =>
          cases moved
          exact ports.same copy rfl rfl (fun _ => .inr asked.2.1) rfl
      · contradiction
  | panic | drained | joined | serveFails | serveCloses | endShutdown =>
      simp only [step] at moved
      split at moved
      · cases moved
        exact ports.same copy rfl rfl .inl rfl
      · contradiction

theorem ports_run (run : Run step start trace final) : Ports trace final := by
  induction run with
  | start =>
      exact ⟨fun _ p impossible => by contradiction, rfl, fun impossible => by contradiction⟩
  | step past moved ih => exact ports_step ih moved

theorem stops_of_cancel (ports : Ports trace d) (before : ¬ d.group.canceled = true)
    (moved : d.step act = some (next, ())) (after : next.group.canceled = true) :
    Stops trace act := by
  rcases (step_group moved).2.mp after with already | rfl | reported
  · exact absurd already before
  · trivial
  · have uncanceled : d.group.canceled = false := Bool.eq_false_iff.mpr before
    cases act with
    | serveFails => trivial
    | joined =>
        simp only [step] at moved
        split at moved
        · next asked =>
            intro p
            cases p with
            | netflow => exact ports.ended uncanceled .netflow asked.2.1
            | ipfix => exact ports.ended uncanceled .ipfix asked.2.2.1
            | sflow => exact ports.ended uncanceled .sflow asked.2.2.2
        · contradiction
    | leave m =>
        simp only [step] at moved
        split at moved
        · contradiction
        · split at moved
          · next asked => exact absurd asked.2 before
          · contradiction
    | endShutdown failed =>
        simp only [step] at moved
        split at moved
        · next asked => exact absurd (ports.stopping asked.2) before
        · contradiction
    | signal | bind | stop | panic | drained | serveCloses | beginShutdown => contradiction

theorem canceled_of_stops (ports : Ports trace d) (moved : d.step act = some (next, ()))
    (stops : Stops trace act) : next.group.canceled = true := by
  apply (step_group moved).2.mpr
  cases act with
  | signal => exact .inr (.inl rfl)
  | serveFails => exact .inr (.inr rfl)
  | joined =>
      obtain ⟨bound, member, text, seen⟩ := stops .netflow
      have told : Failure.listener .netflow text ∈ failedBinds trace :=
        Run.mem_collect.mpr ⟨bound, member, by rw [seen, failedBind]⟩
      rw [← ports.failed] at told
      exact .inr (.inr (List.isSome_head?.mpr (List.ne_nil_of_mem told)))
  | bind | stop | panic | leave | drained | serveCloses | beginShutdown | endShutdown =>
      contradiction

theorem canceled_step (moved : d.step act = some (next, ())) (canceled : d.group.canceled = true) :
    next.group.canceled = true :=
  (step_group moved).2.mpr (.inl canceled)

/-- The daemon stops for a signal, for its HTTP server, or because no port could be bound. No
panic stops it, and no port that fails while another one is bound. -/
theorem canceled_iff (run : Run step start trace final) :
    final.group.canceled = true ↔
      ∃ newer cause older, trace = newer ++ cause :: older ∧ Stops older cause.action := by
  constructor
  · intro canceled
    rcases run.first_time (P := fun d => d.group.canceled = true) Bool.false_ne_true with
      ⟨never, -⟩ | ⟨newer, cause, older, _, rfl, past, -, before, moved, after⟩
    · exact absurd canceled never
    · exact ⟨newer, cause, older, rfl, stops_of_cancel (ports_run past) before moved after⟩
  · rintro ⟨newer, cause, older, rfl, stops⟩
    induction newer generalizing final with
    | nil =>
        cases run with
        | step past moved => exact canceled_of_stops (ports_run past) moved stops
    | cons _ _ ih =>
        cases run with
        | step past moved => exact canceled_step moved (ih past)

def sampleStart : List Act :=
  [.bind .netflow (some "in use"), .bind .ipfix none, .bind .sflow none, .panic .bus,
    .drained .telegram, .drained .email, .drained .sse]

def sampleEnd : List Act :=
  [.stop .ipfix, .stop .sflow, .beginShutdown, .serveCloses, .endShutdown none, .leave .poller,
    .leave .writer, .leave .monitor]

theorem canceled_iff_sample : ∃ (trace : History) (final : Daemon),
    Run step start trace final ∧ trace.map Entry.action = sampleStart.reverse ∧
      final.group.canceled = false ∧
      ¬ ∃ newer cause older, trace = newer ++ cause :: older ∧ Stops older cause.action := by
  have executed : (Run.replay step [] start sampleStart).map
      (fun made : History × Daemon => made.2.group.canceled) = some false := by
    decide
  obtain ⟨⟨trace, final⟩, replayed, canceled⟩ := Option.map_eq_some_iff.mp executed
  have run := Run.of_replay .start replayed
  have acts := Run.actions_of_replay replayed
  rw [List.map_nil, List.append_nil] at acts
  refine ⟨trace, final, run, acts, canceled, ?_⟩
  intro stopped
  exact absurd ((canceled_iff run).mpr stopped) (by rw [canceled]; decide)

/-- `serve` fails with the first error that any goroutine reports, if it is not the error of the
context. -/
theorem result_eq_some_iff (run : Run step start trace final) (f : Failure) :
    final.result = some f ↔ f ≠ .canceled ∧
      ∃ newer entry older, trace = newer ++ entry :: older ∧
        entry.before.reports entry.action = some f ∧
        ∀ other ∈ older, other.before.reports other.action = none := by
  rw [result, err_run run, Option.filter_eq_some_iff, Run.head_collect_eq_some_iff,
    decide_eq_true_eq]
  exact and_comm

theorem result_eq_some_iff_sample : ∃ (trace : History) (final : Daemon),
    Run step start trace final ∧ final.result = some (.listener .netflow "in use") ∧
      Failure.listener .netflow "in use" ≠ .canceled ∧
      ∃ newer entry older, trace = newer ++ entry :: older ∧
        entry.before.reports entry.action = some (.listener .netflow "in use") ∧
        ∀ other ∈ older, other.before.reports other.action = none := by
  have executed : (Run.replay step [] start
      (sampleStart ++ [.signal] ++ sampleEnd ++ [.joined, .leave .engine, .leave .recorder])).map
      (fun made : History × Daemon => made.2.result) =
      some (some (.listener .netflow "in use")) := by
    decide
  obtain ⟨⟨trace, final⟩, replayed, fails⟩ := Option.map_eq_some_iff.mp executed
  have run := Run.of_replay .start replayed
  exact ⟨trace, final, run, fails, (result_eq_some_iff run _).mp fails⟩

theorem reports_listener_iff {p : Proto} {text : String} :
    d.reports act = some (.listener p text) ↔
      act = .joined ∧ d.errCh.head? = some (.listener p text) := by
  cases act with
  | joined => simp [reports]
  | leave m => cases m <;> simp [reports, Member.left]
  | endShutdown failed => cases failed <;> simp [reports]
  | signal | bind | stop | panic | drained | serveFails | serveCloses | beginShutdown =>
      simp [reports]

/-- A port that cannot be bound is what `serve` fails with only if no other port failed before it,
and only if all three listeners have returned before the first of the six loops that return the
error of the context, and before the server and its shutdown fail. -/
theorem failed_bind_told_iff (run : Run step start trace final) (p : Proto) (text : String) :
    final.result = some (.listener p text) ↔
      ∃ newer joined older, trace = newer ++ joined :: older ∧ joined.action = .joined ∧
        (failedBinds older).head? = some (.listener p text) ∧
        ∀ other ∈ older, other.before.reports other.action = none := by
  have kept : final.result = some (.listener p text) ↔
      (Run.collect (fun e => e.before.reports e.action) trace).head? =
        some (.listener p text) := by
    rw [result, err_run run, Option.filter_eq_some_iff]
    exact and_iff_left (decide_eq_true (by rintro ⟨⟩))
  rw [kept, Run.head_collect_eq_some_iff]
  constructor
  · rintro ⟨newer, joined, older, rfl, told, silent⟩
    obtain ⟨returned, first⟩ := reports_listener_iff.mp told
    rw [(ports_run run.cut.1).failed] at first
    exact ⟨newer, joined, older, rfl, returned, first, silent⟩
  · rintro ⟨newer, joined, older, rfl, returned, first, silent⟩
    rw [← (ports_run run.cut.1).failed] at first
    exact ⟨newer, joined, older, rfl, reports_listener_iff.mpr ⟨returned, first⟩, silent⟩

def ahead (d : Daemon) : Nat :=
  d.group.running Member.all + (d.listening .netflow).ahead + (d.listening .ipfix).ahead +
    (d.listening .sflow).ahead + (if d.stopping then 0 else 1)

theorem ahead_finish {m : Member} (runs : d.group.Running m) (error : Option Failure) :
    (d.finish m error).ahead < d.ahead := by
  have fewer := Group.running_finish_lt (Member.mem_all m) runs error
  exact Nat.add_lt_add_right (Nat.add_lt_add_right (Nat.add_lt_add_right
    (Nat.add_lt_add_right fewer _) _) _) _

theorem ahead_listening (d : Daemon) (p : Proto) {after : Listener}
    (less : after.ahead < (d.listening p).ahead) (errors : List Failure) :
    ahead { d with listening := Function.update d.listening p after, errCh := errors } <
      d.ahead := by
  cases p <;> simp [ahead] <;> omega

theorem ahead_step (moved : d.step act = some (next, ())) (other : act ≠ .signal) :
    next.ahead < d.ahead := by
  cases act with
  | signal => exact absurd rfl other
  | bind p failed =>
      simp only [step] at moved
      split at moved
      · next starting =>
          cases moved
          cases failed with
          | none => exact ahead_listening d p (by rw [starting]; decide) d.errCh
          | some text => exact ahead_listening d p (by rw [starting]; decide) _
      · contradiction
  | stop p =>
      simp only [step] at moved
      split at moved
      · next asked =>
          cases moved
          exact ahead_listening d p (by rw [asked.2]; decide) d.errCh
      · contradiction
  | leave m =>
      simp only [step] at moved
      split at moved
      · contradiction
      · split at moved
        · next asked =>
            cases moved
            exact ahead_finish asked.1 _
        · contradiction
  | beginShutdown =>
      simp only [step] at moved
      split at moved
      · next asked =>
          cases moved
          simp [ahead, asked.2.2]
      · contradiction
  | panic | drained | joined | serveFails | serveCloses | endShutdown =>
      simp only [step] at moved
      split at moved
      · next asked =>
          cases moved
          exact ahead_finish asked.1 _
      · contradiction

theorem ahead_run (run : Run step start trace final) :
    trace.countP (fun entry => entry.action ≠ .signal) + final.ahead ≤ start.ahead := by
  induction run with
  | start => exact Nat.le_of_eq (Nat.zero_add _)
  | @step trace state next act output past moved ih =>
      by_cases signal : act = .signal
      · subst signal
        cases moved
        rw [List.countP_cons_of_neg (by simp)]
        exact ih
      · have less := ahead_step moved signal
        rw [List.countP_cons_of_pos (by simpa using signal)]
        omega

theorem stopping_finish {m : Member} (other : m ≠ .shutdown) (error : Option Failure)
    (before : ¬ d.group.Running .shutdown → d.stopping = true)
    (ended : ¬ (d.finish m error).group.Running .shutdown) :
    (d.finish m error).stopping = true :=
  before fun runs => ended ((Group.running_finish ..).mpr ⟨other.symm, runs⟩)

theorem stopping_step (before : ¬ d.group.Running .shutdown → d.stopping = true)
    (moved : d.step act = some (next, ())) (ended : ¬ next.group.Running .shutdown) :
    next.stopping = true := by
  cases act with
  | signal =>
      cases moved
      exact before ended
  | bind p failed =>
      simp only [step] at moved
      split at moved
      · cases moved
        cases failed <;> exact before ended
      · contradiction
  | stop p =>
      simp only [step] at moved
      split at moved
      · cases moved
        exact before ended
      · contradiction
  | panic m =>
      simp only [step] at moved
      split at moved
      · next asked =>
          cases moved
          exact stopping_finish (by rintro rfl; exact absurd asked.2 (by decide)) none before ended
      · contradiction
  | leave m =>
      simp only [step] at moved
      split at moved
      · contradiction
      · next left =>
          split at moved
          · cases moved
            exact stopping_finish (by rintro rfl; contradiction) _ before ended
          · contradiction
  | drained m =>
      simp only [step] at moved
      split at moved
      · next asked =>
          cases moved
          exact stopping_finish (by rintro rfl; exact absurd asked.2.1 (by decide)) none before ended
      · contradiction
  | beginShutdown =>
      simp only [step] at moved
      split at moved
      · cases moved
        rfl
      · contradiction
  | endShutdown failed =>
      simp only [step] at moved
      split at moved
      · next asked =>
          cases moved
          exact asked.2
      · contradiction
  | joined | serveFails | serveCloses =>
      simp only [step] at moved
      split at moved
      · cases moved
        exact stopping_finish (by decide) _ before ended
      · contradiction

theorem stopping_run (run : Run step start trace final)
    (ended : ¬ final.group.Running .shutdown) : final.stopping = true := by
  induction run with
  | start => exact absurd rfl ended
  | step past moved ih => exact stopping_step ih moved ended

/-- The daemon takes no step, unless it gets a signal. -/
def Stuck (d : Daemon) : Prop := ∀ act, act ≠ .signal → d.step act = none

theorem stuck_ended (stuck : d.Stuck) (canceled : d.group.canceled = true) (p : Proto) :
    d.listening p = .ended := by
  cases phase : d.listening p with
  | starting =>
      have bound := stuck (.bind p none) nofun
      rw [step, if_pos phase] at bound
      contradiction
  | listening =>
      have stopped := stuck (.stop p) nofun
      rw [step, if_pos ⟨canceled, phase⟩] at stopped
      contradiction
  | ended => rfl

theorem stuck_left (stuck : d.Stuck) (canceled : d.group.canceled = true) {m : Member}
    {error : Option Failure} (left : m.left = some error) : ¬ d.group.Running m := by
  intro runs
  have gone := stuck (.leave m) nofun
  simp only [step, left] at gone
  rw [if_pos ⟨runs, canceled⟩] at gone
  contradiction

theorem stuck_returned (stuck : d.Stuck) (canceled : d.group.canceled = true)
    (stopping : ¬ d.group.Running .shutdown → d.stopping = true) (m : Member) :
    ¬ d.group.Running m := by
  have began : d.stopping = true := by
    by_contra idle
    have still : d.stopping = false := Bool.eq_false_iff.mpr idle
    have runs : d.group.Running .shutdown := by
      by_contra gone
      exact idle (stopping gone)
    have begun := stuck .beginShutdown nofun
    rw [step, if_pos ⟨runs, canceled, still⟩] at begun
    contradiction
  intro runs
  cases m with
  | listeners =>
      have joined := stuck .joined nofun
      rw [step, if_pos ⟨runs, stuck_ended stuck canceled _, stuck_ended stuck canceled _,
        stuck_ended stuck canceled _⟩] at joined
      contradiction
  | http =>
      have closed := stuck .serveCloses nofun
      rw [step, if_pos ⟨runs, began⟩] at closed
      contradiction
  | shutdown =>
      have ended := stuck (.endShutdown none) nofun
      rw [step, if_pos ⟨runs, began⟩] at ended
      contradiction
  | poller | writer | monitor | engine | bus | telegram | email | recorder | sse =>
      exact stuck_left stuck canceled rfl runs

/-- Once the context is canceled the daemon comes to its end whatever the order of the returns:
no run has more than nineteen steps besides signals, and one that can go no further has seen every
goroutine return. -/
theorem shutdown_completes (run : Run step start trace final) :
    trace.countP (fun entry => entry.action ≠ .signal) ≤ 19 ∧
      (final.group.canceled = true → final.Stuck → ∀ m, ¬ final.group.Running m) := by
  constructor
  · have spent := ahead_run run
    have all : start.ahead = 19 := by decide
    omega
  · intro canceled stuck
    exact stuck_returned stuck canceled (stopping_run run)

theorem shutdown_completes_sample : ∃ (trace : History) (final : Daemon),
    Run step start trace final ∧ final.group.canceled = true ∧
      trace.countP (fun entry => entry.action ≠ .signal) ≤ 19 ∧
      (final.Stuck → ∀ m, ¬ final.group.Running m) := by
  have executed : (Run.replay step [] start (sampleStart ++ [.signal])).map
      (fun made : History × Daemon => made.2.group.canceled) = some true := by
    decide
  obtain ⟨⟨trace, final⟩, replayed, canceled⟩ := Option.map_eq_some_iff.mp executed
  have run := Run.of_replay .start replayed
  exact ⟨trace, final, run, canceled, (shutdown_completes run).1,
    (shutdown_completes run).2 canceled⟩

end Daemon

end Mitigador.Serve
