import Mitigador.Detect.EngineRun

/-! What an engine does to one host, without the others. The abstract model knows a single host
and gives no identifiers; every engine refines it at each of its hosts. -/

namespace Mitigador.Detect

open Go Mitigador.Flow Lib Aggregate

def Incident.erase (inc : Incident) : Incident := { inc with id := "" }

def MachineEntry.erase (e : MachineEntry) : MachineEntry :=
  { e with inc := e.inc.map Incident.erase }

def AttackEvent.erase (ev : AttackEvent) : AttackEvent := { ev with incidentID := "" }

def blankULID (_ : Unit) (_ : Time) : String × Unit := ("", ())

section Steps

variable {ρ : Type*} {newULID : ρ → Time → String × ρ} {rnd rest : ρ} {k : Key} {i : Input}
  {t : Threshold} {e next : MachineEntry} {output : Option AttackEvent}

/-- The transitions are exactly the steps: `transition_of_step` is the other direction. -/
theorem step_of_transition (moved : Transition newULID rnd k i t e next rest output) :
    e.step newULID rnd k i t = some (next, rest, output) := by
  unfold MachineEntry.step
  cases moved with
  | wait idle early =>
      rw [idle]
      by_cases violating : i.violating = true
      · simp [violating, early violating]
      · simp [violating]
  | start idle violating long => simp [idle, violating, not_lt.mpr long]
  | ease active present quiet short => simp [active, present, quiet, Incident.observe, short]
  | finish active present quiet long =>
      simp [active, present, quiet, Incident.observe, long, Incident.event]
  | @hold inc active present violating small =>
      have kept : ¬ ((!inc.updateEmitted &&
          (decide (i.now.sub inc.startedAt ≥ updateAfterDuration) ||
            (inc.observe i).peakDoubled)) = true) := by
        rcases small with out | ⟨short, low⟩
        · simp [out]
        · simp [low, short]
      rw [active, present]
      simp only [violating]
      exact if_neg kept
  | @update inc active present violating first large =>
      have due : (!inc.updateEmitted &&
          (decide (i.now.sub inc.startedAt ≥ updateAfterDuration) ||
            (inc.observe i).peakDoubled)) = true := by
        rcases large with long | high
        · simp [first, long]
        · simp [first, high]
      rw [active, present]
      simp only [violating]
      exact if_pos due
  | cool cooldown early => simp [cooldown, early]
  | thaw cooldown late => simp [cooldown, late]

theorem transition_erase (moved : Transition newULID rnd k i t e next rest output) :
    Transition blankULID () k i t e.erase next.erase () (output.map AttackEvent.erase) := by
  have erased : ∀ {inc : Incident}, e.inc = some inc → e.erase.inc = some inc.erase := by
    intro inc present
    simp [MachineEntry.erase, present]
  cases moved with
  | wait idle early => exact .wait idle early
  | start idle violating long =>
      exact @Transition.start _ blankULID () k i t e.erase idle violating long
  | @ease inc active present quiet short =>
      exact @Transition.ease _ blankULID () k i t e.erase inc.erase active (erased present) quiet
        short
  | @finish inc active present quiet long =>
      exact @Transition.finish _ blankULID () k i t e.erase inc.erase active (erased present) quiet
        long
  | @hold inc active present violating small =>
      exact @Transition.hold _ blankULID () k i t e.erase inc.erase active (erased present)
        violating small
  | @update inc active present violating first large =>
      exact @Transition.update _ blankULID () k i t e.erase inc.erase active (erased present)
        violating first large
  | cool cooldown early => exact .cool cooldown early
  | thaw cooldown late => exact .thaw cooldown late

end Steps

inductive Call
  | update (sec : Int) (r : Record)
  | tick (now : Time)
  deriving DecidableEq

def callOf (h : Addr) : Action → Option Call
  | .update ip sec r => if ip = h then some (.update sec r) else none
  | .tick now _ => some (.tick now)
  | .receive => none

/-- One host by itself: a store without other hosts, and a machine without identifiers. -/
structure Solo where
  store : Store
  streak : Vector → Int
  entry : Vector → MachineEntry

namespace Solo

def start : Solo := ⟨Store.new 1 1, fun _ => 0, fun _ => newEntry⟩

def judged (h : Addr) (now : Time) (j : Judgement) (s : Solo) : Solo × List AttackEvent :=
  let streak := if j.violating then s.streak j.vector + 1 else 0
  match (s.entry j.vector).step blankULID () ⟨h, j.vector⟩ (j.input now streak) j.threshold with
  | none => (s, [])
  | some (entry, _, output) =>
      ({ s with
        streak := Function.update s.streak j.vector streak
        entry := Function.update s.entry j.vector entry }, output.toList)

def act (catalog : Catalog) (h : Addr) (s : Solo) : Call → Solo × List AttackEvent
  | .update sec r => ({ s with store := s.store.update h sec r }, [])
  | .tick now =>
      let s := { s with store := s.store.tick now.unix }
      match judge s.store catalog h now.unix with
      | some (some j) => s.judged h now j
      | _ => (s, [])

def after (catalog : Catalog) (h : Addr) : List Call → Solo × List AttackEvent
  | [] => (start, [])
  | call :: past =>
      let (s, events) := after catalog h past
      let (next, produced) := s.act catalog h call
      (next, events ++ produced)

end Solo

def hostEvents (h : Addr) (events : List AttackEvent) : List AttackEvent :=
  events.filter fun ev => ev.hostIP = h

def eventsFor {ρ : Type*} (h : Addr) : Trace ρ → List AttackEvent
  | [] => []
  | entry :: back => eventsFor h back ++ hostEvents h entry.output

def callsFor {ρ : Type*} (h : Addr) (trace : Trace ρ) : List Call :=
  trace.filterMap fun entry => callOf h entry.action

/-- A judgement depends on the ring of its host alone, and not on the shards. -/
theorem judge_congr {store other : Store} {h : Addr} (same : store.host h = other.host h)
    (catalog : Catalog) (sec : Int) : judge store catalog h sec = judge other catalog h sec := by
  simp only [judge, Store.snapshot, same]

theorem hostEvents_eq {h : Addr} {v : Vector} {events : List AttackEvent}
    (others : ∀ w, w ≠ v → keyEvents ⟨h, w⟩ events = []) :
    hostEvents h events = keyEvents ⟨h, v⟩ events := by
  apply List.filter_congr
  intro ev member
  by_cases own : ev.vector = v
  · simp [own]
  · have silent := List.filter_eq_nil_iff.mp (others ev.vector own) ev member
    simp only [and_true, decide_eq_true_eq] at silent
    simp [silent]

variable {ρ : Type*} {newULID : ρ → Time → String × ρ}

structure Alike (h : Addr) (e : Engine ρ) (s : Solo) : Prop where
  ring : e.store.host h = s.store.host h
  streak : ∀ v, e.streak ⟨h, v⟩ = s.streak v
  entry : ∀ v, (e.sm.entry ⟨h, v⟩).erase = s.entry v

namespace Alike

variable {h : Addr} {e next : Engine ρ} {s : Solo}

theorem frame (alike : Alike h e s) {store : Store}
    (ring : next.store.host h = store.host h)
    (streak : ∀ v, next.streak ⟨h, v⟩ = e.streak ⟨h, v⟩)
    (entry : ∀ v, next.sm.entry ⟨h, v⟩ = e.sm.entry ⟨h, v⟩) :
    Alike h next { s with store := store } where
  ring := ring
  streak v := (streak v).trans (alike.streak v)
  entry v := by
    rw [entry v]
    exact alike.entry v

theorem update (alike : Alike h e s) (ip : Addr) (sec : Int) (r : Record) :
    Alike h { e with store := e.store.update ip sec r }
      (if ip = h then { s with store := s.store.update h sec r } else s) := by
  by_cases own : ip = h
  · subst own
    rw [if_pos rfl]
    refine alike.frame ?_ (fun _ => rfl) fun _ => rfl
    rw [Store.host_update, Store.host_update, if_pos rfl, if_pos rfl, alike.ring]
  · rw [if_neg own]
    refine alike.frame ?_ (fun _ => rfl) fun _ => rfl
    rw [Store.host_update, if_neg (Ne.symm own)]
    exact alike.ring

variable (newULID) in
theorem judged (alike : Alike h e s) {now : Time} {j : Judgement} {store : Store}
    {events : List AttackEvent} (ring : next.store.host h = store.host h)
    (ticked : ∀ v, Engine.KeyTick newULID now ⟨h, v⟩ e next events
      (if j.vector = v then some j else none)) :
    Alike h next (Solo.judged h now j { s with store := store }).1 ∧
      (hostEvents h events).map AttackEvent.erase =
        (Solo.judged h now j { s with store := store }).2 := by
  have others : ∀ v, v ≠ j.vector → Engine.Frame ⟨h, v⟩ e next events := by
    intro v apart
    have skipped := ticked v
    rw [if_neg (Ne.symm apart)] at skipped
    cases skipped with
    | skip frame => exact frame
  have own := ticked j.vector
  rw [if_pos rfl] at own
  cases own with
  | judged _ rnd rest output counted moved produced =>
      rw [alike.streak] at counted
      have stepped := step_of_transition (transition_erase moved)
      rw [alike.entry, counted] at stepped
      rw [hostEvents_eq fun v apart => (others v apart).silent, produced]
      unfold Solo.judged
      simp only [stepped]
      refine ⟨⟨ring, fun v => ?_, fun v => ?_⟩, ?_⟩
      · by_cases same : v = j.vector
        · simp [same, counted]
        · simp [same, (others v same).streak, alike.streak]
      · by_cases same : v = j.vector
        · simp [same]
        · simp [same, (others v same).entry, alike.entry]
      · cases output with
        | none => rfl
        | some ev => rfl

theorem tick (alike : Alike h e s) {now : Time} {hosts : List HostInfo}
    {events : List AttackEvent}
    (acted : e.act newULID (.tick now hosts) = some (next, events)) :
    Alike h next (s.act e.catalog h (.tick now)).1 ∧
      (hostEvents h events).map AttackEvent.erase = (s.act e.catalog h (.tick now)).2 := by
  have ticked := Engine.act_tick acted
  have before : (e.store.tick now.unix).host h = (s.store.tick now.unix).host h := by
    rw [Store.host_tick, Store.host_tick, alike.ring]
  have ring : next.store.host h = (s.store.tick now.unix).host h := by
    rw [Engine.act_store acted]
    exact before
  have same := judge_congr before e.catalog now.unix
  simp only [Solo.act]
  split
  · next j decided =>
      refine alike.judged newULID ring fun v => ?_
      have one := ticked ⟨h, v⟩
      rw [verdict, same, decided] at one
      exact one
  · next undecided =>
      have frames : ∀ v, Engine.Frame ⟨h, v⟩ e next events := by
        intro v
        have skipped := ticked ⟨h, v⟩
        have silent : verdict (e.store.tick now.unix) e.catalog ⟨h, v⟩ now.unix = none := by
          rw [verdict, same]
          split
          · next j decided => exact absurd decided (undecided j)
          · rfl
        rw [silent] at skipped
        cases skipped with
        | skip frame => exact frame
      refine ⟨alike.frame ring (fun v => (frames v).streak) fun v => (frames v).entry, ?_⟩
      rw [hostEvents_eq fun v _ => (frames v).silent, (frames .udpFlood).silent]
      rfl

end Alike

/-- Every run refines, at each host, the host by itself. -/
theorem run_refines_solo {catalog : Catalog} {e final : Engine ρ} {trace : Trace ρ} (h : Addr)
    (fresh : Alike h e Solo.start) (loaded : e.catalog = catalog)
    (run : Run (Engine.act newULID) e trace final) :
    Alike h final (Solo.after catalog h (callsFor h trace)).1 ∧
      (eventsFor h trace).map AttackEvent.erase =
        (Solo.after catalog h (callsFor h trace)).2 := by
  induction run with
  | start => exact ⟨fresh, rfl⟩
  | @step trace state next action output past moved ih =>
      obtain ⟨alike, events⟩ := ih
      have catalog := (Engine.catalog_run past).trans loaded
      rw [eventsFor, List.map_append, events]
      cases action with
      | update ip sec r =>
          cases moved
          have known := alike.update ip sec r
          by_cases own : ip = h
          · rw [if_pos own] at known
            have seen : callsFor h (⟨state, .update ip sec r, []⟩ :: trace) =
                .update sec r :: callsFor h trace := by
              simp [callsFor, callOf, own]
            rw [seen]
            exact ⟨known, rfl⟩
          · rw [if_neg own] at known
            have unseen : callsFor h (⟨state, .update ip sec r, []⟩ :: trace) =
                callsFor h trace := by
              simp [callsFor, callOf, own]
            rw [unseen]
            exact ⟨known, List.append_nil _⟩
      | tick now hosts =>
          obtain ⟨after, produced⟩ := alike.tick moved
          rw [catalog] at after produced
          rw [produced]
          exact ⟨after, rfl⟩
      | receive =>
          simp only [Engine.act] at moved
          split at moved
          · contradiction
          · cases moved
            exact ⟨⟨alike.ring, alike.streak, alike.entry⟩, List.append_nil _⟩

theorem alike_new (h : Addr) (defaultNumShards numShards : Int) (catalog : Catalog)
    (out : Chan AttackEvent) (rnd : ρ) :
    Alike h (Engine.new (Store.new defaultNumShards numShards) catalog out rnd) Solo.start where
  ring := by simp [Engine.new, Solo.start]
  streak _ := rfl
  entry _ := rfl

/-- Two runs with the same ticks and the same updates of a host, over any numbers of shards and
whatever the updates of the other hosts, produce the same events for the host but for their
identifiers; and over the rows that the thresholds table admits no tick of either run panics. -/
theorem host_isolation {σ : Type*} {other : σ → Time → String × σ} {catalog : Catalog} (h : Addr)
    {defaultNumShards defaultOther numShards numOther : Int} {capacity capacityOther : Nat}
    {rnd : ρ} {rndOther : σ} {trace : Trace ρ} {traceOther : Trace σ} {final : Engine ρ}
    {finalOther : Engine σ}
    (run : Run (Engine.act newULID) (Engine.new (Store.new defaultNumShards numShards) catalog
      (Chan.make capacity) rnd) trace final)
    (runOther : Run (Engine.act other) (Engine.new (Store.new defaultOther numOther) catalog
      (Chan.make capacityOther) rndOther) traceOther finalOther)
    (same : callsFor h trace = callsFor h traceOther) :
    (eventsFor h trace).map AttackEvent.erase = (eventsFor h traceOther).map AttackEvent.erase ∧
      (catalog.Checked → ∀ now,
        (∀ hosts, hosts.Perm ((final.store.tick now.unix).activeHosts now.unix) →
          ∃ next events, final.act newULID (.tick now hosts) = some (next, events)) ∧
        ∀ hosts, hosts.Perm ((finalOther.store.tick now.unix).activeHosts now.unix) →
          ∃ next events, finalOther.act other (.tick now hosts) = some (next, events)) := by
  refine ⟨?_, fun checked now => ⟨fun hosts order => ?_, fun hosts order => ?_⟩⟩
  · obtain ⟨-, events⟩ := run_refines_solo h (alike_new h ..) rfl run
    obtain ⟨-, eventsOther⟩ := run_refines_solo h (alike_new h ..) rfl runOther
    change _ = (Solo.after catalog h (callsFor h trace)).2 at events
    change _ = (Solo.after catalog h (callsFor h traceOther)).2 at eventsOther
    rw [events, eventsOther, same]
  · exact Engine.tick_run_total newULID _ checked capacity rnd run now order
  · exact Engine.tick_run_total other _ checked capacityOther rndOther runOther now order

theorem host_isolation_sample :
    ∃ (trace crowded : Trace Nat) (final last : Engine Nat),
      Run (Engine.act countingULID) (sampleEngine (sampleThreshold 1 1 1 1)) trace final ∧
        Run (Engine.act countingULID) (Engine.new (Store.new 16 2)
          ⟨[sampleThreshold 1 1 1 1], List.pairwise_singleton _ _⟩ (Chan.make 256) 7) crowded last ∧
        (eventsFor sampleHost trace).map AttackEvent.state = [.started] ∧
        (eventsFor sampleHost trace).map AttackEvent.erase =
          (eventsFor sampleHost crowded).map AttackEvent.erase := by
  have alone : (Run.replay (Engine.act countingULID) [] (sampleEngine (sampleThreshold 1 1 1 1))
      [sampleUpdate 100 7 700, sampleTick 100 100]).map (fun made =>
        (callsFor sampleHost made.1, (eventsFor sampleHost made.1).map AttackEvent.state)) =
      some ([.tick (Time.ofUnix 100), .update 100 (sampleRecord protoUDP 7 700)],
        [.started]) := by
    decide +kernel
  have beside : (Run.replay (Engine.act countingULID) [] (Engine.new (Store.new 16 2)
      ⟨[sampleThreshold 1 1 1 1], List.pairwise_singleton _ _⟩ (Chan.make 256) 7)
      [.update (.v4 0xc0000202) 100 (sampleRecord protoUDP 9 900), sampleUpdate 100 7 700,
        .tick (Time.ofUnix 100) [⟨.v4 0xc0000202, 100⟩, ⟨sampleHost, 100⟩]]).map (fun made =>
        callsFor sampleHost made.1) =
      some [.tick (Time.ofUnix 100), .update 100 (sampleRecord protoUDP 7 700)] := by
    decide +kernel
  obtain ⟨⟨trace, final⟩, replayed, observed⟩ := Option.map_eq_some_iff.mp alone
  obtain ⟨⟨crowded, last⟩, again, calls⟩ := Option.map_eq_some_iff.mp beside
  simp only [Prod.mk.injEq] at observed
  obtain ⟨first, started⟩ := observed
  have run := Run.of_replay .start replayed
  have runOther := Run.of_replay .start again
  exact ⟨trace, crowded, final, last, run, runOther, started,
    (host_isolation sampleHost run runOther (first.trans calls.symm)).1⟩

end Mitigador.Detect
