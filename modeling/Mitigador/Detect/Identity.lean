import Mathlib.Data.List.Nodup
import Mitigador.Detect.State

/-! Incidents by their identifier. Where no identifier is issued twice, each incident has at most
one event of each state. -/

namespace Mitigador.Detect

open Go

def running (e : MachineEntry) : Option (String × Bool) :=
  if e.state = .active then e.inc.map fun inc => (inc.id, inc.updateEmitted) else none

variable {ρ : Type*} {newULID : ρ → Time → String × ρ}

inductive Progress (k : Key) : Option (String × Bool) → Option (String × Bool) →
    Option AttackEvent → Prop
  | stay (now) : Progress k now now none
  | start {ev : AttackEvent} (state : ev.state = .started) (host : ev.hostIP = k.hostIP)
      (vector : ev.vector = k.vector) : Progress k none (some (ev.incidentID, false)) (some ev)
  | update {ev : AttackEvent} (state : ev.state = .updated) (host : ev.hostIP = k.hostIP)
      (vector : ev.vector = k.vector) :
      Progress k (some (ev.incidentID, false)) (some (ev.incidentID, true)) (some ev)
  | finish {ev : AttackEvent} (out : Bool) (state : ev.state = .ended)
      (host : ev.hostIP = k.hostIP) (vector : ev.vector = k.vector) :
      Progress k (some (ev.incidentID, out)) none (some ev)

theorem Progress.hostIP {k : Key} {now later : Option (String × Bool)} {ev : AttackEvent}
    (progress : Progress k now later (some ev)) : ev.hostIP = k.hostIP := by
  cases progress with
  | start _ host | update _ host | finish _ _ host => exact host

theorem running_active {e : MachineEntry} {inc : Incident} (active : e.state = .active)
    (present : e.inc = some inc) : running e = some (inc.id, inc.updateEmitted) := by
  simp [running, active, present]

theorem running_inactive {e : MachineEntry} (inactive : e.state ≠ .active) : running e = none := by
  simp [running, inactive]

theorem progress_of_transition {rnd rest : ρ} {k : Key} {i : Input} {t : Threshold}
    {e next : MachineEntry} {output : Option AttackEvent}
    (moved : Transition newULID rnd k i t e next rest output) :
    Progress k (running e) (running next) output := by
  cases moved with
  | wait | cool => exact .stay _
  | start idle =>
      rw [running_inactive (by simp [idle]), running, if_pos rfl]
      exact @Progress.start k ((Incident.opened (newULID rnd i.now).1 i).event k i .started)
        rfl rfl rfl
  | ease active present | hold active present =>
      rw [running_active active present, running, if_pos active]
      exact .stay _
  | @finish inc active present =>
      rw [running_active active present, running, if_neg (by simp)]
      exact @Progress.finish k ((inc.observe i).event k i .ended) _ rfl rfl rfl
  | @update inc active present _ first =>
      rw [running_active active present, first, running, if_pos active]
      exact @Progress.update k ((inc.observe i).event k i .updated) rfl rfl rfl
  | thaw cooldown =>
      rw [running_inactive (by simp [cooldown]), running_inactive (by simp)]
      exact .stay _

def StateMachine.running (sm : StateMachine ρ) (k : Key) : Option (String × Bool) :=
  Detect.running (sm.entry k)

theorem StateMachine.progress {sm next : StateMachine ρ} {k : Key} {i : Input} {t : Threshold}
    {output : Option AttackEvent} (stepped : sm.step newULID k i t = some (next, output)) :
    Progress k (sm.running k) (next.running k) output ∧
      ∀ other, other ≠ k → next.running other = sm.running other := by
  obtain ⟨moved, frame⟩ := step_cases stepped
  refine ⟨progress_of_transition moved, fun other different => ?_⟩
  rw [running, running, entry, entry, frame other different]

def issued (events : List AttackEvent) : List String :=
  (events.filter fun ev => ev.state = .started).map AttackEvent.incidentID

def occurrences (id : String) (state : State) (events : List AttackEvent) : Nat :=
  events.countP fun ev => ev.incidentID = id ∧ ev.state = state

theorem occurrences_append (id : String) (state : State) (first second : List AttackEvent) :
    occurrences id state (first ++ second) =
      occurrences id state first + occurrences id state second :=
  List.countP_append ..

theorem occurrences_singleton (id : String) (state : State) (ev : AttackEvent) :
    occurrences id state [ev] = if ev.incidentID = id ∧ ev.state = state then 1 else 0 := by
  simp [occurrences, List.countP_cons]

theorem issued_append (first second : List AttackEvent) :
    issued (first ++ second) = issued first ++ issued second := by
  simp [issued]

/-- The events so far, and the incidents under way behind them. -/
structure Sole (events : List AttackEvent) (under : Key → Option (String × Bool)) : Prop where
  known : ∀ ev ∈ events, ev.incidentID ∈ issued events
  owned : ∀ k id out, under k = some (id, out) → id ∈ issued events ∧
    occurrences id .ended events = 0 ∧ (out = false → occurrences id .updated events = 0)
  apart : ∀ k other id out later, under k = some (id, out) → under other = some (id, later) →
    k = other
  once : ∀ id state, occurrences id state events ≤ 1

theorem sole_nil : Sole [] fun _ => none where
  known _ impossible := by contradiction
  owned _ _ _ impossible := by contradiction
  apart _ _ _ _ _ impossible := by contradiction
  once _ _ := Nat.zero_le _

theorem Sole.occurrences_zero {events : List AttackEvent} {under : Key → Option (String × Bool)}
    (sole : Sole events under) {id : String} (unissued : id ∉ issued events) (state : State) :
    occurrences id state events = 0 := by
  rw [occurrences, List.countP_eq_zero]
  intro ev member same
  simp only [decide_eq_true_eq] at same
  exact unissued (same.1 ▸ sole.known ev member)

theorem occurrences_other {id : String} {ev : AttackEvent} (different : ev.incidentID ≠ id)
    (state : State) (events : List AttackEvent) :
    occurrences id state (events ++ [ev]) = occurrences id state events := by
  rw [occurrences_append, occurrences_singleton, if_neg fun same => different same.1, add_zero]

theorem issued_started {ev : AttackEvent} (state : ev.state = .started)
    (events : List AttackEvent) : issued (events ++ [ev]) = issued events ++ [ev.incidentID] := by
  simp [issued, state]

theorem issued_mono (events : List AttackEvent) (ev : AttackEvent) {id : String}
    (member : id ∈ issued events) : id ∈ issued (events ++ [ev]) := by
  rw [issued_append]
  exact List.mem_append_left _ member

theorem Sole.append {events : List AttackEvent} {under : Key → Option (String × Bool)}
    (sole : Sole events under) {ev : AttackEvent}
    (started : ev.incidentID ∈ issued (events ++ [ev]))
    (first : occurrences ev.incidentID ev.state events = 0) :
    (∀ old ∈ events ++ [ev], old.incidentID ∈ issued (events ++ [ev])) ∧
      ∀ id state, occurrences id state (events ++ [ev]) ≤ 1 := by
  constructor
  · intro old member
    rcases List.mem_append.mp member with earlier | latest
    · exact issued_mono events ev (sole.known old earlier)
    · rw [List.mem_singleton.mp latest]
      exact started
  · intro id state
    rw [occurrences_append, occurrences_singleton]
    split
    · next same => rw [← same.1, ← same.2, first]
    · exact sole.once id state

theorem Sole.elsewhere {events : List AttackEvent} {under : Key → Option (String × Bool)}
    (sole : Sole events under) {ev : AttackEvent} {other : Key} {id : String} {out : Bool}
    (found : under other = some (id, out)) (different : ev.incidentID ≠ id) :
    id ∈ issued (events ++ [ev]) ∧ occurrences id .ended (events ++ [ev]) = 0 ∧
      (out = false → occurrences id .updated (events ++ [ev]) = 0) := by
  obtain ⟨started, alive, silent⟩ := sole.owned other id out found
  rw [occurrences_other different, occurrences_other different]
  exact ⟨issued_mono events ev started, alive, silent⟩

theorem Sole.step {events : List AttackEvent} {under next : Key → Option (String × Bool)} {k : Key}
    {output : Option AttackEvent} (sole : Sole events under)
    (distinct : (issued (events ++ output.toList)).Nodup)
    (moved : Progress k (under k) (next k) output)
    (frame : ∀ other, other ≠ k → next other = under other) :
    Sole (events ++ output.toList) next := by
  generalize before : under k = now at moved
  generalize after : next k = later at moved
  have either : ∀ other value, next other = some value →
      (other = k ∧ later = some value) ∨ (other ≠ k ∧ under other = some value) := by
    intro other value found
    by_cases same : other = k
    · exact .inl ⟨same, by rw [← after, ← same, found]⟩
    · exact .inr ⟨same, by rw [← frame other same, found]⟩
  cases moved with
  | stay =>
      have unchanged : next = under := by
        funext other
        by_cases same : other = k
        · rw [same, after, before]
        · exact frame other same
      simpa [unchanged] using sole
  | @start ev state =>
      have fresh : ev.incidentID ∉ issued events := by
        rw [Option.toList, issued_started state] at distinct
        exact fun member => (List.nodup_append.mp distinct).2.2 _ member _ List.mem_cons_self rfl
      have apart : ∀ other id out, under other = some (id, out) → ev.incidentID ≠ id := by
        rintro other id out found rfl
        exact fresh (sole.owned other _ out found).1
      have member : ev.incidentID ∈ issued (events ++ [ev]) := by simp [issued_started state]
      obtain ⟨known, once⟩ := sole.append member (sole.occurrences_zero fresh ev.state)
      refine ⟨known, ?_, ?_, once⟩
      · intro other id out found
        rcases either other _ found with ⟨-, same⟩ | ⟨-, old⟩
        · cases same
          have none := sole.occurrences_zero fresh
          refine ⟨member, ?_, fun _ => ?_⟩
          · simp [occurrences_append, none, occurrences_singleton, state]
          · simp [occurrences_append, none, occurrences_singleton, state]
        · exact sole.elsewhere old (apart other id out old)
      · intro first second id out out' found found'
        rcases either first _ found with ⟨one, same⟩ | ⟨-, old⟩
        · rcases either second _ found' with ⟨two, -⟩ | ⟨-, old'⟩
          · rw [one, two]
          · cases same
            exact absurd rfl (apart second _ out' old')
        · rcases either second _ found' with ⟨-, same'⟩ | ⟨-, old'⟩
          · cases same'
            exact absurd rfl (apart first _ out old)
          · exact sole.apart first second id out out' old old'
  | @update ev state =>
      obtain ⟨started, alive, silent⟩ := sole.owned k _ _ before
      have member : ev.incidentID ∈ issued (events ++ [ev]) := issued_mono events ev started
      obtain ⟨known, once⟩ := sole.append member (by rw [state]; exact silent rfl)
      have earlier : ∀ other id out, next other = some (id, out) →
          ∃ old, under other = some (id, old) := by
        intro other id out found
        rcases either other _ found with ⟨here, same⟩ | ⟨-, old⟩
        · cases same
          exact ⟨false, by rw [here, before]⟩
        · exact ⟨out, old⟩
      refine ⟨known, ?_, ?_, once⟩
      · intro other id out found
        rcases either other _ found with ⟨here, same⟩ | ⟨away, old⟩
        · cases same
          refine ⟨member, ?_, fun impossible => by contradiction⟩
          simp [occurrences_append, alive, occurrences_singleton, state]
        · apply sole.elsewhere old
          rintro rfl
          exact away (sole.apart other k _ out false old before)
      · intro first second id out out' found found'
        obtain ⟨_, old⟩ := earlier first id out found
        obtain ⟨_, old'⟩ := earlier second id out' found'
        exact sole.apart first second id _ _ old old'
  | @finish ev out state =>
      obtain ⟨started, alive, -⟩ := sole.owned k _ _ before
      have member : ev.incidentID ∈ issued (events ++ [ev]) := issued_mono events ev started
      obtain ⟨known, once⟩ := sole.append member (by rw [state]; exact alive)
      have earlier : ∀ other id out, next other = some (id, out) →
          other ≠ k ∧ under other = some (id, out) := by
        intro other id out found
        rcases either other _ found with ⟨-, same⟩ | both
        · contradiction
        · exact both
      refine ⟨known, ?_, ?_, once⟩
      · intro other id out' found
        obtain ⟨away, old⟩ := earlier other id out' found
        apply sole.elsewhere old
        rintro rfl
        exact away (sole.apart other k _ out' out old before)
      · intro first second id out out' found found'
        exact sole.apart first second id _ _ (earlier first id out found).2
          (earlier second id out' found').2

def AttackEvent.key (ev : AttackEvent) : Key := ⟨ev.hostIP, ev.vector⟩

def advance (k : Key) (now : Option String) (ev : AttackEvent) : Option String :=
  if ev.key = k then
    match ev.state with
    | .started => some ev.incidentID
    | .updated => now
    | .ended => none
  else now

def openAfter (k : Key) (events : List AttackEvent) : Option String := events.foldl (advance k) none

theorem openAfter_append (k : Key) (events : List AttackEvent) (ev : AttackEvent) :
    openAfter k (events ++ [ev]) = advance k (openAfter k events) ev := by
  simp [openAfter]

/-- An incident starts only where none of its key is open, and is the open one until it ends. -/
def Orderly (events : List AttackEvent) : Prop :=
  ∀ front ev back, events = front ++ ev :: back →
    openAfter ev.key front = if ev.state = .started then none else some ev.incidentID

theorem Orderly.append {events : List AttackEvent} {ev : AttackEvent} (orderly : Orderly events)
    (next : openAfter ev.key events = if ev.state = .started then none else some ev.incidentID) :
    Orderly (events ++ [ev]) := by
  intro front other back split
  rcases List.eq_nil_or_concat back with rfl | ⟨older, last, rfl⟩
  · obtain ⟨rfl, same⟩ := List.append_inj' split rfl
    cases same
    exact next
  · rw [List.concat_eq_append, ← List.cons_append, ← List.append_assoc] at split
    exact orderly front other older (List.append_inj' split rfl).1

structure InStep (events : List AttackEvent) (under : Key → Option (String × Bool)) : Prop where
  orderly : Orderly events
  under : ∀ k, openAfter k events = (under k).map Prod.fst

theorem inStep_nil : InStep [] fun _ => none where
  orderly front ev back split := by simp at split
  under _ := rfl

theorem InStep.step {events : List AttackEvent} {under next : Key → Option (String × Bool)}
    {k : Key} {output : Option AttackEvent} (inStep : InStep events under)
    (moved : Progress k (under k) (next k) output)
    (frame : ∀ other, other ≠ k → next other = under other) :
    InStep (events ++ output.toList) next := by
  obtain ⟨orderly, known⟩ := inStep
  have here := known k
  generalize before : under k = now at moved here
  generalize after : next k = later at moved
  have others : ∀ {ev : AttackEvent}, ev.key = k → ∀ other, other ≠ k →
      openAfter other (events ++ [ev]) = (next other).map Prod.fst := by
    intro ev own other apart
    rw [openAfter_append, advance, if_neg (by rw [own]; exact apart.symm), known, frame other apart]
  cases moved with
  | stay =>
      refine ⟨by simpa using orderly, fun other => ?_⟩
      rw [Option.toList, List.append_nil, known]
      by_cases same : other = k
      · rw [same, before, after]
      · rw [frame other same]
  | @start ev state host vector | @update ev state host vector | @finish ev _ state host vector =>
      have own : ev.key = k := by rw [AttackEvent.key, host, vector]
      refine ⟨orderly.append (by rw [own, here, state]; rfl), fun other => ?_⟩
      by_cases same : other = k
      · rw [same, after, Option.toList, openAfter_append, advance, if_pos own, state]
        first | rfl | exact here
      · exact others own other same

end Mitigador.Detect
