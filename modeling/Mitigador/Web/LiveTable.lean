import Mitigador.Web.Incidents

/-! The attack table against the events that were sent to it: the rows of an incident are a fold
over the events of that incident alone. -/

namespace Mitigador.Web

open Go Detect Api

variable {ν : Type*}

def Read (marshal : List (String × Value) → Option String) (browser : Browser ν)
    (ev : AttackEvent) : Prop :=
  ∃ data, marshal (eventToMap ev) = some data ∧ browser.parse data = some (browser.object ev)

def eventsOf (id : String) (events : List AttackEvent) : List AttackEvent :=
  events.filter fun ev => ev.incidentID = id

theorem eventsOf_cons (id : String) (ev : AttackEvent) (later : List AttackEvent) :
    eventsOf id (ev :: later) =
      if ev.incidentID = id then ev :: eventsOf id later else eventsOf id later := by
  simp [eventsOf, List.filter_cons]

def Course (own : List AttackEvent) : Prop :=
  ∃ start updates last, own = start :: (updates ++ last) ∧ start.state = .started ∧
    (∀ ev ∈ updates, ev.state = .updated) ∧ (last = [] ∨ ∃ ev, last = [ev] ∧ ev.state = .ended)

def Over (own : List AttackEvent) : Prop := ∃ ev ∈ own, ev.state = .ended

instance (own : List AttackEvent) : Decidable (Over own) :=
  inferInstanceAs (Decidable (∃ ev ∈ own, ev.state = .ended))

def ActiveAttack.figures (row : ActiveAttack ν) : List (Option (Scalar ν)) :=
  [row.pps, row.bps, row.peakPps, row.peakBps, row.confidence]

def Browser.figures (browser : Browser ν) (ev : AttackEvent) : List (Option (Scalar ν)) :=
  [some (.number (browser.count ev.pps)), some (.number (browser.count ev.bps)),
    some (.number (browser.count ev.peakPps)), some (.number (browser.count ev.peakBps)),
    some (.number (browser.ratio ev.confidence))]

/-- The rows of an incident that has started, by its events: marked once it has ended, else a
single one with the figures of the latest event. -/
def Shows (browser : Browser ν) (own : List AttackEvent) (rows : List (ActiveAttack ν)) : Prop :=
  if Over own then rows ≠ [] ∧ ∀ row ∈ rows, row.ended = true
  else ∃ row, rows = [row] ∧ ∀ last ∈ own.getLast?, row.figures = browser.figures last

/-- What the table must have held before, for `handleEvent` to get there: it takes no figures but
those of the event that adds the row, and marks no row but the first. -/
def Foreseen (browser : Browser ν) (own : List AttackEvent) (before : List (ActiveAttack ν)) :
    Prop :=
  if Over own then ∀ row ∈ before.tail, row.ended = true
  else before.length ≤ 1 ∧ ∀ first ∈ own.head?, ∀ last ∈ own.getLast?,
    (before.headD (.ofEvent (browser.object first))).figures = browser.figures last

def opened (browser : Browser ν) (start : AttackEvent) (before : List (ActiveAttack ν)) :
    List (ActiveAttack ν) :=
  before.headD (.ofEvent (browser.object start)) :: before.tail

theorem track_start (browser : Browser ν) {start : AttackEvent} (state : start.state = .started)
    (before : List (ActiveAttack ν)) :
    track browser before start = opened browser start before := by
  unfold track
  rw [state]
  cases before with
  | nil => rfl
  | cons head tail => rfl

theorem track_updates (browser : Browser ν) {updates : List AttackEvent}
    (states : ∀ ev ∈ updates, ev.state = .updated) (before : List (ActiveAttack ν)) :
    updates.foldl (track browser) before = before := by
  induction updates generalizing before with
  | nil => rfl
  | cons ev later ih =>
      have unmoved : track browser before ev = before := by
        rw [track, states ev List.mem_cons_self]
      rw [List.foldl_cons, unmoved]
      exact ih (fun ev member => states ev (List.mem_cons_of_mem _ member)) before

theorem shows_iff_foreseen (browser : Browser ν) {own : List AttackEvent} (course : Course own)
    (before : List (ActiveAttack ν)) :
    Shows browser own (own.foldl (track browser) before) ↔ Foreseen browser own before := by
  obtain ⟨start, updates, last, rfl, started, updated, ending⟩ := course
  rw [List.foldl_cons, List.foldl_append, track_start browser started,
    track_updates browser updated]
  unfold Shows Foreseen opened
  rcases ending with rfl | ⟨ev, rfl, ended⟩
  · have going : ¬ Over (start :: (updates ++ [])) := by
      rintro ⟨ev, member, ended⟩
      rw [List.append_nil, List.mem_cons] at member
      rcases member with rfl | member
      · rw [started] at ended
        contradiction
      · rw [updated ev member] at ended
        contradiction
    rw [if_neg going, if_neg going]
    cases before with
    | nil => simp
    | cons head tail => simp
  · have finished : Over (start :: (updates ++ [ev])) := ⟨ev, by simp, ended⟩
    rw [if_pos finished, if_pos finished]
    simp [track, ended, ActiveAttack.close]

variable [DecidableEq ν]

def deliver (marshal : List (String × Value) → Option String) (browser : Browser ν)
    (active : List (ActiveAttack ν)) (ev : AttackEvent) : List (ActiveAttack ν) :=
  match fanned marshal ev with
  | none => active
  | some p => browser.onMessage p active

theorem deliver_read {marshal : List (String × Value) → Option String} {browser : Browser ν}
    {ev : AttackEvent} (read : Read marshal browser ev) (active : List (ActiveAttack ν)) :
    deliver marshal browser active ev =
      handleEvent ("attack." ++ ev.state.text) (browser.object ev) active := by
  obtain ⟨data, written, parsed⟩ := read
  have named : "attack." ++ ev.state.text ≠ "" := by
    cases ev.state with
    | started => decide
    | updated => decide
    | ended => decide
  unfold deliver fanned
  rw [written]
  show browser.onMessage ⟨_, _, _⟩ active = _
  unfold Browser.onMessage
  rw [if_neg named, parsed]

theorem rows_deliver {marshal : List (String × Value) → Option String} {browser : Browser ν}
    (id : String) {events : List AttackEvent} (read : ∀ ev ∈ events, Read marshal browser ev)
    (active : List (ActiveAttack ν)) :
    rows id (events.foldl (deliver marshal browser) active) =
      (eventsOf id events).foldl (track browser) (rows id active) := by
  induction events generalizing active with
  | nil => rfl
  | cons ev later ih =>
      rw [List.foldl_cons, ih fun ev member => read ev (List.mem_cons_of_mem _ member),
        deliver_read (read ev List.mem_cons_self)]
      by_cases own : ev.incidentID = id
      · subst own
        rw [rows_handleEvent_own, eventsOf_cons, if_pos rfl, List.foldl_cons]
      · rw [rows_handleEvent_other browser own, eventsOf_cons, if_neg own]

/-- For every table and every sequence of events in which each incident keeps the order of its
states, the table follows the sequence exactly where it was foreseen. -/
theorem follows_iff {marshal : List (String × Value) → Option String} {browser : Browser ν}
    {events : List AttackEvent} (read : ∀ ev ∈ events, Read marshal browser ev)
    (inOrder : ∀ id ∈ issued events, Course (eventsOf id events))
    (active : List (ActiveAttack ν)) :
    (∀ id ∈ issued events, Shows browser (eventsOf id events)
      (rows id (events.foldl (deliver marshal browser) active))) ↔
      ∀ id ∈ issued events, Foreseen browser (eventsOf id events) (rows id active) := by
  refine forall₂_congr fun id started => ?_
  rw [rows_deliver id read]
  exact shows_iff_foreseen browser (inOrder id started) _

section Sample

def sampleTime (t : Time) : String :=
  if t = Time.zero then "0001-01-01T00:00:00Z" else "1970-01-01T00:01:40Z"

def sampleText : Value → String
  | .text s => "\"" ++ s ++ "\""
  | .count n => toString n.toNat
  | .ratio _ => "0"
  | .time t => "\"" ++ sampleTime t ++ "\""

def sampleJson (entries : List (String × Value)) : String :=
  let keys := ["bps", "confidence", "ended_at", "host_ip", "hostgroup", "incident_id", "now",
    "peak_bps", "peak_pps", "pps", "started_at", "state", "vector"]
  let members := keys.filterMap fun key =>
    (entries.lookup key).map fun value => "\"" ++ key ++ "\":" ++ sampleText value
  "\x7b" ++ ",".intercalate members ++ "\x7d"

def sampleMarshal (entries : List (String × Value)) : Option String := some (sampleJson entries)

def sampleScalar : Value → Scalar Nat
  | .text s => .string s
  | .count n => .number n.toNat
  | .ratio _ => .number 0
  | .time t => .string (sampleTime t)

def sampleBrowser (events : List AttackEvent) : Browser Nat where
  count n := n.toNat
  ratio _ := 0
  time := sampleTime
  parse data := (events.find? fun ev => sampleJson (eventToMap ev) = data).map fun ev =>
    (eventToMap ev).map fun entry => (entry.1, sampleScalar entry.2)

theorem read_sample {events : List AttackEvent}
    (distinct : (events.map fun ev => sampleJson (eventToMap ev)).Nodup) :
    ∀ ev ∈ events, Read sampleMarshal (sampleBrowser events) ev := by
  intro ev member
  refine ⟨sampleJson (eventToMap ev), rfl, ?_⟩
  have found : events.find? (fun other => sampleJson (eventToMap other) =
      sampleJson (eventToMap ev)) = some ev := by
    cases search : events.find? fun other => sampleJson (eventToMap other) =
        sampleJson (eventToMap ev) with
    | none => simpa using List.find?_eq_none.mp search ev member
    | some other =>
        have same : sampleJson (eventToMap other) = sampleJson (eventToMap ev) := by
          simpa using List.find?_some search
        exact congrArg some
          (List.inj_on_of_nodup_map distinct (List.mem_of_find?_eq_some search) member same)
  simp only [sampleBrowser, found, Option.map_some, Browser.object, Option.some.injEq]
  apply List.map_congr_left
  rintro ⟨key, value⟩ _
  cases value with
  | text s => rfl
  | count n => rfl
  | ratio x => rfl
  | time t => rfl

def sampleEvents : List AttackEvent :=
  [sampleEvent "a" .started, sampleEvent "b" .started, sampleEvent "b" .updated,
    sampleEvent "a" .ended]

def sampleGrowth : List AttackEvent :=
  [sampleEvent "a" .started, { sampleEvent "a" .updated with pps := 9, peakPps := 9 }]

theorem follows_iff_sample : issued sampleEvents = ["a", "b"] ∧
    ∀ id ∈ issued sampleEvents, Shows (sampleBrowser sampleEvents) (eventsOf id sampleEvents)
      (rows id (sampleEvents.foldl (deliver sampleMarshal (sampleBrowser sampleEvents)) [])) := by
  have read : ∀ ev ∈ sampleEvents, Read sampleMarshal (sampleBrowser sampleEvents) ev :=
    read_sample (by decide +kernel)
  have two : issued sampleEvents = ["a", "b"] := by decide +kernel
  have first : eventsOf "a" sampleEvents =
      [sampleEvent "a" .started, sampleEvent "a" .ended] := rfl
  have second : eventsOf "b" sampleEvents =
      [sampleEvent "b" .started, sampleEvent "b" .updated] := rfl
  refine ⟨two, (follows_iff read ?_ []).mpr ?_⟩
  · rw [two]
    intro id member
    rcases List.mem_pair.mp member with rfl | rfl
    · rw [first]
      exact ⟨_, [], [_], rfl, rfl, by simp, Or.inr ⟨_, rfl, rfl⟩⟩
    · rw [second]
      exact ⟨_, [_], [], rfl, rfl, by simp [sampleEvent], Or.inl rfl⟩
  · rw [two]
    intro id member
    rcases List.mem_pair.mp member with rfl | rfl
    · rw [first, Foreseen, if_pos ⟨_, List.mem_pair.mpr (Or.inr rfl), rfl⟩]
      simp [rows]
    · have going : ¬ Over [sampleEvent "b" .started, sampleEvent "b" .updated] := by
        simp [Over, sampleEvent]
      rw [second, Foreseen, if_neg going]
      refine ⟨Nat.zero_le _, ?_⟩
      rintro _ ⟨⟩ _ ⟨⟩
      rfl

/-- An update with a higher rate reaches the browser, and the row keeps that of the start. -/
theorem update_not_shown :
    (∀ ev ∈ sampleGrowth, Read sampleMarshal (sampleBrowser sampleGrowth) ev) ∧
      (∀ id ∈ issued sampleGrowth, Course (eventsOf id sampleGrowth)) ∧
      ¬ ∀ id ∈ issued sampleGrowth, Shows (sampleBrowser sampleGrowth) (eventsOf id sampleGrowth)
        (rows id
          (sampleGrowth.foldl (deliver sampleMarshal (sampleBrowser sampleGrowth)) [])) := by
  have one : issued sampleGrowth = ["a"] := by decide +kernel
  have own : eventsOf "a" sampleGrowth = sampleGrowth := rfl
  have stale : (rows "a" (sampleGrowth.foldl (deliver sampleMarshal (sampleBrowser sampleGrowth))
      [])).map (·.pps) = [some (.number 7)] := by
    decide +kernel
  refine ⟨read_sample (by decide +kernel), ?_, fun follows => ?_⟩
  · rw [one]
    intro id member
    rw [List.mem_singleton.mp member, own]
    exact ⟨_, [_], [], rfl, rfl, by simp [sampleEvent], Or.inl rfl⟩
  · have going : ¬ Over sampleGrowth := by simp [Over, sampleGrowth, sampleEvent]
    have shows := follows "a" (by rw [one]; exact List.mem_singleton_self _)
    rw [own, Shows, if_neg going] at shows
    obtain ⟨row, single, latest⟩ := shows
    rw [single] at stale
    have shown : row.pps = some (.number 9) := congrArg (·.headD none) (latest _ rfl)
    have pps : row.pps = some (.number 7) := List.singleton_injective stale
    exact absurd (shown.symm.trans pps) (by decide)

end Sample

end Mitigador.Web
