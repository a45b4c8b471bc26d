import Mitigador.Web.Screen

/-! The dashboard against the events published: what it has been given, what is on its way, and what
it will not get. -/

namespace Mitigador.Web

open Go Detect Api Lib

variable {ν : Type*}

/-- The snapshot with the messages leaves the same incidents under way as the incidents that were
open before, with all events. -/
def Accounted (before base : List String) (messages : List (String × String))
    (published : List AttackEvent) : Prop :=
  ∀ id ∈ before ++ base ++ messages.map Prod.fst ++ published.map AttackEvent.incidentID,
    lit base messages id = lit before (published.map signal) id

instance (before base : List String) (messages : List (String × String))
    (published : List AttackEvent) : Decidable (Accounted before base messages published) :=
  inferInstanceAs (Decidable (∀ id ∈ _, _))

theorem lit_eq_false {base : List String} {messages : List (String × String)} {id : String}
    (unlisted : id ∉ base) (unheard : id ∉ messages.map Prod.fst) :
    lit base messages id = false := by
  rw [lit, foldl_litBy_other]
  · simpa using unlisted
  · rintro message member rfl
    exact unheard (List.mem_map.mpr ⟨message, member, rfl⟩)

theorem Accounted.all {before base : List String} {messages : List (String × String)}
    {published : List AttackEvent} (accounted : Accounted before base messages published)
    (id : String) : lit base messages id = lit before (published.map signal) id := by
  by_cases mentioned :
      id ∈ before ++ base ++ messages.map Prod.fst ++ published.map AttackEvent.incidentID
  · exact accounted id mentioned
  · simp only [List.mem_append, not_or] at mentioned
    obtain ⟨⟨⟨closed, unlisted⟩, unheard⟩, unpublished⟩ := mentioned
    rw [lit_eq_false unlisted unheard, lit_eq_false closed]
    rw [List.map_map]
    exact unpublished

section Order

theorem issued_of_openAfter {k : Key} {id : String} {events : List AttackEvent}
    (alive : openAfter k events = some id) : id ∈ issued events := by
  induction events using List.reverseRecOn with
  | nil => contradiction
  | append_singleton front ev ih =>
      rw [openAfter_append, advance] at alive
      rw [issued_append, List.mem_append]
      split at alive
      · split at alive
        · next started =>
            cases alive
            exact .inr (by simp [issued, started])
        · exact .inl (ih alive)
        · contradiction
      · exact .inl (ih alive)

theorem unheard_before_start {front back : List AttackEvent} {ev : AttackEvent}
    (orderly : Orderly (front ++ ev :: back)) (distinct : (issued (front ++ ev :: back)).Nodup)
    (started : ev.state = .started) : ∀ other ∈ front, other.incidentID ≠ ev.incidentID := by
  intro other member same
  rw [issued_append] at distinct
  have later : ev.incidentID ∈ issued (ev :: back) := by simp [issued, started]
  have apart := (List.nodup_append.mp distinct).2.2
  obtain ⟨older, newer, rfl⟩ := List.append_of_mem member
  have known : other.incidentID ∈ issued (older ++ other :: newer) := by
    by_cases first : other.state = .started
    · simp [issued, first]
    · have under := orderly older other (newer ++ ev :: back) (by simp)
      rw [if_neg first] at under
      rw [issued_append, List.mem_append]
      exact .inl (issued_of_openAfter under)
  exact apart _ known _ later same

end Order

section Books

variable {before db : Incident.Database} {recorded : List AttackEvent} {ev : AttackEvent}

def openIn (db : Incident.Database) : List String := (Incident.Store.unended db).map Prod.fst

theorem mem_openIn {id : String} : id ∈ openIn db ↔
    ∃ row, db.incidents.lookup id = some row ∧ row.endedAt = none := by
  constructor
  · intro listed
    obtain ⟨⟨_, start⟩, member, rfl⟩ := List.mem_map.mp listed
    exact Incident.Store.mem_unended member
  · rintro ⟨row, found, alive⟩
    refine List.mem_map.mpr ⟨(id, row.startedAt), List.mem_filterMap.mpr ⟨⟨id, row⟩, ?_, ?_⟩, rfl⟩
    · exact (KeyedMap.mem_entries ..).mpr found
    · rw [if_pos alive]

structure Books (before : Incident.Database) (recorded : List AttackEvent)
    (db : Incident.Database) : Prop where
  known : ∀ id ∈ db.incidents, id ∈ before.incidents ∨ id ∈ issued recorded
  alive : ∀ id, id ∈ openIn db ↔ lit (openIn before) (recorded.map signal) id = true

theorem lit_recorded (base : List String) (recorded : List AttackEvent) (ev : AttackEvent)
    (id : String) : lit base ((recorded ++ [ev]).map signal) id =
      litBy id (lit base (recorded.map signal) id) (signal ev) := by
  rw [List.map_append, lit_append]
  rfl

theorem openIn_congr {next : Incident.Database} {id : String}
    (same : next.incidents.lookup id = db.incidents.lookup id) :
    id ∈ openIn next ↔ id ∈ openIn db := by
  rw [mem_openIn, mem_openIn, same]

theorem openIn_updated {next : Incident.Database} (handled : Incident.Handled ev db next)
    (state : ev.state = .updated) : ev.incidentID ∈ openIn next ↔ ev.incidentID ∈ openIn db := by
  cases handled with
  | refused same => rw [same]
  | opened started => exact absurd (state.symm.trans started) (by simp)
  | again started => exact absurd (state.symm.trans started) (by simp)
  | changed _ old row known _ _ _ endedAt incidents =>
      rw [if_neg (by simp [state])] at endedAt
      simp [mem_openIn, incidents, known, endedAt]

theorem Books.record (books : Books before recorded db)
    (castable : Incident.isInet ev.hostIP = true)
    (fresh : ev.state = .started → ev.incidentID ∉ db.incidents) (now : Time) :
    Books before (recorded ++ [ev]) (Incident.Store.handle .none now ev db) := by
  have handled := Incident.Store.handle_cases .none now ev db
  refine ⟨fun id present => ?_, fun id => ?_⟩
  · rcases handled.known_or_started present with earlier | ⟨started, rfl⟩
    · exact (books.known id earlier).imp_right fun told => issued_mono recorded ev told
    · exact .inr (by simp [issued, started])
  · rw [lit_recorded]
    by_cases own : ev.incidentID = id
    · subst own
      rw [litBy_signal]
      cases state : ev.state with
      | started =>
          obtain ⟨row, -, alive, incidents⟩ :=
            Incident.Store.create_opens now castable (fresh state)
          have opened : ev.incidentID ∈ openIn (Incident.Store.handle .none now ev db) := by
            rw [mem_openIn, Incident.Store.handle, state]
            exact ⟨row, by rw [incidents, AList.lookup_insert], alive⟩
          simpa using opened
      | updated => rw [openIn_updated handled state, books.alive]
      | ended =>
          have closed : ev.incidentID ∉ openIn (Incident.Store.handle .none now ev db) := by
            rw [mem_openIn, Incident.Store.handle, state]
            rintro ⟨row, found, alive⟩
            rw [Incident.Store.endIncident_closes found] at alive
            contradiction
          simpa using closed
    · rw [litBy_other own, openIn_congr (handled.lookup_other own), books.alive]

end Books

def incoming (broker : Broker) (d : Dashboard ν) : List SsePayload :=
  (d.wire ++ d.stream.elim [] fun c => pending c broker).filter fun p => p.type ≠ ""

def Connected (broker : Broker) (d : Dashboard ν) : Prop :=
  ∃ c, d.stream = some c ∧ Broker.Attached c broker

def Loading (d : Dashboard ν) : Prop :=
  match d.load with
  | .done => False
  | _ => True

/-- What is on its way follows, event by event, on what the page has been given or will not get;
while the page is connected, it lacks nothing. -/
def Ordered (marshal : List (String × Value) → Option String) (published : List AttackEvent)
    (broker : Broker) (d : Dashboard ν) (ended : String → Prop) : Prop :=
  ∃ past mid dropped, published = past ++ mid ++ dropped ++ broker.input.buffer ∧
    (incoming broker d).map some = mid.map (fanned marshal) ∧
    (Connected broker d → dropped = []) ∧
    ∀ id, ended id → ∃ ev ∈ past, ev.state = .ended ∧ ev.incidentID = id

variable [DecidableEq ν]

structure Follows (marshal : List (String × Value) → Option String) (before : List String)
    (published : List AttackEvent) (base : List String) (told : List (String × String))
    (broker : Broker) (d : Dashboard ν) : Prop where
  tidy : Broker.Tidy broker
  sane : d.Sane
  early : Loading d → d.stream = none ∧ d.wire = [] ∧ d.fading = [] ∧ told = []
  answer : ∀ rows, d.load = .answered rows →
    (rows.map Prod.fst).Nodup ∧ ∀ entry ∈ rows, entry.2.endedAt = none
  silent : ∀ c, d.stream = some c → Fresh c broker → d.wire = []
  shown : ∀ id, d.isLit id = lit base told id
  order : Ordered marshal published broker d d.Marked
  accounted : Connected broker d → ∀ id,
    lit base (told ++ (incoming broker d).map heard ++ broker.input.buffer.map signal) id =
      lit before (published.map signal) id

namespace Follows

variable {marshal : List (String × Value) → Option String} {before base : List String}
  {published : List AttackEvent} {told : List (String × String)} {broker : Broker}
  {d : Dashboard ν}

theorem publish (follows : Follows marshal before published base told broker d)
    {ev : AttackEvent} {input : Chan AttackEvent}
    (queued : input.buffer = broker.input.buffer ++ [ev]) :
    Follows marshal before (published ++ [ev]) base told { broker with input := input } d where
  tidy := ⟨follows.tidy.known, follows.tidy.left, follows.tidy.empty⟩
  sane := follows.sane
  early := follows.early
  answer := follows.answer
  silent := follows.silent
  shown := follows.shown
  order := by
    obtain ⟨past, mid, dropped, split, coming, complete, marks⟩ := follows.order
    refine ⟨past, mid, dropped, ?_, coming, complete, marks⟩
    rw [split, queued, List.append_assoc _ _ [ev]]
  accounted := by
    intro connected id
    have accounted := follows.accounted connected id
    rw [queued, lit_recorded, ← accounted, List.map_append, ← List.append_assoc, lit_append]
    rfl

theorem restart (follows : Follows marshal before published base told broker d)
    {next : Broker} {stream : Option Nat} (tidy : Broker.Tidy next)
    (input : next.input.buffer = broker.input.buffer)
    (opened : stream ≠ none → ¬ Loading d)
    (away : ∀ c, stream = some c → (next.handlers c).phase ≠ .streaming) :
    Follows marshal before published base told next { d with stream := stream, wire := [] } where
  tidy := tidy
  sane := ⟨follows.sane.named, follows.sane.single⟩
  early := by
    intro loading
    obtain ⟨-, -, fading, none⟩ := follows.early loading
    refine ⟨?_, rfl, fading, none⟩
    by_contra present
    exact opened present loading
  answer := follows.answer
  silent _ _ _ := rfl
  shown := follows.shown
  order := by
    obtain ⟨past, mid, dropped, split, -, -, marks⟩ := follows.order
    refine ⟨past, [], mid ++ dropped, ?_, ?_, ?_, marks⟩
    · rw [split, input]
      simp
    · unfold incoming
      cases stream with
      | none => rfl
      | some c => simp [pending_of_away (away c rfl)]
    · rintro ⟨c, here, -, -, looping⟩
      exact absurd looping (away c here)
  accounted := by
    rintro ⟨c, here, -, -, looping⟩
    exact absurd looping (away c here)

theorem load (follows : Follows marshal before published base told broker d) {load : Load}
    (loading : Loading d) (answer : ∀ rows, load = .answered rows →
      (rows.map Prod.fst).Nodup ∧ ∀ entry ∈ rows, entry.2.endedAt = none) :
    Follows marshal before published base told broker { d with load := load } where
  tidy := follows.tidy
  sane := ⟨follows.sane.named, follows.sane.single⟩
  early _ := follows.early loading
  answer := answer
  silent := follows.silent
  shown := follows.shown
  order := follows.order
  accounted := follows.accounted

theorem reply (follows : Follows marshal before published base told broker d) (page : Page ν)
    {rows : List (String × Incident.IncidentRow)} (answered : d.load = .answered rows) :
    Follows marshal before published (rows.map Prod.fst) told broker
      (d.loadActiveSnapshot page rows) := by
  have loading : Loading d := by
    rw [Loading, answered]
    trivial
  obtain ⟨stream, wire, fading, rfl⟩ := follows.early loading
  obtain ⟨distinct, alive⟩ := follows.answer rows answered
  have apart : ¬ Connected broker (d.loadActiveSnapshot page rows) := by
    rintro ⟨c, here, -⟩
    rw [Dashboard.loadActiveSnapshot, stream] at here
    contradiction
  refine ⟨follows.tidy, Dashboard.sane_snapshot distinct, fun impossible => impossible.elim, ?_,
    fun _ _ _ => wire, Dashboard.isLit_snapshot alive fading, ?_, fun here => absurd here apart⟩
  · intro other impossible
    contradiction
  · obtain ⟨past, mid, dropped, split, coming, -, -⟩ := follows.order
    refine ⟨past, mid, dropped, split, coming, fun here => absurd here apart, fun id marked => ?_⟩
    exact absurd marked (Dashboard.marked_snapshot alive fading id)

theorem expire (follows : Follows marshal before published base told broker d) {n : Nat}
    {next : Dashboard ν} (expired : d.expire n = some next) :
    Follows marshal before published base told broker next := by
  have quiet : next.load = d.load ∧ next.stream = d.stream ∧ next.wire = d.wire := by
    obtain ⟨x, -, rfl⟩ := Option.map_eq_some_iff.mp expired
    exact ⟨rfl, rfl, rfl⟩
  obtain ⟨load, stream, wire⟩ := quiet
  have coming : incoming broker next = incoming broker d := by rw [incoming, incoming, stream, wire]
  have connected : Connected broker next ↔ Connected broker d := by
    rw [Connected, Connected, stream]
  refine ⟨follows.tidy, Dashboard.sane_expire follows.sane expired, fun loading => ?_, ?_, ?_,
    fun id => ?_, ?_, ?_⟩
  · rw [Loading, load] at loading
    obtain ⟨-, -, fading, -⟩ := follows.early loading
    obtain ⟨x, running, -⟩ := Dashboard.expire_spec expired
    rw [fading] at running
    contradiction
  · rw [load]
    exact follows.answer
  · rw [stream, wire]
    exact follows.silent
  · rw [Dashboard.isLit_expire follows.sane expired, follows.shown]
  · obtain ⟨past, mid, dropped, split, sent, complete, marks⟩ := follows.order
    refine ⟨past, mid, dropped, split, by rw [coming, sent], fun here => ?_, fun id marked => ?_⟩
    · exact complete (connected.mp here)
    · exact marks id (Dashboard.marked_expire expired marked)
  · rw [coming, connected]
    exact follows.accounted

theorem deliver_untyped (follows : Follows marshal before published base told broker d)
    (page : Page ν) {p : SsePayload} {rest : List SsePayload} (wire : d.wire = p :: rest)
    (untyped : p.type = "") : Follows marshal before published base (told ++ [heard p]) broker
      (Dashboard.onSSEMessage page p { d with wire := rest }) := by
  have ignored : Dashboard.onSSEMessage page p { d with wire := rest } =
      { d with wire := rest } := by
    simp [Dashboard.onSSEMessage, Dashboard.timer, Browser.onMessage, untyped]
  have coming : incoming broker { d with wire := rest } = incoming broker d := by
    simp [incoming, wire, untyped]
  have meaningless : ∀ id was, litBy id was (heard p) = was := by
    intro id was
    simp [litBy, heard, untyped]
  rw [ignored]
  refine ⟨follows.tidy, ⟨follows.sane.named, follows.sane.single⟩, fun loading => ?_,
    follows.answer, fun c here fresh => ?_, fun id => ?_, ?_, fun here id => ?_⟩
  · have empty := (follows.early loading).2.1
    rw [wire] at empty
    contradiction
  · have empty := follows.silent c here fresh
    rw [wire] at empty
    contradiction
  · rw [lit_append, List.foldl_cons, List.foldl_nil, meaningless]
    exact follows.shown id
  · obtain ⟨past, mid, dropped, split, sent, complete, marks⟩ := follows.order
    exact ⟨past, mid, dropped, split, by rw [coming, sent], complete, marks⟩
  · have accounted := follows.accounted here id
    rw [List.append_assoc, lit_append] at accounted
    rw [coming, List.append_assoc, lit_append, lit_append, List.foldl_cons, List.foldl_nil,
      meaningless]
    exact accounted

theorem deliver (follows : Follows marshal before published base told broker d) {page : Page ν}
    (orderly : Orderly published) (distinct : (issued published).Nodup)
    (read : ∀ ev ∈ published, Read marshal page.toBrowser ev) {p : SsePayload}
    {rest : List SsePayload} (wire : d.wire = p :: rest) :
    Follows marshal before published base (told ++ [heard p]) broker
      (Dashboard.onSSEMessage page p { d with wire := rest }) := by
  by_cases untyped : p.type = ""
  · exact follows.deliver_untyped page wire untyped
  obtain ⟨past, mid, dropped, split, sent, complete, marks⟩ := follows.order
  have coming : incoming broker d =
      p :: incoming broker (Dashboard.onSSEMessage page p { d with wire := rest }) := by
    simp [incoming, wire, untyped, Dashboard.onSSEMessage]
  rw [coming, List.map_cons] at sent
  obtain ⟨ev, mid, rfl⟩ : ∃ ev later, mid = ev :: later := by
    cases mid with
    | nil => contradiction
    | cons ev later => exact ⟨ev, later, rfl⟩
  rw [List.map_cons, List.cons.injEq] at sent
  obtain ⟨own, later⟩ := sent
  have here : published = past ++ ev :: (mid ++ dropped ++ broker.input.buffer) := by
    rw [split]
    simp
  have known := read ev (by rw [here]; simp)
  have clean : ev.state = .started → ¬ Dashboard.Marked { d with wire := rest } ev.incidentID := by
    intro started marked
    obtain ⟨other, member, -, same⟩ := marks _ marked
    rw [here] at orderly distinct
    exact unheard_before_start orderly distinct started other member same
  have sane : Dashboard.Sane { d with wire := rest } := ⟨follows.sane.named, follows.sane.single⟩
  refine ⟨follows.tidy, Dashboard.sane_message known own.symm sane, fun loading => ?_,
    follows.answer, fun c here fresh => ?_, fun id => ?_, ?_, fun connected id => ?_⟩
  · have empty := (follows.early loading).2.1
    rw [wire] at empty
    contradiction
  · have empty := follows.silent c here fresh
    rw [wire] at empty
    contradiction
  · rw [Dashboard.isLit_message known own.symm sane clean, lit_append, ← follows.shown]
    rfl
  · refine ⟨past ++ [ev], mid, dropped, ?_, later, complete, fun id marked => ?_⟩
    · rw [here]
      simp
    · rcases Dashboard.marked_message known own.symm marked with before | ⟨ended, same⟩
      · obtain ⟨other, member, ended, same⟩ := marks id before
        exact ⟨other, List.mem_append_left _ member, ended, same⟩
      · exact ⟨ev, by simp, ended, same⟩
  · have accounted := follows.accounted connected id
    rw [coming] at accounted
    rw [← accounted]
    simp

section Stream

variable {next : Broker} {c : Nat}

omit [DecidableEq ν] in
theorem connected_iff (stream : d.stream = some c) :
    Connected broker d ↔ Broker.Attached c broker := by
  rw [Connected, stream]
  constructor
  · rintro ⟨_, ⟨⟩, attached⟩
    exact attached
  · exact fun attached => ⟨c, rfl, attached⟩

omit [DecidableEq ν] in
theorem incoming_eq (stream : d.stream = some c) : incoming broker d =
    (d.wire.filter fun p => p.type ≠ "") ++ (pending c broker).filter fun p => p.type ≠ "" := by
  rw [incoming, stream, List.filter_append]
  rfl

theorem wrote (follows : Follows marshal before published base told broker d)
    (stream : d.stream = some c) (tidy : Broker.Tidy next) {p : SsePayload}
    (queued : pending c broker = p :: pending c next)
    (input : next.input.buffer = broker.input.buffer)
    (attached : Broker.Attached c next → Broker.Attached c broker) (stale : ¬ Fresh c next) :
    Follows marshal before published base told next { d with wire := d.wire ++ [p] } := by
  have opened : (⟨d.load, d.active, d.fading, d.stream, d.wire ++ [p]⟩ : Dashboard ν).stream =
    some c := stream
  have coming : incoming next { d with wire := d.wire ++ [p] } = incoming broker d := by
    rw [incoming_eq opened, incoming_eq stream, queued, List.filter_append, List.append_assoc,
      ← List.filter_append]
    rfl
  refine ⟨tidy, ⟨follows.sane.named, follows.sane.single⟩, fun loading => ?_, follows.answer,
    fun other here fresh => ?_, follows.shown, ?_, fun connected => ?_⟩
  · have none := (follows.early loading).1
    rw [stream] at none
    contradiction
  · rw [stream] at here
    cases here
    exact absurd fresh stale
  · obtain ⟨past, mid, dropped, split, sent, complete, marks⟩ := follows.order
    refine ⟨past, mid, dropped, by rw [split, input], by rw [coming, sent], ?_, marks⟩
    rw [connected_iff opened]
    exact fun now => complete ((connected_iff stream).mpr (attached now))
  · rw [coming, input]
    exact follows.accounted ((connected_iff stream).mpr (attached ((connected_iff opened).mp
      connected)))

theorem quiet (follows : Follows marshal before published base told broker d)
    (stream : d.stream = some c) (tidy : Broker.Tidy next)
    (queued : pending c next = pending c broker ∨
      pending c next = pending c broker ++ [.heartbeat] ∨
        (next.handlers c).phase ≠ .streaming)
    (input : next.input.buffer = broker.input.buffer)
    (attached : Broker.Attached c next → Broker.Attached c broker)
    (fresh : Fresh c next → Fresh c broker) :
    Follows marshal before published base told next d := by
  have away : (next.handlers c).phase ≠ .streaming → ¬ Connected next d := by
    intro gone connected
    exact gone ((connected_iff stream).mp connected).2.2
  have coming : (next.handlers c).phase = .streaming → incoming next d = incoming broker d := by
    intro looping
    rw [incoming_eq stream, incoming_eq stream]
    rcases queued with same | beat | gone
    · rw [same]
    · rw [beat]
      simp [SsePayload.heartbeat]
    · exact absurd looping gone
  refine ⟨tidy, follows.sane, follows.early, follows.answer, fun other here now => ?_,
    follows.shown, ?_, fun connected => ?_⟩
  · rw [stream] at here
    cases here
    exact follows.silent c stream (fresh now)
  · obtain ⟨past, mid, dropped, split, sent, complete, marks⟩ := follows.order
    by_cases looping : (next.handlers c).phase = .streaming
    · refine ⟨past, mid, dropped, by rw [split, input], by rw [coming looping, sent], ?_, marks⟩
      rw [connected_iff stream]
      exact fun now => complete ((connected_iff stream).mpr (attached now))
    · rw [incoming_eq stream, List.map_append, eq_comm, List.map_eq_append_iff] at sent
      obtain ⟨first, second, rfl, written, -⟩ := sent
      refine ⟨past, first, second ++ dropped, ?_, ?_, fun now => absurd now (away looping), marks⟩
      · rw [split, input]
        simp
      · rw [incoming_eq stream, pending_of_away looping, written]
        simp
  · have now := (connected_iff stream).mp connected
    rw [coming now.2.2, input]
    exact follows.accounted ((connected_iff stream).mpr (attached now))

theorem taken (follows : Follows marshal before published base told broker d)
    (stream : d.stream = some c) (tidy : Broker.Tidy next) {ev : AttackEvent} {p : SsePayload}
    (input : broker.input.buffer = ev :: next.input.buffer) (sent : fanned marshal ev = some p)
    (typed : p.type ≠ "")
    (queued : pending c next = pending c broker ∨
      Broker.Attached c broker ∧ pending c next = pending c broker ++ [p])
    (attached : Broker.Attached c next → Broker.Attached c broker ∧
      pending c next = pending c broker ++ [p])
    (fresh : Fresh c next → Fresh c broker) :
    Follows marshal before published base told next d := by
  have coming : pending c next = pending c broker ++ [p] →
      incoming next d = incoming broker d ++ [p] := by
    intro added
    rw [incoming_eq stream, incoming_eq stream, added]
    simp [typed]
  refine ⟨tidy, follows.sane, follows.early, follows.answer, fun other here now => ?_,
    follows.shown, ?_, fun connected id => ?_⟩
  · rw [stream] at here
    cases here
    exact follows.silent c stream (fresh now)
  · obtain ⟨past, mid, dropped, split, coded, complete, marks⟩ := follows.order
    rcases queued with same | ⟨here, added⟩
    · refine ⟨past, mid, dropped ++ [ev], ?_, ?_, fun connected => ?_, marks⟩
      · rw [split, input]
        simp
      · rw [← coded, incoming_eq stream, incoming_eq stream, same]
      · have added := (attached ((connected_iff stream).mp connected)).2
        rw [same] at added
        simp at added
    · have whole := complete ((connected_iff stream).mpr here)
      subst whole
      refine ⟨past, mid ++ [ev], [], ?_, ?_, fun _ => rfl, marks⟩
      · rw [split, input]
        simp
      · rw [coming added, List.map_append, coded, List.map_append, List.map_singleton,
          List.map_singleton, sent]
  · obtain ⟨here, added⟩ := attached ((connected_iff stream).mp connected)
    have accounted := follows.accounted ((connected_iff stream).mpr here) id
    rw [← accounted, coming added, input]
    simp [heard_fanned sent]

theorem joined (follows : Follows marshal before published base told broker d)
    (stream : d.stream = some c) (tidy : Broker.Tidy next) (fresh : Fresh c broker)
    (silent : pending c broker = []) (still : pending c next = [])
    (input : next.input.buffer = broker.input.buffer)
    (accounted : Accounted before base (told ++ broker.input.buffer.map signal) published) :
    Follows marshal before published base told next d := by
  have wire := follows.silent c stream fresh
  have none : incoming broker d = [] := by rw [incoming_eq stream, wire, silent]; rfl
  have empty : incoming next d = [] := by rw [incoming_eq stream, wire, still]; rfl
  refine ⟨tidy, follows.sane, follows.early, follows.answer, fun _ _ _ => wire, follows.shown, ?_,
    fun _ id => ?_⟩
  · obtain ⟨past, mid, dropped, split, coded, -, marks⟩ := follows.order
    rw [none, List.map_nil, eq_comm, List.map_eq_nil_iff] at coded
    subst coded
    refine ⟨past ++ dropped, [], [], ?_, by rw [empty]; rfl, fun _ => rfl, fun id marked => ?_⟩
    · rw [split, input]
      simp
    · obtain ⟨ev, member, rest⟩ := marks id marked
      exact ⟨ev, List.mem_append_left _ member, rest⟩
  · rw [empty, input, List.map_nil, List.append_nil]
    exact accounted.all id

end Stream

theorem unseen (follows : Follows marshal before published base told broker d)
    (closed : d.stream = none) {next : Broker} (tidy : Broker.Tidy next)
    (input : next.input.buffer = broker.input.buffer ∨
      ∃ ev, broker.input.buffer = ev :: next.input.buffer) :
    Follows marshal before published base told next d := by
  have apart : ∀ other : Broker, ¬ Connected other d := by
    rintro other ⟨c, here, -⟩
    rw [closed] at here
    contradiction
  have coming : incoming next d = incoming broker d := by rw [incoming, incoming, closed]; rfl
  refine ⟨tidy, follows.sane, follows.early, follows.answer, fun c here => ?_, follows.shown, ?_,
    fun here => absurd here (apart next)⟩
  · rw [closed] at here
    contradiction
  · obtain ⟨past, mid, dropped, split, sent, -, marks⟩ := follows.order
    rcases input with same | ⟨ev, taken⟩
    · exact ⟨past, mid, dropped, by rw [split, same], by rw [coming, sent],
        fun here => absurd here (apart next), marks⟩
    · refine ⟨past, mid, dropped ++ [ev], ?_, by rw [coming, sent],
        fun here => absurd here (apart next), marks⟩
      rw [split, taken]
      simp

theorem turned (follows : Follows marshal before published base told broker d) {page : Page ν}
    {next : Broker} {action : Broker.Action} {text : Option String}
    (read : ∀ ev ∈ published, Read marshal page.toBrowser ev)
    (unpublished : ∀ ev, action ≠ .publish ev)
    (room : action = .turn .input → ∀ c ∈ d.stream, Broker.Attached c broker →
      (broker.handlers c).ch.buffer.length < (broker.handlers c).ch.capacity)
    (unmissed : action = .turn .subscribe → ∀ c ∈ d.stream,
      broker.subscribe.buffer.head? = some c → (broker.handlers c).phase = .streaming →
        Accounted before base (told ++ broker.input.buffer.map signal) published)
    (moved : broker.step marshal action = some (next, text)) :
    Follows marshal before published base told next { d with
      wire := d.wire ++ (d.stream.bind fun c => broker.written c action).toList } := by
  have tidy := follows.tidy.step moved
  have unheard : (d.stream.bind fun c => broker.written c action) = none →
      { d with wire := d.wire ++ (d.stream.bind fun c => broker.written c action).toList } = d := by
    intro none
    rw [none, Option.toList_none, List.append_nil]
  rcases Option.eq_none_or_eq_some d.stream with closed | ⟨c, stream⟩
  · have followed := followed_step 0 follows.tidy unpublished moved
    rw [unheard (by rw [closed]; rfl)]
    exact follows.unseen closed tidy followed.input
  · have heard : (d.stream.bind fun c => broker.written c action) = broker.written c action := by
      rw [stream]
      rfl
    have followed := followed_step c follows.tidy unpublished moved
    cases followed with
    | wrote p looping queued input attached fresh =>
        have head : broker.written c (.handler c .receive) = some p := by
          rw [pending_of_looping looping] at queued
          simp [Broker.written, queued]
        rw [heard, head]
        exact follows.wrote stream tidy queued input attached fresh
    | quiet silent queued input attached fresh =>
        rw [unheard (heard.trans silent)]
        exact follows.quiet stream tidy queued input attached fresh
    | taken ev input queued attached fresh =>
        have member : ev ∈ published := by
          obtain ⟨past, mid, dropped, split, -⟩ := follows.order
          rw [split, input]
          simp
        obtain ⟨data, encoded, -⟩ := read ev member
        have sent : fanned marshal ev =
            some ⟨ev.incidentID, "attack." ++ ev.state.text, data⟩ := by
          rw [fanned, encoded]
          rfl
        have typed : "attack." ++ ev.state.text ≠ "" := by
          cases ev.state with
          | started => decide
          | updated => decide
          | ended => decide
        rw [sent] at queued attached
        rw [unheard heard]
        refine follows.taken stream tidy input sent typed queued (fun now => ?_) fresh
        obtain ⟨here, added⟩ := attached now
        exact ⟨here, added (room rfl c stream here)⟩
    | joined waiting fresh looping silent still input =>
        rw [unheard heard]
        exact follows.joined stream tidy fresh silent still input
          (unmissed rfl c stream waiting looping)

end Follows

end Mitigador.Web
