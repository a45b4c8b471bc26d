import Mitigador.Detect.Identity
import Mitigador.Incident.Store
import Mitigador.Web.Stream

/-! The dashboard (web/src/views/DashboardView.vue, stores/incidents.ts and api/sse.ts) next to the
parts of the server that it shows: the state machine, the recorder and its tables, the broker. -/

namespace Mitigador.Web

open Go Detect Api Lib

variable {ρ ν : Type*}

/-- The browser on the answers of the API: the counters of the tables are signed there, and the
query joins the names of the hostgroups. -/
structure Page (ν : Type*) extends Browser ν where
  figure : Int64 → ν
  hostgroup : Int → String

/-- An item of GET /api/incidents; what the server writes as null is left out. -/
def Page.item (page : Page ν) (id : String) (row : Incident.IncidentRow) : Object ν :=
  [("id", .string id),
    ("host_ip", .string row.hostIP.text),
    ("vector", .string row.vector.text),
    ("hostgroup", .string ((row.hostgroupID.map page.hostgroup).getD "")),
    ("started_at", .string (page.time row.startedAt)),
    ("peak_pps", .number (page.figure row.peakPps)),
    ("peak_bps", .number (page.figure row.peakBps)),
    ("score", .number (page.ratio row.score))] ++
    (row.endedAt.map fun t => ("ended_at", .string (page.time t))).toList

def ActiveAttack.ofItem (i : Object ν) : ActiveAttack ν where
  incidentId := i.field "id"
  hostIp := i.field "host_ip"
  vector := i.field "vector"
  hostgroup := i.field "hostgroup"
  pps := i.field "peak_pps"
  bps := i.field "peak_bps"
  peakPps := i.field "peak_pps"
  peakBps := i.field "peak_bps"
  confidence := i.field "score"
  startedAt := i.field "started_at"
  ended := (i.field "ended_at").isSome

/-- The request of `loadActiveSnapshot`: on its way to the server, on its way back with what the
server has read, over. -/
inductive Load
  | asked
  | answered (rows : List (String × Incident.IncidentRow))
  | done

/-- `fading` holds the running timers, `stream` the handler of the open connection, and `wire` what
this handler has written and the page has not yet been given. -/
structure Dashboard (ν : Type*) where
  load : Load
  active : List (ActiveAttack ν)
  fading : List (Scalar ν)
  stream : Option Nat
  wire : List SsePayload

namespace Dashboard

def mounted : Dashboard ν := ⟨.asked, [], [], none, []⟩

def loadActiveSnapshot (page : Page ν) (rows : List (String × Incident.IncidentRow))
    (d : Dashboard ν) : Dashboard ν :=
  { d with
    load := .done
    active := rows.map fun entry => .ofItem (page.item entry.1 entry.2) }

/-- The timer that `onSSEMessage` sets; an identifier that is no text would be truthy too. -/
def timer (page : Page ν) (p : SsePayload) : Option (Scalar ν) :=
  if p.type = "attack.ended" then
    match (page.parse p.data).bind fun ev => ev.field "incident_id" with
    | none | some (.string "") => none
    | some id => some id
  else none

def onSSEMessage [DecidableEq ν] (page : Page ν) (p : SsePayload) (d : Dashboard ν) :
    Dashboard ν :=
  { d with
    active := page.onMessage p d.active
    fading := d.fading ++ (timer page p).toList }

def expire [DecidableEq ν] (n : Nat) (d : Dashboard ν) : Option (Dashboard ν) :=
  (d.fading[n]?).map fun id =>
    { d with
      fading := d.fading.eraseIdx n
      active := d.active.eraseP fun a => a.incidentId = some id }

def shown (d : Dashboard ν) : Set (Option (Scalar ν)) :=
  { id | ∃ row ∈ d.active, row.ended = false ∧ row.incidentId = id }

end Dashboard

/-- The bus between the state machine and its two readers is taken for granted: what it hands to
the recorder and to the broker waits in their channels. -/
structure System (ρ ν : Type*) where
  sm : StateMachine ρ
  recorder : Chan AttackEvent
  db : Incident.Database
  broker : Broker
  dashboard : Dashboard ν

inductive Action
  | call (k : Key) (i : Input) (t : Threshold)
  | record (now : Time)
  | read (order : List (String × Time))
  | reply
  | fail
  | connect (c : Nat)
  | lose
  | broker (action : Broker.Action)
  | deliver
  | expire (n : Nat)

inductive Seen
  | nothing
  | published (ev : AttackEvent)
  | delivered (p : SsePayload)

namespace System

def start (rnd : ρ) (db : Incident.Database) (capacity input : Nat) : System ρ ν :=
  ⟨StateMachine.new rnd, Chan.make capacity, db, Broker.new (Chan.make input), .mounted⟩

variable [DecidableEq ν] (newULID : ρ → Time → String × ρ)
  (marshal : List (String × Value) → Option String) (page : Page ν)

/-- The engine steps a key only by a threshold whose prefix contains the host, and a page connects
only when `loadSummary` is over. -/
def step (s : System ρ ν) : Action → Option (System ρ ν × Seen)
  | .call k i t =>
      if t.cidr.contains k.hostIP then
        match s.sm.step newULID k i t with
        | none => none
        | some (sm, none) => some ({ s with sm := sm }, .nothing)
        | some (sm, some ev) =>
            match s.recorder.offer ev, s.broker.input.offer ev with
            | some (recorder, _), some (input, _) =>
                some ({ s with
                  sm := sm
                  recorder := recorder
                  broker := { s.broker with input := input } }, .published ev)
            | _, _ => none
      else none
  | .record now =>
      match s.recorder.receive with
      | some (some ev, recorder) =>
          some ({ s with
            recorder := recorder
            db := Incident.Store.handle .none now ev s.db }, .nothing)
      | _ => none
  | .read order =>
      match s.dashboard.load, Incident.Store.listActive order s.db with
      | .asked, some rows =>
          some ({ s with dashboard := { s.dashboard with load := .answered rows } }, .nothing)
      | _, _ => none
  | .reply =>
      match s.dashboard.load with
      | .answered rows =>
          some ({ s with dashboard := s.dashboard.loadActiveSnapshot page rows }, .nothing)
      | _ => none
  | .fail =>
      match s.dashboard.load with
      | .done => none
      | _ => some ({ s with dashboard := { s.dashboard with load := .done } }, .nothing)
  | .connect c =>
      match s.dashboard.load, s.dashboard.stream, s.broker.step marshal (.connect c) with
      | .done, none, some (broker, _) =>
          some ({ s with
            broker := broker
            dashboard := { s.dashboard with stream := some c, wire := [] } }, .nothing)
      | _, _, _ => none
  | .lose =>
      match s.dashboard.stream with
      | none => none
      | some _ =>
          some ({ s with dashboard := { s.dashboard with stream := none, wire := [] } }, .nothing)
  | .broker (.publish _) => none
  | .broker action =>
      match s.broker.step marshal action with
      | none => none
      | some (broker, _) =>
          let heard := s.dashboard.stream.bind fun c => Broker.written c s.broker action
          some ({ s with
            broker := broker
            dashboard := { s.dashboard with wire := s.dashboard.wire ++ heard.toList } }, .nothing)
  | .deliver =>
      match s.dashboard.wire with
      | [] => none
      | p :: rest =>
          let dashboard := { s.dashboard with wire := rest }
          some ({ s with dashboard := dashboard.onSSEMessage page p }, .delivered p)
  | .expire n =>
      (s.dashboard.expire n).map fun dashboard => ({ s with dashboard := dashboard }, .nothing)

end System

end Mitigador.Web
