import Mitigador.Incident.Store

/-! Reading the two tables back (`List` and `Get` in internal/incident/store.go). A timestamptz
keeps microseconds. -/

namespace Mitigador.Incident

open Go Detect Lib

structure Listed where
  id : String
  hostIP : Addr
  vector : Vector
  hostgroup : String
  startedAt : Time
  endedAt : Option Time
  peakPps : UInt64
  peakBps : UInt64
  score : Float

structure UpdateListed where
  incidentID : String
  observedAt : Time
  pps : UInt64
  bps : UInt64
  score : Float
  kind : Kind

/-- A filter; `before` is the field `Until`. -/
structure Filter where
  hostIP : Option Addr
  vector : Option Vector
  since : Option Time
  before : Option Time
  activeOnly : Bool
  limit : Int
  offset : Int

structure ListResult where
  items : List Listed
  total : Nat

def micros (t : Time) : Int := t.ns / 1000

/-- Scanning a BIGINT into a uint64: a negative value is an error. -/
def scanUint64 (x : Int64) : Option UInt64 := if x < 0 then none else some x.toUInt64

/-- `rows.Scan` of a row of incidents; `names` is the left join with hostgroups. -/
def scanIncident (names : Int → Option String) (id : String) (row : IncidentRow) :
    Option Listed := do
  let peakPps ← scanUint64 row.peakPps
  let peakBps ← scanUint64 row.peakBps
  return {
    id := id
    hostIP := row.hostIP
    vector := row.vector
    hostgroup := (row.hostgroupID.bind names).getD ""
    startedAt := row.startedAt
    endedAt := row.endedAt
    peakPps := peakPps
    peakBps := peakBps
    score := row.score }

def scanUpdate (u : UpdateRow) : Option UpdateListed := do
  let pps ← scanUint64 u.pps
  let bps ← scanUint64 u.bps
  return ⟨u.incidentID, u.observedAt, pps, bps, u.score, u.kind⟩

namespace Filter

/-- The limit after its default and its clamp. -/
def pageSize (f : Filter) : Nat :=
  let limit := if f.limit ≤ 0 then 50 else f.limit
  (if limit > 500 then 500 else limit).toNat

def accepts (f : Filter) (row : IncidentRow) : Bool :=
  (f.hostIP.all fun ip => row.hostIP = ip) && (f.vector.all fun vector => row.vector = vector) &&
    (f.since.all fun t => micros t ≤ micros row.startedAt) &&
    (f.before.all fun t => micros row.startedAt < micros t) &&
    (!f.activeOnly || row.endedAt.isNone)

/-- A filter that Postgres can evaluate: the text of its host is an inet. -/
def WellFormed (f : Filter) : Prop := (∀ ip ∈ f.hostIP, isInet ip = true) ∧ 0 ≤ f.offset

instance (f : Filter) : Decidable f.WellFormed := inferInstanceAs (Decidable (_ ∧ _))

end Filter

abbrev TableRow := Sigma fun _ : String => IncidentRow

namespace Store

def readPage (names : Int → Option String) (f : Filter) (order : List TableRow) :
    Except String ListResult :=
  if f.hostIP.any fun ip => !isInet ip then .error "incident: list count"
  else if f.offset < 0 then .error "incident: list rows"
  else
    let page := (order.drop f.offset.toNat).take f.pageSize
    match page.mapM fun entry => scanIncident names entry.1 entry.2 with
    | none => .error "incident: list scan"
    | some items => .ok ⟨items, order.length⟩

/-- The results that `List` may have: its ORDER BY started_at DESC leaves ties open. -/
def Lists (names : Int → Option String) (f : Filter) (db : Database)
    (result : Except String ListResult) : Prop :=
  ∃ order : List TableRow,
    order.Perm (db.incidents.entries.filter fun entry => f.accepts entry.2) ∧
    order.Pairwise (fun first second => micros second.2.startedAt ≤ micros first.2.startedAt) ∧
    result = readPage names f order

def readIncident (names : Int → Option String) (id : String) (db : Database)
    (order : List UpdateRow) : Except String (Listed × List UpdateListed) :=
  match db.incidents.lookup id with
  | none => .error "incident: not found"
  | some row =>
      match scanIncident names id row with
      | none => .error "incident: get"
      | some inc =>
          match order.mapM scanUpdate with
          | none => .error "incident: get updates scan"
          | some updates => .ok (inc, updates)

/-- The results that `Get` may have, updates of one instant in any order. -/
def Gets (names : Int → Option String) (id : String) (db : Database)
    (result : Except String (Listed × List UpdateListed)) : Prop :=
  ∃ order : List UpdateRow,
    order.Perm (db.attackUpdates.filter fun u => u.incidentID = id) ∧
    order.Pairwise (fun first second => micros first.observedAt ≤ micros second.observedAt) ∧
    result = readIncident names id db order

end Store

end Mitigador.Incident
