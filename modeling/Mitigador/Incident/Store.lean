import Mathlib.Data.UInt
import Mitigador.Detect.Identity
import Mitigador.Lib.KeyedMap
import Mitigador.Lib.Transaction

/-! The incidents and attack_updates tables (migrations 0008 and 0009) and the store over them
(internal/incident/store.go). Each method is one transaction. -/

namespace Mitigador.Incident

open Go Detect Lib

/-- Whether the text of an address can be cast to inet: that of the zero address and of an address
with a zone cannot. -/
def isInet : Addr → Bool
  | .invalid => false
  | .v4 _ => true
  | .v6 _ zone => zone == ""

theorem isInet_of_contains {cidr : Prefix} {ip : Addr} (inside : cidr.contains ip = true) :
    isInet ip = true := by
  cases ip with
  | invalid => cases cidr <;> contradiction
  | v4 ip => rfl
  | v6 ip zone =>
      cases cidr with
      | invalid | v4 net length => contradiction
      | v6 net length => exact (Bool.and_eq_true_iff.mp inside).1

structure IncidentRow where
  hostIP : Addr
  castable : isInet hostIP = true
  vector : Vector
  hostgroupID : Option Int
  startedAt : Time
  endedAt : Option Time
  peakPps : Int64
  peakBps : Int64
  score : Float
  createdAt : Time

def IncidentRow.key (row : IncidentRow) : Key := ⟨row.hostIP, row.vector⟩

inductive Kind
  | started
  | update
  | ended
  deriving DecidableEq, Repr

structure UpdateRow where
  incidentID : String
  observedAt : Time
  pps : Int64
  bps : Int64
  score : Float
  kind : Kind

/-- The two tables and the identifiers of the hostgroups. The latest row of attack_updates comes
first, and the foreign key holds of every value of this type. -/
structure Database where
  hostgroups : String → Option Int
  incidents : KeyedMap String IncidentRow
  attackUpdates : List UpdateRow
  references : ∀ u ∈ attackUpdates, u.incidentID ∈ incidents

namespace Database

/-- GREATEST over two values that are not null. -/
def greatest (a b : Int64) : Int64 := if a < b then b else a

/-- The statement of `Create` on incidents, ON CONFLICT (id) DO NOTHING. -/
def insertIncident (now : Time) (ev : AttackEvent) (db : Database) : Option Database :=
  if castable : isInet ev.hostIP = true then
    if ev.incidentID ∈ db.incidents then some db
    else some { db with
      incidents := db.incidents.insert ev.incidentID {
        hostIP := ev.hostIP
        castable := castable
        vector := ev.vector
        hostgroupID := db.hostgroups ev.hostgroup
        startedAt := ev.startedAt
        endedAt := none
        peakPps := ev.peakPps.toInt64
        peakBps := ev.peakBps.toInt64
        score := ev.confidence
        createdAt := now }
      references := by
        intro u member
        rw [AList.mem_insert]
        exact Or.inr (db.references u member) }
  else none

def updateIncident (id : String) (set : IncidentRow → IncidentRow) (db : Database) : Database :=
  match db.incidents.lookup id with
  | none => db
  | some row =>
      { db with
        incidents := db.incidents.insert id (set row)
        references := by
          intro u member
          rw [AList.mem_insert]
          exact Or.inr (db.references u member) }

/-- An INSERT into attack_updates, which the foreign key may refuse. -/
def insertUpdate (kind : Kind) (ev : AttackEvent) (db : Database) : Option Database :=
  if present : ev.incidentID ∈ db.incidents then
    some { db with
      attackUpdates := {
        incidentID := ev.incidentID
        observedAt := ev.now
        pps := ev.pps.toInt64
        bps := ev.bps.toInt64
        score := ev.confidence
        kind := kind } :: db.attackUpdates
      references := by
        intro u member
        rcases List.mem_cons.mp member with rfl | earlier
        · exact present
        · exact db.references u earlier }
  else none

end Database

inductive Fault
  | none
  | begin
  | first
  | second
  | commit (applied : Bool)
  deriving DecidableEq, Repr

def Fault.ofCommit : Fault → CommitFault Unit
  | .commit applied => .failed () applied
  | _ => .none

/-- The result of a method: an error is wrapped in a text, that of a commit is not. -/
abbrev Outcome := Except (Option String) Unit

def transact (fault : Fault) (firstText secondText : String)
    (first second : Database → Option Database) (db : Database) : Database × Outcome :=
  if fault = .begin then (db, .error (some "incident: begin"))
  else
    match first db with
    | none => (db, .error (some firstText))
    | some middle =>
        if fault = .first then (db, .error (some firstText))
        else
          match second middle with
          | none => (db, .error (some secondText))
          | some last =>
              if fault = .second then (db, .error (some secondText))
              else fault.ofCommit.settle (fun _ => none) db last ()

namespace Store

def create (fault : Fault) (now : Time) (ev : AttackEvent) (db : Database) : Database × Outcome :=
  transact fault "incident: insert incidents" "incident: insert attack_updates (started)"
    (Database.insertIncident now ev) (Database.insertUpdate .started ev) db

def update (fault : Fault) (ev : AttackEvent) (db : Database) : Database × Outcome :=
  transact fault "incident: update incidents" "incident: insert attack_updates (update)"
    (fun db => some (db.updateIncident ev.incidentID fun row =>
      { row with
        peakPps := Database.greatest row.peakPps ev.peakPps.toInt64
        peakBps := Database.greatest row.peakBps ev.peakBps.toInt64
        score := ev.confidence }))
    (Database.insertUpdate .update ev) db

def endIncident (fault : Fault) (ev : AttackEvent) (db : Database) : Database × Outcome :=
  transact fault "incident: end incidents" "incident: insert attack_updates (ended)"
    (fun db => some (db.updateIncident ev.incidentID fun row =>
      { row with
        endedAt := some ev.endedAt
        peakPps := Database.greatest row.peakPps ev.peakPps.toInt64
        peakBps := Database.greatest row.peakBps ev.peakBps.toInt64
        score := ev.confidence }))
    (Database.insertUpdate .ended ev) db

/-- `Recorder.handle`: the method for the state of an event, whose error is only logged. -/
def handle (fault : Fault) (now : Time) (ev : AttackEvent) (db : Database) : Database :=
  match ev.state with
  | .started => (create fault now ev db).1
  | .updated => (update fault ev db).1
  | .ended => (endIncident fault ev db).1

def closeOrphans (cutoff : Time) (db : Database) : Database × Nat :=
  let orphan (row : IncidentRow) : Bool := row.endedAt.isNone && cutoff.after row.createdAt
  ({ db with
    incidents := KeyedMap.sweep (fun _ row =>
      some (if orphan row then { row with endedAt := some cutoff } else row)) db.incidents
    references := by
      intro u member
      have present := db.references u member
      rw [← AList.lookup_isSome] at present ⊢
      obtain ⟨row, found⟩ := Option.isSome_iff_exists.mp present
      rw [KeyedMap.lookup_sweep, found]
      rfl },
    db.incidents.entries.countP fun entry => orphan entry.2)

def unended (db : Database) : List (String × Time) :=
  db.incidents.entries.filterMap fun entry =>
    if entry.2.endedAt = none then some (entry.1, entry.2.startedAt) else none

/-- The rows of `List` for an active filter with the limit of 500. The ORDER BY leaves rows with
the same start in any order. -/
def listActive (order : List (String × Time)) (db : Database) :
    Option (List (String × IncidentRow)) :=
  if order.Perm (unended db) ∧
      order.Pairwise (fun first second => second.2.ns ≤ first.2.ns) then
    some ((order.take 500).filterMap fun entry =>
      (db.incidents.lookup entry.1).map fun row => (entry.1, row))
  else none

end Store

def Database.rows (db : Database) (id : String) (kind : Kind) : Nat :=
  db.attackUpdates.countP fun u => u.incidentID = id ∧ u.kind = kind

def kindOf : State → Kind
  | .started => .started
  | .updated => .update
  | .ended => .ended

@[simp] theorem kindOf_started : kindOf .started = .started := rfl
@[simp] theorem kindOf_updated : kindOf .updated = .update := rfl
@[simp] theorem kindOf_ended : kindOf .ended = .ended := rfl

/-- Everything that a call of the store can do to the tables: nothing, or its whole transaction,
which adds one row and finds or makes the incident. -/
inductive Handled (ev : AttackEvent) (db next : Database) : Prop
  | refused (same : next = db)
  | opened (started : ev.state = .started) (fresh : ev.incidentID ∉ db.incidents)
      (row : IncidentRow) (host : row.hostIP = ev.hostIP) (vector : row.vector = ev.vector)
      (alive : row.endedAt = none)
      (incidents : next.incidents = db.incidents.insert ev.incidentID row)
      (logged : ∃ u, next.attackUpdates = u :: db.attackUpdates ∧ u.incidentID = ev.incidentID ∧
        u.kind = kindOf ev.state)
  | again (started : ev.state = .started) (known : ev.incidentID ∈ db.incidents)
      (incidents : next.incidents = db.incidents)
      (logged : ∃ u, next.attackUpdates = u :: db.attackUpdates ∧ u.incidentID = ev.incidentID ∧
        u.kind = kindOf ev.state)
  | changed (later : ev.state ≠ .started) (old row : IncidentRow)
      (known : db.incidents.lookup ev.incidentID = some old) (host : row.hostIP = old.hostIP)
      (vector : row.vector = old.vector) (created : row.createdAt = old.createdAt)
      (endedAt : row.endedAt = if ev.state = .ended then some ev.endedAt else old.endedAt)
      (incidents : next.incidents = db.incidents.insert ev.incidentID row)
      (logged : ∃ u, next.attackUpdates = u :: db.attackUpdates ∧ u.incidentID = ev.incidentID ∧
        u.kind = kindOf ev.state)

theorem Handled.lookup_other {ev : AttackEvent} {db next : Database} (handled : Handled ev db next)
    {id : String} (different : ev.incidentID ≠ id) :
    next.incidents.lookup id = db.incidents.lookup id := by
  cases handled with
  | refused same => rw [same]
  | again _ _ incidents => rw [incidents]
  | opened _ _ _ _ _ _ incidents | changed _ _ _ _ _ _ _ _ incidents =>
      rw [incidents, AList.lookup_insert_ne different.symm]

theorem Handled.known_or_started {ev : AttackEvent} {db next : Database}
    (handled : Handled ev db next) {id : String} (present : id ∈ next.incidents) :
    id ∈ db.incidents ∨ ev.state = .started ∧ ev.incidentID = id := by
  cases handled with
  | refused same => exact .inl (same ▸ present)
  | again _ _ incidents => exact .inl (incidents ▸ present)
  | opened started _ _ _ _ _ incidents =>
      rw [incidents, AList.mem_insert] at present
      exact present.symm.imp_right fun own => ⟨started, own.symm⟩
  | changed _ old _ known _ _ _ _ incidents =>
      rw [incidents, AList.mem_insert] at present
      rcases present with rfl | earlier
      · exact .inl (AList.lookup_isSome.mp (by rw [known]; rfl))
      · exact .inl earlier

theorem transact_cases (fault : Fault) (firstText secondText : String)
    (first second : Database → Option Database) (db : Database) :
    (transact fault firstText secondText first second db).1 = db ∨
      ∃ middle, first db = some middle ∧
        second middle = some (transact fault firstText secondText first second db).1 := by
  unfold transact
  split
  · exact .inl rfl
  · split
    · exact .inl rfl
    · next middle opened =>
        split
        · exact .inl rfl
        · split
          · exact .inl rfl
          · next last closed =>
              split
              · exact .inl rfl
              · rw [CommitFault.settle_fst]
                split
                · exact .inr ⟨middle, opened, closed⟩
                · exact .inl rfl

namespace Database

theorem insertUpdate_spec {kind : Kind} {ev : AttackEvent} {db next : Database}
    (inserted : db.insertUpdate kind ev = some next) :
    ev.incidentID ∈ db.incidents ∧ next.incidents = db.incidents ∧
      ∃ u, next.attackUpdates = u :: db.attackUpdates ∧ u.incidentID = ev.incidentID ∧
        u.kind = kind := by
  unfold insertUpdate at inserted
  split at inserted
  · next present =>
      cases inserted
      exact ⟨present, rfl, _, rfl, rfl, rfl⟩
  · contradiction

theorem insertIncident_spec {now : Time} {ev : AttackEvent} {db next : Database}
    (inserted : db.insertIncident now ev = some next) :
    (ev.incidentID ∈ db.incidents ∧ next = db) ∨
      (ev.incidentID ∉ db.incidents ∧ next.attackUpdates = db.attackUpdates ∧
        ∃ row : IncidentRow, row.hostIP = ev.hostIP ∧ row.vector = ev.vector ∧
          row.endedAt = none ∧ row.createdAt = now ∧
          next.incidents = db.incidents.insert ev.incidentID row) := by
  unfold insertIncident at inserted
  split at inserted
  · next castable =>
      split at inserted
      · next known =>
          cases inserted
          exact .inl ⟨known, rfl⟩
      · next fresh =>
          cases inserted
          exact .inr ⟨fresh, rfl, _, rfl, rfl, rfl, rfl, rfl⟩
  · contradiction

theorem updateIncident_spec (id : String) (set : IncidentRow → IncidentRow) (db : Database) :
    (id ∉ db.incidents ∧ db.updateIncident id set = db) ∨
      ∃ row, db.incidents.lookup id = some row ∧
        (db.updateIncident id set).incidents = db.incidents.insert id (set row) ∧
        (db.updateIncident id set).attackUpdates = db.attackUpdates := by
  unfold updateIncident
  split
  · next missing => exact .inl ⟨AList.lookup_eq_none.mp missing, rfl⟩
  · next row known => exact .inr ⟨row, known, rfl, rfl⟩

end Database

namespace Store

theorem changed_cases (fault : Fault) (firstText secondText : String) (ev : AttackEvent)
    (set : IncidentRow → IncidentRow) (db : Database) (later : ev.state ≠ .started)
    (host : ∀ row, (set row).hostIP = row.hostIP) (vector : ∀ row, (set row).vector = row.vector)
    (created : ∀ row, (set row).createdAt = row.createdAt)
    (endedAt : ∀ row, (set row).endedAt =
      if ev.state = .ended then some ev.endedAt else row.endedAt) :
    Handled ev db (transact fault firstText secondText
      (fun db => some (db.updateIncident ev.incidentID set))
      (Database.insertUpdate (kindOf ev.state) ev) db).1 := by
  rcases transact_cases fault firstText secondText
    (fun db => some (db.updateIncident ev.incidentID set))
    (Database.insertUpdate (kindOf ev.state) ev) db with same | ⟨middle, opened, closed⟩
  · exact .refused same
  · obtain rfl : db.updateIncident ev.incidentID set = middle := Option.some.inj opened
    obtain ⟨present, incidents, logged⟩ := Database.insertUpdate_spec closed
    rcases db.updateIncident_spec ev.incidentID set with ⟨missing, same⟩ | ⟨row, known, put, kept⟩
    · rw [same] at present
      exact absurd present missing
    · rw [kept] at logged
      exact .changed later row (set row) known (host row) (vector row) (created row) (endedAt row)
        (incidents.trans put) logged

theorem handle_cases (fault : Fault) (now : Time) (ev : AttackEvent) (db : Database) :
    Handled ev db (handle fault now ev db) := by
  cases state : ev.state with
  | started =>
      simp only [handle, state, create]
      rcases transact_cases fault "incident: insert incidents"
        "incident: insert attack_updates (started)" (Database.insertIncident now ev)
        (Database.insertUpdate .started ev) db with same | ⟨middle, opened, closed⟩
      · exact .refused same
      · obtain ⟨-, incidents, logged⟩ := Database.insertUpdate_spec closed
        rcases Database.insertIncident_spec opened with
          ⟨known, rfl⟩ | ⟨fresh, kept, row, host, vector, alive, -, put⟩
        · exact .again state known incidents (by simpa [state, kindOf] using logged)
        · rw [kept] at logged
          exact .opened state fresh row host vector alive (incidents.trans put)
            (by simpa [state, kindOf] using logged)
  | updated =>
      have changed := changed_cases fault "incident: update incidents"
        "incident: insert attack_updates (update)" ev (fun row => { row with
          peakPps := Database.greatest row.peakPps ev.peakPps.toInt64
          peakBps := Database.greatest row.peakBps ev.peakBps.toInt64
          score := ev.confidence }) db (by simp [state]) (fun _ => rfl) (fun _ => rfl)
        (fun _ => rfl) (fun _ => by simp [state])
      simpa [handle, update, state, kindOf] using changed
  | ended =>
      have changed := changed_cases fault "incident: end incidents"
        "incident: insert attack_updates (ended)" ev (fun row => { row with
          endedAt := some ev.endedAt
          peakPps := Database.greatest row.peakPps ev.peakPps.toInt64
          peakBps := Database.greatest row.peakBps ev.peakBps.toInt64
          score := ev.confidence }) db (by simp [state]) (fun _ => rfl) (fun _ => rfl)
        (fun _ => rfl) (fun _ => by simp [state])
      simpa [handle, endIncident, state, kindOf] using changed

theorem mem_unended {db : Database} {id : String} {start : Time}
    (listed : (id, start) ∈ unended db) :
    ∃ row, db.incidents.lookup id = some row ∧ row.endedAt = none := by
  obtain ⟨entry, member, kept⟩ := List.mem_filterMap.mp listed
  split at kept
  · next alive =>
      cases kept
      exact ⟨entry.2, (KeyedMap.mem_entries ..).mp member, alive⟩
  · contradiction

theorem unended_nodup (db : Database) : ((unended db).map Prod.fst).Nodup := by
  have part : ((unended db).map Prod.fst).Sublist db.incidents.keys := by
    unfold unended AList.keys List.keys
    induction db.incidents.entries with
    | nil => exact List.Sublist.refl _
    | cons entry rest ih =>
        by_cases alive : entry.2.endedAt = none
        · simp only [List.filterMap_cons, if_pos alive, List.map_cons]
          exact ih.cons_cons _
        · simp only [List.filterMap_cons, if_neg alive, List.map_cons]
          exact ih.cons _
  exact part.nodup db.incidents.keys_nodup

theorem listActive_spec {order : List (String × Time)} {db : Database}
    {rows : List (String × IncidentRow)} (listed : listActive order db = some rows) :
    (rows.map Prod.fst).Nodup ∧ ∀ entry ∈ rows, entry.2.endedAt = none := by
  unfold listActive at listed
  split at listed
  · next ordered =>
      cases listed
      constructor
      · have part : (((order.take 500).filterMap fun entry =>
            (db.incidents.lookup entry.1).map fun row => (entry.1, row)).map Prod.fst).Sublist
            ((order.take 500).map Prod.fst) := by
          induction order.take 500 with
          | nil => exact List.Sublist.refl _
          | cons entry rest ih =>
              cases found : db.incidents.lookup entry.1 with
              | none =>
                  simp only [List.filterMap_cons, found, Option.map_none, List.map_cons]
                  exact ih.cons _
              | some row =>
                  simp only [List.filterMap_cons, found, Option.map_some, List.map_cons]
                  exact ih.cons_cons _
        have distinct := (ordered.1.map Prod.fst).nodup_iff.mpr (unended_nodup db)
        exact (part.trans ((List.take_sublist ..).map _)).nodup distinct
      · intro entry member
        obtain ⟨⟨id, start⟩, here, found⟩ := List.mem_filterMap.mp member
        obtain ⟨row, known, rfl⟩ := Option.map_eq_some_iff.mp found
        obtain ⟨same, present, alive⟩ :=
          mem_unended (ordered.1.mem_iff.mp (List.mem_of_mem_take here))
        rw [present] at known
        cases known
        exact alive
  · contradiction

theorem endIncident_closes {ev : AttackEvent} {db : Database} {row : IncidentRow}
    (found : (endIncident .none ev db).1.incidents.lookup ev.incidentID = some row) :
    row.endedAt = some ev.endedAt := by
  unfold endIncident transact at found
  simp only [reduceCtorEq, if_false, Database.updateIncident] at found
  cases known : db.incidents.lookup ev.incidentID with
  | none =>
      have missing := AList.lookup_eq_none.mp known
      simp [known, Database.insertUpdate, missing] at found
  | some old =>
      simp only [known, Database.insertUpdate, AList.mem_insert, true_or, dite_true, Fault.ofCommit,
        CommitFault.settle, AList.lookup_insert, Option.some.injEq] at found
      rw [← found]

theorem create_opens (now : Time) {ev : AttackEvent} {db : Database}
    (castable : isInet ev.hostIP = true) (fresh : ev.incidentID ∉ db.incidents) :
    ∃ row : IncidentRow, row.key = ev.key ∧ row.endedAt = none ∧
      (create .none now ev db).1.incidents = db.incidents.insert ev.incidentID row := by
  unfold create transact
  simp only [reduceCtorEq, if_false, Database.insertIncident, dif_pos castable, if_neg fresh,
    Database.insertUpdate, AList.mem_insert, true_or, dite_true]
  exact ⟨_, rfl, rfl, rfl⟩

end Store

end Mitigador.Incident
