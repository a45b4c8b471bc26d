import Mitigador.Incident.Listing
import Mitigador.Lib.Run

/-! The counters of an incident on their way through BIGINT columns and back. -/

namespace Mitigador.Incident

open Go Detect Lib

structure Write where
  fault : Fault
  now : Time
  ev : AttackEvent

namespace Store

def call (w : Write) (db : Database) : Database × Outcome :=
  match w.ev.state with
  | .started => create w.fault w.now w.ev db
  | .updated => update w.fault w.ev db
  | .ended => endIncident w.fault w.ev db

def write (db : Database) (w : Write) : Option (Database × AttackEvent) :=
  match call w db with
  | (next, .ok ()) => some (next, w.ev)
  | (_, .error _) => none

end Store

abbrev Writes := List (Entry Database Write AttackEvent)

def applied (trace : Writes) : List AttackEvent := trace.map Entry.output

structure Logged (u : UpdateRow) (ev : AttackEvent) : Prop where
  id : u.incidentID = ev.incidentID
  pps : u.pps = ev.pps.toInt64
  bps : u.bps = ev.bps.toInt64

inductive Wrote (ev : AttackEvent) (db next : Database) : Prop
  | opened (started : ev.state = .started) (fresh : ev.incidentID ∉ db.incidents)
      (row : IncidentRow) (pps : row.peakPps = ev.peakPps.toInt64)
      (bps : row.peakBps = ev.peakBps.toInt64)
      (incidents : next.incidents = db.incidents.insert ev.incidentID row)
  | again (started : ev.state = .started) (known : ev.incidentID ∈ db.incidents)
      (incidents : next.incidents = db.incidents)
  | changed (later : ev.state ≠ .started) (old row : IncidentRow)
      (known : db.incidents.lookup ev.incidentID = some old)
      (pps : row.peakPps = Database.greatest old.peakPps ev.peakPps.toInt64)
      (bps : row.peakBps = Database.greatest old.peakBps ev.peakBps.toInt64)
      (incidents : next.incidents = db.incidents.insert ev.incidentID row)

theorem transact_ok {fault : Fault} {firstText secondText : String}
    {first second : Database → Option Database} {db next : Database}
    (done : transact fault firstText secondText first second db = (next, .ok ())) :
    ∃ middle, first db = some middle ∧ second middle = some next := by
  unfold transact at done
  split at done
  · cases done
  · split at done
    · cases done
    · next middle opened =>
        split at done
        · cases done
        · split at done
          · cases done
          · next last closed =>
              split at done
              · cases done
              · obtain ⟨rfl, -⟩ := CommitFault.settle_ok done
                exact ⟨middle, opened, closed⟩

theorem insertUpdate_logged {kind : Kind} {ev : AttackEvent} {db next : Database}
    (inserted : db.insertUpdate kind ev = some next) :
    ev.incidentID ∈ db.incidents ∧ next.incidents = db.incidents ∧
      ∃ u, next.attackUpdates = u :: db.attackUpdates ∧ Logged u ev := by
  unfold Database.insertUpdate at inserted
  split at inserted
  · next present =>
      cases inserted
      exact ⟨present, rfl, _, rfl, rfl, rfl, rfl⟩
  · contradiction

theorem wrote_changed {fault : Fault} {firstText secondText : String} {kind : Kind}
    {ev : AttackEvent} {set : IncidentRow → IncidentRow} {db next : Database}
    (later : ev.state ≠ .started)
    (pps : ∀ row, (set row).peakPps = Database.greatest row.peakPps ev.peakPps.toInt64)
    (bps : ∀ row, (set row).peakBps = Database.greatest row.peakBps ev.peakBps.toInt64)
    (done : transact fault firstText secondText
      (fun db => some (db.updateIncident ev.incidentID set)) (Database.insertUpdate kind ev) db =
        (next, .ok ())) :
    Wrote ev db next ∧ ∃ u, next.attackUpdates = u :: db.attackUpdates ∧ Logged u ev := by
  obtain ⟨middle, opened, closed⟩ := transact_ok done
  obtain rfl : db.updateIncident ev.incidentID set = middle := Option.some.inj opened
  obtain ⟨present, incidents, logged⟩ := insertUpdate_logged closed
  rcases Database.updateIncident_spec ev.incidentID set db with ⟨missing, same⟩ | changed
  · rw [same] at present
    exact absurd present missing
  · obtain ⟨old, known, put, kept⟩ := changed
    rw [kept] at logged
    exact ⟨.changed later old (set old) known (pps old) (bps old) (incidents.trans put), logged⟩

theorem write_spec {db next : Database} {w : Write} {ev : AttackEvent}
    (written : Store.write db w = some (next, ev)) :
    ev = w.ev ∧ Wrote ev db next ∧
      ∃ u, next.attackUpdates = u :: db.attackUpdates ∧ Logged u ev := by
  unfold Store.write at written
  split at written
  · next made done =>
      cases written
      refine ⟨rfl, ?_⟩
      unfold Store.call at done
      split at done
      · next started =>
          obtain ⟨middle, opened, closed⟩ := transact_ok done
          obtain ⟨present, incidents, logged⟩ := insertUpdate_logged closed
          unfold Database.insertIncident at opened
          split at opened
          · split at opened
            · next known =>
                cases opened
                exact ⟨.again started known incidents, logged⟩
            · next fresh =>
                cases opened
                exact ⟨.opened started fresh _ rfl rfl incidents, logged⟩
          · contradiction
      · next updated =>
          have later : w.ev.state ≠ .started := by simp [updated]
          exact wrote_changed later (fun _ => rfl) (fun _ => rfl) done
      · next ended =>
          have later : w.ev.state ≠ .started := by simp [ended]
          exact wrote_changed later (fun _ => rfl) (fun _ => rfl) done
  · contradiction

/-! What the tables hold after some writes. -/

/-- The stored value is the signed maximum of the values written. -/
structure SignedPeak (stored : Int64) (values : List Int64) : Prop where
  among : stored ∈ values
  above : ∀ x ∈ values, x ≤ stored

theorem signedPeak_single (x : Int64) : SignedPeak x [x] where
  among := List.mem_singleton_self x
  above := by
    intro y member
    rw [List.mem_singleton.mp member]
    exact Int64.le_refl _

theorem SignedPeak.cons {stored : Int64} {values : List Int64} (peak : SignedPeak stored values)
    (x : Int64) : SignedPeak (Database.greatest stored x) (x :: values) := by
  unfold Database.greatest
  by_cases more : stored < x
  · rw [if_pos more]
    constructor
    · exact List.mem_cons_self
    · intro z listed
      rcases List.mem_cons.mp listed with rfl | older
      · exact Int64.le_refl _
      · exact Int64.le_trans (peak.above z older) (Int64.le_of_lt more)
  · rw [if_neg more]
    constructor
    · exact List.mem_cons_of_mem x peak.among
    · intro z listed
      rcases List.mem_cons.mp listed with rfl | older
      · exact Int64.not_lt.mp more
      · exact peak.above z older

/-- The signed maximum is negative only where every value is. -/
theorem SignedPeak.negative_iff {stored : Int64} {values : List Int64}
    (peak : SignedPeak stored values) : stored < 0 ↔ ∀ x ∈ values, x < 0 := by
  constructor
  · intro negative x listed
    exact Int64.lt_of_le_of_lt (peak.above x listed) negative
  · intro every
    exact every stored peak.among

def eventsOfIncident (id : String) (events : List AttackEvent) : List AttackEvent :=
  events.filter fun ev => ev.incidentID = id

theorem mem_eventsOfIncident {id : String} {events : List AttackEvent} {ev : AttackEvent} :
    ev ∈ eventsOfIncident id events ↔ ev ∈ events ∧ ev.incidentID = id := by
  simp [eventsOfIncident]

theorem eventsOfIncident_own (ev : AttackEvent) (events : List AttackEvent) :
    eventsOfIncident ev.incidentID (ev :: events) =
      ev :: eventsOfIncident ev.incidentID events := by
  simp [eventsOfIncident]

theorem eventsOfIncident_other {ev : AttackEvent} {id : String} (different : ev.incidentID ≠ id)
    (events : List AttackEvent) :
    eventsOfIncident id (ev :: events) = eventsOfIncident id events := by
  simp [eventsOfIncident, different]

/-- The values written to a counter of an incident: those of its events, and the one that its row
had in the tables at the start. -/
def valuesOf (start : Database) (column : IncidentRow → Int64) (counter : AttackEvent → UInt64)
    (id : String) (events : List AttackEvent) : List Int64 :=
  (eventsOfIncident id events).map (fun ev => (counter ev).toInt64) ++
    ((start.incidents.lookup id).map column).toList

structure Peaks (start : Database) (id : String) (events : List AttackEvent)
    (row : IncidentRow) : Prop where
  pps : SignedPeak row.peakPps (valuesOf start IncidentRow.peakPps AttackEvent.peakPps id events)
  bps : SignedPeak row.peakBps (valuesOf start IncidentRow.peakBps AttackEvent.peakBps id events)

/-- Each incident starts once, with an identifier that the tables did not have. -/
def Begun (start : Database) (events : List AttackEvent) : Prop :=
  (issued events).Nodup ∧ ∀ id ∈ issued events, id ∉ start.incidents

structure Holds (start : Database) (events : List AttackEvent) (db : Database) : Prop where
  known : ∀ id, id ∈ db.incidents ↔ id ∈ issued events ∨ id ∈ start.incidents
  peaks : ∀ id row, db.incidents.lookup id = some row → Peaks start id events row
  owned : ∀ ev ∈ events, ev.incidentID ∈ db.incidents
  log : ∃ added, db.attackUpdates = added ++ start.attackUpdates ∧
    List.Forall₂ Logged added events

theorem valuesOf_own (start : Database) (column : IncidentRow → Int64)
    (counter : AttackEvent → UInt64) (ev : AttackEvent) (events : List AttackEvent) :
    valuesOf start column counter ev.incidentID (ev :: events) =
      (counter ev).toInt64 :: valuesOf start column counter ev.incidentID events := by
  simp [valuesOf, eventsOfIncident_own]

theorem valuesOf_other (start : Database) (column : IncidentRow → Int64)
    (counter : AttackEvent → UInt64) {ev : AttackEvent} {id : String}
    (different : ev.incidentID ≠ id) (events : List AttackEvent) :
    valuesOf start column counter id (ev :: events) = valuesOf start column counter id events := by
  simp [valuesOf, eventsOfIncident_other different]

theorem Peaks.other {start : Database} {ev : AttackEvent} {id : String}
    {events : List AttackEvent} {row : IncidentRow} (peaks : Peaks start id events row)
    (different : ev.incidentID ≠ id) : Peaks start id (ev :: events) row where
  pps := by
    rw [valuesOf_other _ _ _ different]
    exact peaks.pps
  bps := by
    rw [valuesOf_other _ _ _ different]
    exact peaks.bps

theorem peaks_opened {start : Database} {ev : AttackEvent} {events : List AttackEvent}
    {row : IncidentRow} (missing : ev.incidentID ∉ start.incidents)
    (first : eventsOfIncident ev.incidentID events = [])
    (pps : row.peakPps = ev.peakPps.toInt64) (bps : row.peakBps = ev.peakBps.toInt64) :
    Peaks start ev.incidentID (ev :: events) row := by
  have absent : start.incidents.lookup ev.incidentID = none := AList.lookup_eq_none.mpr missing
  constructor
  · rw [pps, valuesOf_own]
    simpa [valuesOf, first, absent] using signedPeak_single ev.peakPps.toInt64
  · rw [bps, valuesOf_own]
    simpa [valuesOf, first, absent] using signedPeak_single ev.peakBps.toInt64

theorem issued_cons_started {ev : AttackEvent} (started : ev.state = .started)
    (events : List AttackEvent) : issued (ev :: events) = ev.incidentID :: issued events := by
  simp [issued, started]

theorem issued_cons_later {ev : AttackEvent} (later : ev.state ≠ .started)
    (events : List AttackEvent) : issued (ev :: events) = issued events := by
  simp [issued, later]

theorem Begun.tail {start : Database} {ev : AttackEvent} {events : List AttackEvent}
    (begun : Begun start (ev :: events)) : Begun start events := by
  have part : (issued events).Sublist (issued (ev :: events)) :=
    ((List.sublist_cons_self ev events).filter _).map _
  exact ⟨begun.1.sublist part, fun id member => begun.2 id (part.subset member)⟩

theorem holds_start (start : Database) : Holds start [] start where
  known _ := by simp [issued]
  peaks id row known := by
    constructor <;> simpa [valuesOf, eventsOfIncident, known] using signedPeak_single _
  owned _ impossible := by contradiction
  log := ⟨[], rfl, .nil⟩

theorem Holds.write {start db next : Database} {events : List AttackEvent} {w : Write}
    {ev : AttackEvent} (holds : Holds start events db)
    (done : Store.write db w = some (next, ev)) (begun : Begun start (ev :: events)) :
    Holds start (ev :: events) next := by
  obtain ⟨-, wrote, u, rows, logged⟩ := write_spec done
  obtain ⟨added, older, matched⟩ := holds.log
  have log : ∃ added, next.attackUpdates = added ++ start.attackUpdates ∧
      List.Forall₂ Logged added (ev :: events) :=
    ⟨u :: added, by rw [rows, older, List.cons_append], .cons logged matched⟩
  cases wrote with
  | again started known incidents =>
      -- an identifier that a Started event brings is new
      rw [Begun, issued_cons_started started] at begun
      rcases (holds.known _).mp known with earlier | old
      · exact absurd earlier (List.nodup_cons.mp begun.1).1
      · exact absurd old (begun.2 _ List.mem_cons_self)
  | opened started fresh row pps bps incidents =>
      have missing : ev.incidentID ∉ start.incidents := fun old =>
        fresh ((holds.known _).mpr (.inr old))
      have first : eventsOfIncident ev.incidentID events = [] := by
        rw [List.eq_nil_iff_forall_not_mem]
        intro other member
        obtain ⟨earlier, same⟩ := mem_eventsOfIncident.mp member
        exact fresh (same ▸ holds.owned other earlier)
      constructor
      · intro id
        rw [incidents, AList.mem_insert, holds.known, issued_cons_started started, List.mem_cons,
          or_assoc]
      · intro id other found
        rw [incidents, KeyedMap.lookup_insert] at found
        split at found
        · next same =>
            cases found
            subst same
            exact peaks_opened missing first pps bps
        · next different =>
            exact (holds.peaks id other found).other (Ne.symm different)
      · intro other member
        rw [incidents, AList.mem_insert]
        rcases List.mem_cons.mp member with rfl | earlier
        · exact .inl rfl
        · exact .inr (holds.owned other earlier)
      · exact log
  | changed later old row known pps bps incidents =>
      have present : ev.incidentID ∈ db.incidents := by
        rw [← AList.lookup_isSome, known]
        rfl
      have same : ∀ id, id ∈ next.incidents ↔ id ∈ db.incidents := by
        intro id
        rw [incidents, AList.mem_insert]
        exact or_iff_right_of_imp fun equal => equal ▸ present
      constructor
      · intro id
        rw [same, holds.known, issued_cons_later later]
      · intro id other found
        rw [incidents, KeyedMap.lookup_insert] at found
        split at found
        · next own =>
            cases found
            subst own
            have before := holds.peaks _ old known
            constructor
            · rw [pps, valuesOf_own]
              exact before.pps.cons _
            · rw [bps, valuesOf_own]
              exact before.bps.cons _
        · next different =>
            exact (holds.peaks id other found).other (Ne.symm different)
      · intro other member
        rw [same]
        rcases List.mem_cons.mp member with rfl | earlier
        · exact present
        · exact holds.owned other earlier
      · exact log

theorem holds_run {start db : Database} {trace : Writes}
    (run : Run Store.write start trace db) (begun : Begun start (applied trace)) :
    Holds start (applied trace) db := by
  induction run with
  | start => exact holds_start start
  | step past done ih =>
      have earlier := ih begun.tail
      exact earlier.write done begun

end Mitigador.Incident
