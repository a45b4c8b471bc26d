import Mitigador.Incident.Store

/-! The columns of a row that its Started event alone decides. -/

namespace Mitigador.Incident

open Go Detect Lib

/-- The columns that only `Create` writes. -/
def IncidentRow.origin (row : IncidentRow) : Addr × Vector × Option Int × Time :=
  (row.hostIP, row.vector, row.hostgroupID, row.startedAt)

def originOf (hostgroups : String → Option Int) (ev : AttackEvent) :
    Addr × Vector × Option Int × Time :=
  (ev.hostIP, ev.vector, hostgroups ev.hostgroup, ev.startedAt)

/-- A row after an event is there before it with the same origin, or the event has made it. -/
inductive Originates (ev : AttackEvent) (db : Database) (id : String) (row : IncidentRow) : Prop
  | kept (old : IncidentRow) (found : db.incidents.lookup id = some old)
      (same : row.origin = old.origin)
  | made (started : ev.state = .started) (fresh : id ∉ db.incidents)
      (origin : row.origin = originOf db.hostgroups ev)

variable {fault : Fault} {now : Time} {ev : AttackEvent} {db next : Database} {id : String}
  {row : IncidentRow}

theorem Originates.refl (found : db.incidents.lookup id = some row) : Originates ev db id row :=
  .kept row found rfl

namespace Database

theorem insertUpdate_hostgroups {kind : Kind} (inserted : db.insertUpdate kind ev = some next) :
    next.hostgroups = db.hostgroups := by
  unfold insertUpdate at inserted
  split at inserted
  · cases inserted
    rfl
  · contradiction

theorem insertIncident_hostgroups (inserted : db.insertIncident now ev = some next) :
    next.hostgroups = db.hostgroups := by
  unfold insertIncident at inserted
  split at inserted
  · split at inserted <;> cases inserted <;> rfl
  · contradiction

theorem insertIncident_originates (started : ev.state = .started)
    (inserted : db.insertIncident now ev = some next) (found : next.incidents.lookup id = some row) :
    Originates ev db id row := by
  unfold insertIncident at inserted
  split at inserted
  · split at inserted
    · cases inserted
      exact .refl found
    · next fresh =>
        cases inserted
        by_cases own : id = ev.incidentID
        · subst own
          rw [AList.lookup_insert, Option.some.injEq] at found
          rw [← found]
          exact .made started fresh rfl
        · rw [AList.lookup_insert_ne own] at found
          exact .refl found
  · contradiction

theorem updateIncident_originates {key : String} {set : IncidentRow → IncidentRow}
    (keeps : ∀ row, (set row).origin = row.origin)
    (found : (db.updateIncident key set).incidents.lookup id = some row) :
    Originates ev db id row := by
  unfold updateIncident at found
  split at found
  · exact .refl found
  · next old known =>
      by_cases own : id = key
      · subst own
        rw [AList.lookup_insert, Option.some.injEq] at found
        exact .kept old known (by rw [← found, keeps])
      · rw [AList.lookup_insert_ne own] at found
        exact .refl found

theorem updateIncident_hostgroups (key : String) (set : IncidentRow → IncidentRow) :
    (db.updateIncident key set).hostgroups = db.hostgroups := by
  unfold updateIncident
  split <;> rfl

end Database

namespace Store

theorem changed_originates {firstText secondText : String} {kind : Kind} {key : String}
    {set : IncidentRow → IncidentRow} (keeps : ∀ row, (set row).origin = row.origin) :
    (transact fault firstText secondText (fun db => some (db.updateIncident key set))
        (Database.insertUpdate kind ev) db).1.hostgroups = db.hostgroups ∧
      ∀ id row, (transact fault firstText secondText
        (fun db => some (db.updateIncident key set))
        (Database.insertUpdate kind ev) db).1.incidents.lookup id = some row →
          Originates ev db id row := by
  rcases transact_cases fault firstText secondText (fun db => some (db.updateIncident key set))
    (Database.insertUpdate kind ev) db with same | ⟨middle, opened, closed⟩
  · rw [same]
    exact ⟨rfl, fun _ _ => .refl⟩
  · obtain rfl : db.updateIncident key set = middle := Option.some.inj opened
    constructor
    · rw [Database.insertUpdate_hostgroups closed, Database.updateIncident_hostgroups]
    · intro id row found
      rw [(Database.insertUpdate_spec closed).2.1] at found
      exact Database.updateIncident_originates keeps found

theorem handle_originates (fault : Fault) (now : Time) (ev : AttackEvent) (db : Database) :
    (handle fault now ev db).hostgroups = db.hostgroups ∧
      ∀ id row, (handle fault now ev db).incidents.lookup id = some row →
        Originates ev db id row := by
  unfold handle
  cases state : ev.state with
  | updated =>
      dsimp only [update]
      exact changed_originates fun _ => rfl
  | ended =>
      dsimp only [endIncident]
      exact changed_originates fun _ => rfl
  | started =>
      dsimp only [create]
      rcases transact_cases fault "incident: insert incidents"
        "incident: insert attack_updates (started)" (Database.insertIncident now ev)
        (Database.insertUpdate .started ev) db with same | ⟨middle, opened, closed⟩
      · rw [same]
        exact ⟨rfl, fun _ _ => .refl⟩
      · have incidents := (Database.insertUpdate_spec closed).2.1
        constructor
        · rw [Database.insertUpdate_hostgroups closed, Database.insertIncident_hostgroups opened]
        · intro id row found
          rw [incidents] at found
          exact Database.insertIncident_originates state opened found

end Store

structure Rooted (first : Database) (events : List AttackEvent) (db : Database) : Prop where
  hostgroups : db.hostgroups = first.hostgroups
  rows : ∀ id row, db.incidents.lookup id = some row → id ∉ first.incidents →
    ∃ ev ∈ events, ev.state = .started ∧ row.origin = originOf first.hostgroups ev

theorem rooted_start (first : Database) : Rooted first [] first where
  hostgroups := rfl
  rows := by
    intro id row found absent
    apply absurd (AList.lookup_isSome.mp _) absent
    rw [found]
    rfl

theorem Rooted.handle {first : Database} {events : List AttackEvent}
    (rooted : Rooted first events db) (fault : Fault) (now : Time) (ev : AttackEvent) :
    Rooted first (events ++ [ev]) (Store.handle fault now ev db) := by
  obtain ⟨kept, origins⟩ := Store.handle_originates fault now ev db
  refine ⟨kept.trans rooted.hostgroups, fun id row found absent => ?_⟩
  cases origins id row found with
  | kept old earlier same =>
      obtain ⟨cause, listed, started, origin⟩ := rooted.rows id old earlier absent
      exact ⟨cause, List.mem_append_left _ listed, started, same.trans origin⟩
  | made started fresh origin =>
      rw [rooted.hostgroups] at origin
      exact ⟨ev, by simp, started, origin⟩

end Mitigador.Incident
