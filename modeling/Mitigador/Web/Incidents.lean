import Mitigador.Api.Sse
import Mitigador.Detect.Identity

/-! The attack table of the dashboard (web/src/stores/incidents.ts) behind the broker. Numbers are
those of the browser, and `none` is its undefined. -/

namespace Mitigador.Web

open Go Detect Api

variable {ν : Type*}

inductive Scalar (ν : Type*)
  | string (s : String)
  | number (x : ν)
  deriving DecidableEq

abbrev Object (ν : Type*) := List (String × Scalar ν)

def Object.field (o : Object ν) (name : String) : Option (Scalar ν) := o.lookup name

structure ActiveAttack (ν : Type*) where
  incidentId : Option (Scalar ν)
  hostIp : Option (Scalar ν)
  vector : Option (Scalar ν)
  hostgroup : Option (Scalar ν)
  pps : Option (Scalar ν)
  bps : Option (Scalar ν)
  peakPps : Option (Scalar ν)
  peakBps : Option (Scalar ν)
  confidence : Option (Scalar ν)
  startedAt : Option (Scalar ν)
  ended : Bool

def ActiveAttack.ofEvent (ev : Object ν) : ActiveAttack ν where
  incidentId := ev.field "incident_id"
  hostIp := ev.field "host_ip"
  vector := ev.field "vector"
  hostgroup := ev.field "hostgroup"
  pps := ev.field "pps"
  bps := ev.field "bps"
  peakPps := ev.field "peak_pps"
  peakBps := ev.field "peak_bps"
  confidence := ev.field "confidence"
  startedAt := ev.field "started_at"
  ended := false

def handleEvent [DecidableEq ν] (type : String) (ev : Object ν)
    (active : List (ActiveAttack ν)) : List (ActiveAttack ν) :=
  let idx := active.findIdx? fun a => a.incidentId = ev.field "incident_id"
  if type = "attack.started" then
    match idx with
    | none => .ofEvent ev :: active
    | some _ => active
  else if type = "attack.update" then
    match idx with
    | none => active
    | some idx => active.modify idx fun a => { a with
        pps := ev.field "pps"
        bps := ev.field "bps"
        peakPps := ev.field "peak_pps"
        peakBps := ev.field "peak_bps"
        confidence := ev.field "confidence" }
  else if type = "attack.ended" then
    match idx with
    | none => active
    | some idx => active.modify idx fun a => { a with ended := true }
  else active

/-- What the browser makes of the values, and of the text, that the server writes. -/
structure Browser (ν : Type*) where
  count : UInt64 → ν
  ratio : Float → ν
  time : Time → String
  parse : String → Option (Object ν)

namespace Browser

def scalar (browser : Browser ν) : Value → Scalar ν
  | .text s => .string s
  | .count n => .number (browser.count n)
  | .ratio x => .number (browser.ratio x)
  | .time t => .string (browser.time t)

def object (browser : Browser ν) (ev : AttackEvent) : Object ν :=
  (eventToMap ev).map fun entry => (entry.1, browser.scalar entry.2)

def onMessage [DecidableEq ν] (browser : Browser ν) (p : SsePayload)
    (active : List (ActiveAttack ν)) : List (ActiveAttack ν) :=
  if p.type = "" then active
  else
    match browser.parse p.data with
    | none => active
    | some ev => handleEvent p.type ev active

end Browser

def fanned (marshal : List (String × Value) → Option String) (ev : AttackEvent) :
    Option SsePayload :=
  (marshal (eventToMap ev)).map fun data => ⟨ev.incidentID, "attack." ++ ev.state.text, data⟩

theorem turn_input {marshal : List (String × Value) → Option String} {s : Broker}
    {ev : AttackEvent} {input : Chan AttackEvent}
    (received : s.input.receive = some (some ev, input)) :
    s.turn marshal .input = some ((fanned marshal ev).elim { s with input := input }
      fun p => { s with input := input }.send p) := by
  unfold Broker.turn fanned
  rw [received]
  cases encoded : marshal (eventToMap ev) with
  | none => simp [encoded]
  | some data => simp [encoded]

section Table

variable [DecidableEq ν]

def updateFirst {α : Type*} (p : α → Bool) (f : α → α) (rows : List α) : List α :=
  match rows.findIdx? p with
  | none => rows
  | some idx => rows.modify idx f

theorem updateFirst_cons {α : Type*} (p : α → Bool) (f : α → α) (head : α) (tail : List α) :
    updateFirst p f (head :: tail) =
      if p head then f head :: tail else head :: updateFirst p f tail := by
  unfold updateFirst
  rw [List.findIdx?_cons]
  by_cases found : p head = true
  · rw [if_pos found, if_pos found]
    rfl
  · rw [if_neg found, if_neg found]
    cases tail.findIdx? p with
    | none => rfl
    | some idx => rfl

theorem filter_updateFirst {α : Type*} (p : α → Bool) (f : α → α) (keeps : ∀ a, p (f a) = p a)
    (rows : List α) : (updateFirst p f rows).filter p = (rows.filter p).modifyHead f := by
  induction rows with
  | nil => rfl
  | cons head tail ih =>
      rw [updateFirst_cons]
      by_cases found : p head = true
      · simp [found, keeps]
      · simp [found, ih]

theorem filter_updateFirst_of_disjoint {α : Type*} (p q : α → Bool) (f : α → α)
    (keeps : ∀ a, q (f a) = q a) (disjoint : ∀ a, p a = true → q a = false) (rows : List α) :
    (updateFirst p f rows).filter q = rows.filter q := by
  induction rows with
  | nil => rfl
  | cons head tail ih =>
      rw [updateFirst_cons]
      by_cases found : p head = true
      · simp [found, keeps, disjoint head found]
      · simp [found, List.filter_cons, ih]

def rows (id : String) (active : List (ActiveAttack ν)) : List (ActiveAttack ν) :=
  active.filter fun a => a.incidentId = some (.string id)

def ActiveAttack.close (a : ActiveAttack ν) : ActiveAttack ν := { a with ended := true }

def track (browser : Browser ν) (own : List (ActiveAttack ν)) (ev : AttackEvent) :
    List (ActiveAttack ν) :=
  match ev.state with
  | .started => if own = [] then [.ofEvent (browser.object ev)] else own
  | .updated => own
  | .ended => own.modifyHead .close

theorem rows_eq_nil {id : String} {active : List (ActiveAttack ν)} :
    rows id active = [] ↔ active.findIdx? (fun a => a.incidentId = some (.string id)) = none := by
  simp [rows, List.findIdx?_eq_none_iff, List.filter_eq_nil_iff]

/-- The name that the broker gives an update is not one that `handleEvent` knows. -/
theorem handleEvent_updated (ev : Object ν) (active : List (ActiveAttack ν)) :
    handleEvent ("attack." ++ State.updated.text) ev active = active := by
  have unknown : "attack." ++ State.updated.text ∉
      ["attack.started", "attack.update", "attack.ended"] := by
    decide
  simp only [List.mem_cons, List.not_mem_nil, or_false, not_or] at unknown
  obtain ⟨first, second, third⟩ := unknown
  unfold handleEvent
  rw [if_neg first, if_neg second, if_neg third]

theorem handleEvent_ended (ev : Object ν) (active : List (ActiveAttack ν)) {id : String}
    (named : ev.field "incident_id" = some (.string id)) :
    handleEvent ("attack." ++ State.ended.text) ev active =
      updateFirst (fun a => a.incidentId = some (.string id)) .close active := by
  show handleEvent "attack.ended" ev active = _
  unfold handleEvent
  rw [if_neg (by decide), if_neg (by decide), if_pos rfl, named]
  rfl

theorem handleEvent_started (ev : Object ν) (active : List (ActiveAttack ν)) {id : String}
    (named : ev.field "incident_id" = some (.string id)) :
    handleEvent ("attack." ++ State.started.text) ev active =
      if rows id active = [] then .ofEvent ev :: active else active := by
  show handleEvent "attack.started" ev active = _
  unfold handleEvent
  rw [if_pos rfl, named]
  cases found : active.findIdx? fun a => a.incidentId = some (.string id) with
  | none => rw [if_pos (rows_eq_nil.mpr found)]
  | some idx =>
      rw [if_neg]
      intro missing
      rw [rows_eq_nil.mp missing] at found
      contradiction

variable (browser : Browser ν)

theorem rows_handleEvent_own (ev : AttackEvent) (active : List (ActiveAttack ν)) :
    rows ev.incidentID (handleEvent ("attack." ++ ev.state.text) (browser.object ev) active) =
      track browser (rows ev.incidentID active) ev := by
  unfold track
  cases state : ev.state with
  | started =>
      rw [handleEvent_started _ _ rfl]
      by_cases missing : rows ev.incidentID active = []
      · rw [if_pos missing, if_pos missing, rows, List.filter_cons_of_pos (by simp; rfl)]
        exact congrArg _ missing
      · rw [if_neg missing, if_neg missing]
  | updated => rw [handleEvent_updated]
  | ended =>
      rw [handleEvent_ended _ _ rfl]
      exact filter_updateFirst (fun a => a.incidentId = some (.string ev.incidentID)) .close
        (fun _ => rfl) active

theorem rows_handleEvent_other {ev : AttackEvent} {id : String} (different : ev.incidentID ≠ id)
    (active : List (ActiveAttack ν)) :
    rows id (handleEvent ("attack." ++ ev.state.text) (browser.object ev) active) =
      rows id active := by
  cases state : ev.state with
  | started =>
      rw [handleEvent_started _ _ rfl]
      split
      · apply List.filter_cons_of_neg
        have named : (ActiveAttack.ofEvent (browser.object ev)).incidentId =
          some (.string ev.incidentID) := rfl
        simpa [named] using different
      · rfl
  | updated => rw [handleEvent_updated]
  | ended =>
      rw [handleEvent_ended _ _ rfl]
      refine filter_updateFirst_of_disjoint (fun a => a.incidentId = some (.string ev.incidentID))
        (fun a => a.incidentId = some (.string id)) .close (fun _ => rfl) ?_ active
      intro a own
      rw [of_decide_eq_true own]
      simpa using different

end Table

end Mitigador.Web
