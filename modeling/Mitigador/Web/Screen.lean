import Mitigador.Web.Dashboard
import Mitigador.Web.LiveTable

/-! One incident on the dashboard. Whether it is lit, with a row that is not ended and no timer, is
a fold over the snapshot and the messages that have reached the page. -/

namespace Mitigador.Web

open Go Detect Api Lib

variable {ν : Type*} [DecidableEq ν]

def signal (ev : AttackEvent) : String × String := (ev.incidentID, "attack." ++ ev.state.text)

def heard (p : SsePayload) : String × String := (p.id, p.type)

def litBy (id : String) (was : Bool) (message : String × String) : Bool :=
  if message.1 = id then
    if message.2 = "attack.started" then true
    else if message.2 = "attack.ended" then false
    else was
  else was

def lit (base : List String) (messages : List (String × String)) (id : String) : Bool :=
  messages.foldl (litBy id) (base.contains id)

theorem lit_append (base : List String) (first second : List (String × String)) (id : String) :
    lit base (first ++ second) id = second.foldl (litBy id) (lit base first id) :=
  List.foldl_append

theorem litBy_other {id : String} {message : String × String} (different : message.1 ≠ id)
    (was : Bool) : litBy id was message = was := if_neg different

theorem litBy_signal (ev : AttackEvent) (was : Bool) : litBy ev.incidentID was (signal ev) =
    match ev.state with
    | .started => true
    | .updated => was
    | .ended => false := by
  unfold litBy signal
  rw [if_pos rfl]
  cases ev.state with
  | started => rfl
  | updated =>
      have first : "attack." ++ State.updated.text ≠ "attack.started" := by decide
      have second : "attack." ++ State.updated.text ≠ "attack.ended" := by decide
      simp only [if_neg first, if_neg second]
  | ended =>
      have first : "attack." ++ State.ended.text ≠ "attack.started" := by decide
      simp only [if_neg first]
      rfl

theorem heard_fanned {marshal : List (String × Value) → Option String} {ev : AttackEvent}
    {p : SsePayload} (sent : fanned marshal ev = some p) : heard p = signal ev := by
  obtain ⟨data, -, rfl⟩ := Option.map_eq_some_iff.mp sent
  rfl

theorem foldl_litBy_other {id : String} {messages : List (String × String)}
    (others : ∀ message ∈ messages, message.1 ≠ id) (was : Bool) :
    messages.foldl (litBy id) was = was := by
  induction messages with
  | nil => rfl
  | cons head tail ih =>
      rw [List.foldl_cons, litBy_other (others head List.mem_cons_self)]
      exact ih fun message member => others message (List.mem_cons_of_mem _ member)

theorem mem_updateFirst {α : Type*} {p : α → Bool} {f : α → α} {values : List α} {a : α}
    (member : a ∈ updateFirst p f values) : ∃ old ∈ values, a = old ∨ a = f old := by
  induction values with
  | nil => exact absurd member List.not_mem_nil
  | cons head tail ih =>
      rw [updateFirst_cons] at member
      split at member
      · rcases List.mem_cons.mp member with rfl | later
        · exact ⟨head, List.mem_cons_self, .inr rfl⟩
        · exact ⟨a, List.mem_cons_of_mem _ later, .inl rfl⟩
      · rcases List.mem_cons.mp member with rfl | later
        · exact ⟨a, List.mem_cons_self, .inl rfl⟩
        · obtain ⟨old, before, same⟩ := ih later
          exact ⟨old, List.mem_cons_of_mem _ before, same⟩

namespace Dashboard

def isLit (d : Dashboard ν) (id : String) : Bool :=
  (rows id d.active).any (fun row => !row.ended) && !d.fading.contains (.string id)

/-- What the end of an incident leaves on the page until the timer runs out. -/
def Marked (d : Dashboard ν) (id : String) : Prop :=
  (∃ row ∈ rows id d.active, row.ended = true) ∨ .string id ∈ d.fading

structure Sane (d : Dashboard ν) : Prop where
  named : ∀ row ∈ d.active, ∃ id, row.incidentId = some (.string id)
  single : ∀ id, (rows id d.active).length ≤ 1

theorem isLit_congr {d next : Dashboard ν} {id : String}
    (same : rows id next.active = rows id d.active)
    (timers : .string id ∈ next.fading ↔ .string id ∈ d.fading) : next.isLit id = d.isLit id := by
  unfold isLit
  rw [same]
  congr 2
  rw [Bool.eq_iff_iff, List.contains_iff_mem, List.contains_iff_mem]
  exact timers

variable {marshal : List (String × Value) → Option String} {page : Page ν} {ev : AttackEvent}
  {p : SsePayload} {d : Dashboard ν}

theorem onMessage_read (read : Read marshal page.toBrowser ev) (sent : fanned marshal ev = some p)
    (active : List (ActiveAttack ν)) : page.onMessage p active =
      handleEvent ("attack." ++ ev.state.text) (page.object ev) active := by
  have delivered := deliver_read read active
  rwa [deliver, sent] at delivered

omit [DecidableEq ν] in
theorem timer_read (read : Read marshal page.toBrowser ev) (sent : fanned marshal ev = some p) :
    ∀ id ∈ timer page p, ev.state = .ended ∧ id = .string ev.incidentID := by
  obtain ⟨data, written, parsed⟩ := read
  rw [fanned, written, Option.map_some, Option.some.injEq] at sent
  subst sent
  intro id set
  unfold timer at set
  split at set
  · next ended =>
      have state : ev.state = .ended := by
        change "attack." ++ ev.state.text = "attack.ended" at ended
        cases state : ev.state with
        | started =>
            rw [state] at ended
            contradiction
        | updated =>
            rw [state] at ended
            contradiction
        | ended => rfl
      refine ⟨state, ?_⟩
      rw [parsed] at set
      split at set
      · contradiction
      · contradiction
      · next found =>
          cases set
          exact (Option.some.inj found).symm
  · contradiction

section Message

variable (read : Read marshal page.toBrowser ev) (sent : fanned marshal ev = some p)

include read sent

theorem rows_own : rows ev.incidentID (d.onSSEMessage page p).active =
    track page.toBrowser (rows ev.incidentID d.active) ev := by
  rw [onSSEMessage, onMessage_read read sent]
  exact rows_handleEvent_own page.toBrowser ev d.active

theorem rows_other {id : String} (different : ev.incidentID ≠ id) :
    rows id (d.onSSEMessage page p).active = rows id d.active := by
  rw [onSSEMessage, onMessage_read read sent]
  exact rows_handleEvent_other page.toBrowser different d.active

theorem mem_fading {x : Scalar ν} (running : x ∈ (d.onSSEMessage page p).fading) :
    x ∈ d.fading ∨ ev.state = .ended ∧ x = .string ev.incidentID := by
  rcases List.mem_append.mp running with before | set
  · exact .inl before
  · exact .inr (timer_read read sent x (Option.mem_toList.mp set))

theorem mem_fading_other {id : String} (other : ev.state ≠ .ended ∨ ev.incidentID ≠ id) :
    .string id ∈ (d.onSSEMessage page p).fading ↔ .string id ∈ d.fading := by
  constructor
  · intro running
    rcases mem_fading read sent running with before | ⟨ended, own⟩
    · exact before
    · cases own
      exact absurd rfl (other.resolve_left (not_not.mpr ended))
  · exact fun before => List.mem_append_left _ before

theorem sane_message (sane : Sane d) : Sane (d.onSSEMessage page p) where
  named := by
    rw [onSSEMessage, onMessage_read read sent]
    intro row member
    cases state : ev.state with
    | started =>
        rw [state, handleEvent_started _ _ rfl] at member
        split at member
        · rcases List.mem_cons.mp member with rfl | before
          · exact ⟨ev.incidentID, rfl⟩
          · exact sane.named row before
        · exact sane.named row member
    | updated =>
        rw [state, handleEvent_updated] at member
        exact sane.named row member
    | ended =>
        rw [state, handleEvent_ended _ _ rfl] at member
        obtain ⟨old, before, same⟩ := mem_updateFirst member
        obtain ⟨id, named⟩ := sane.named old before
        refine ⟨id, ?_⟩
        rcases same with rfl | rfl
        · exact named
        · exact named
  single id := by
    by_cases own : ev.incidentID = id
    · subst own
      have short := sane.single ev.incidentID
      rw [rows_own read sent]
      cases state : ev.state with
      | started =>
          simp only [track, state]
          split
          · exact Nat.le_refl 1
          · exact short
      | updated => simpa only [track, state] using short
      | ended => simpa only [track, state, List.length_modifyHead] using short
    · rw [rows_other read sent own]
      exact sane.single id

/-- The one fold: a start finds nothing that its own end could have left. -/
theorem isLit_message (sane : Sane d) (clean : ev.state = .started → ¬ Marked d ev.incidentID)
    (id : String) : (d.onSSEMessage page p).isLit id = litBy id (d.isLit id) (heard p) := by
  rw [heard_fanned sent]
  by_cases own : ev.incidentID = id
  · subst own
    have tracked := rows_own (d := d) read sent
    have short := sane.single ev.incidentID
    rw [litBy_signal]
    cases state : ev.state with
    | started =>
        have untouched := clean state
        have still : .string ev.incidentID ∉ (d.onSSEMessage page p).fading := by
          rw [mem_fading_other read sent (.inl (by simp [state]))]
          exact fun running => untouched (.inr running)
        rw [isLit, tracked, Bool.and_eq_true_iff]
        refine ⟨?_, by simpa using still⟩
        simp only [track, state]
        split
        · rfl
        · next present =>
            obtain ⟨row, rest, first⟩ := List.exists_cons_of_ne_nil present
            refine List.any_eq_true.mpr ⟨row, by simp [first], ?_⟩
            by_contra ended
            exact untouched (.inl ⟨row, by simp [first], by simpa using ended⟩)
    | updated =>
        refine isLit_congr ?_ (mem_fading_other read sent (.inl (by simp [state])))
        rw [tracked, track, state]
    | ended =>
        have gone : (rows ev.incidentID (d.onSSEMessage page p).active).any
            (fun row => !row.ended) = false := by
          rw [tracked]
          simp only [track, state]
          cases present : rows ev.incidentID d.active with
          | nil => rfl
          | cons row rest =>
              rw [present, List.length_cons, Nat.add_le_add_iff_right, Nat.le_zero,
                List.length_eq_zero_iff] at short
              rw [short]
              rfl
        rw [isLit, gone, Bool.false_and]
  · rw [litBy_other own]
    exact isLit_congr (rows_other read sent own) (mem_fading_other read sent (.inr own))

end Message

theorem marked_message {marshal : List (String × Value) → Option String} {page : Page ν}
    {ev : AttackEvent} {p : SsePayload} {d : Dashboard ν}
    (read : Read marshal page.toBrowser ev) (sent : fanned marshal ev = some p) {id : String}
    (marked : Marked (d.onSSEMessage page p) id) :
    Marked d id ∨ ev.state = .ended ∧ ev.incidentID = id := by
  rcases marked with ⟨row, member, ended⟩ | running
  · by_cases own : ev.incidentID = id
    · subst own
      rw [rows_own read sent] at member
      cases state : ev.state with
      | started =>
          simp only [track, state] at member
          split at member
          · rw [List.mem_singleton] at member
            rw [member] at ended
            contradiction
          · exact .inl (.inl ⟨row, member, ended⟩)
      | updated =>
          simp only [track, state] at member
          exact .inl (.inl ⟨row, member, ended⟩)
      | ended => exact .inr ⟨rfl, rfl⟩
    · rw [rows_other read sent own] at member
      exact .inl (.inl ⟨row, member, ended⟩)
  · rcases mem_fading read sent running with before | ⟨ended, own⟩
    · exact .inl (.inr before)
    · cases own
      exact .inr ⟨ended, rfl⟩

section Timer

variable {d next : Dashboard ν} {n : Nat}

theorem expire_spec (expired : d.expire n = some next) : ∃ x, d.fading[n]? = some x ∧
    next.fading = d.fading.eraseIdx n ∧
    next.active = d.active.eraseP fun a => a.incidentId = some x := by
  obtain ⟨x, running, rfl⟩ := Option.map_eq_some_iff.mp expired
  exact ⟨x, running, rfl, rfl⟩

theorem rows_eraseP_own (id : String) (active : List (ActiveAttack ν)) :
    rows id (active.eraseP fun a => a.incidentId = some (.string id)) = (rows id active).tail := by
  unfold rows
  induction active with
  | nil => rfl
  | cons head tail ih =>
      by_cases own : head.incidentId = some (.string id)
      · simp [own]
      · simpa [own] using ih

theorem rows_eraseP_other {id : String} {x : Scalar ν} (different : x ≠ .string id)
    (active : List (ActiveAttack ν)) :
    rows id (active.eraseP fun a => a.incidentId = some x) = rows id active := by
  unfold rows
  induction active with
  | nil => rfl
  | cons head tail ih =>
      by_cases own : head.incidentId = some x
      · simp [own, different]
      · rw [List.eraseP_cons_of_neg (by simpa using own), List.filter_cons, List.filter_cons, ih]

theorem sane_expire (sane : Sane d) (expired : d.expire n = some next) : Sane next := by
  obtain ⟨x, -, -, active⟩ := expire_spec expired
  have fewer : next.active.Sublist d.active := by
    rw [active]
    exact List.eraseP_sublist
  exact ⟨fun row member => sane.named row (fewer.subset member), fun id =>
    (fewer.filter _).length_le.trans (sane.single id)⟩

theorem marked_expire (expired : d.expire n = some next) {id : String} (marked : Marked next id) :
    Marked d id := by
  obtain ⟨x, -, fading, active⟩ := expire_spec expired
  rcases marked with ⟨row, member, ended⟩ | running
  · rw [active] at member
    exact .inl ⟨row, (List.eraseP_sublist.filter _).subset member, ended⟩
  · rw [fading] at running
    exact .inr ((List.eraseIdx_sublist ..).subset running)

theorem isLit_expire (sane : Sane d) (expired : d.expire n = some next) (id : String) :
    next.isLit id = d.isLit id := by
  obtain ⟨x, running, fading, active⟩ := expire_spec expired
  by_cases own : x = .string id
  · subst own
    have before : d.isLit id = false := by
      have member : (Scalar.string id : Scalar ν) ∈ d.fading := List.mem_of_getElem? running
      simp [isLit, member]
    have empty : (rows id d.active).tail = [] := by
      have short := sane.single id
      rw [← List.length_eq_zero_iff, List.length_tail]
      omega
    rw [before, isLit, active, rows_eraseP_own, empty]
    rfl
  · refine isLit_congr (by rw [active, rows_eraseP_other own]) ?_
    rw [fading]
    constructor
    · exact fun member => (List.eraseIdx_sublist ..).subset member
    · intro member
      obtain ⟨place, bound, here⟩ := List.mem_iff_getElem.mp member
      refine List.mem_eraseIdx_iff_getElem.mpr ⟨place, bound, ?_, here⟩
      rintro rfl
      rw [List.getElem?_eq_getElem bound, Option.some.injEq] at running
      exact own (running.symm.trans here)

end Timer

section Snapshot

variable {page : Page ν} {listed : List (String × Incident.IncidentRow)} {d : Dashboard ν}

theorem rows_snapshot (page : Page ν) (id : String)
    (listed : List (String × Incident.IncidentRow)) :
    rows id (listed.map fun entry => ActiveAttack.ofItem (page.item entry.1 entry.2)) =
      (listed.filter fun entry => entry.1 = id).map fun entry =>
        ActiveAttack.ofItem (page.item entry.1 entry.2) := by
  rw [rows, List.filter_map]
  congr 1
  apply List.filter_congr
  intro entry _
  have named : (ActiveAttack.ofItem (page.item entry.1 entry.2)).incidentId =
    some (.string entry.1) := rfl
  simp [named]

theorem sane_snapshot (distinct : (listed.map Prod.fst).Nodup) :
    Sane (d.loadActiveSnapshot page listed) where
  named row member := by
    obtain ⟨entry, -, rfl⟩ := List.mem_map.mp member
    exact ⟨entry.1, rfl⟩
  single id := by
    rw [loadActiveSnapshot, rows_snapshot, List.length_map, ← List.countP_eq_length_filter]
    have counted := List.nodup_iff_count_le_one.mp distinct id
    rw [List.count, List.countP_map] at counted
    refine le_trans (le_of_eq ?_) counted
    congr 1

omit [DecidableEq ν] in
theorem ended_snapshot (id : String) {row : Incident.IncidentRow} (alive : row.endedAt = none) :
    (ActiveAttack.ofItem (page.item id row)).ended = false := by
  unfold ActiveAttack.ofItem Page.item
  rw [alive]
  rfl

theorem isLit_snapshot (alive : ∀ entry ∈ listed, entry.2.endedAt = none)
    (still : d.fading = []) (id : String) :
    (d.loadActiveSnapshot page listed).isLit id = (listed.map Prod.fst).contains id := by
  rw [isLit, loadActiveSnapshot, rows_snapshot, still, Bool.eq_iff_iff]
  simp only [List.contains_nil, Bool.not_false, Bool.and_true, List.any_eq_true, List.mem_map,
    List.mem_filter, decide_eq_true_eq, List.contains_iff_mem]
  constructor
  · rintro ⟨row, ⟨entry, ⟨member, rfl⟩, rfl⟩, -⟩
    exact ⟨entry, member, rfl⟩
  · rintro ⟨entry, member, rfl⟩
    refine ⟨_, ⟨entry, ⟨member, rfl⟩, rfl⟩, ?_⟩
    rw [ended_snapshot entry.1 (alive entry member)]
    rfl

theorem marked_snapshot (alive : ∀ entry ∈ listed, entry.2.endedAt = none)
    (still : d.fading = []) (id : String) : ¬ Marked (d.loadActiveSnapshot page listed) id := by
  rintro (⟨row, member, ended⟩ | running)
  · rw [loadActiveSnapshot, rows_snapshot] at member
    obtain ⟨entry, here, rfl⟩ := List.mem_map.mp member
    rw [ended_snapshot entry.1 (alive entry (List.mem_filter.mp here).1)] at ended
    contradiction
  · rw [loadActiveSnapshot, still] at running
    contradiction

end Snapshot

end Dashboard

end Mitigador.Web
