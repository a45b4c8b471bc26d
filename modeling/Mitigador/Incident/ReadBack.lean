import Mathlib.Data.List.Sort
import Mathlib.Order.Bounds.Basic
import Mitigador.Incident.Consistency
import Mitigador.Incident.Peaks

/-! `List` and `Get` after a run of writes: the counters come back where none of them has lost its
sign on the way. -/

namespace Mitigador.Incident

open Go Detect Lib

/-- A counter that is the same as a signed number. -/
def Fits (x : UInt64) : Prop := x.toNat < 2 ^ 63

instance (x : UInt64) : Decidable (Fits x) := inferInstanceAs (Decidable (_ < _))

theorem toInt_toInt64 (x : UInt64) :
    x.toInt64.toInt = if x.toNat < 2 ^ 63 then (x.toNat : Int) else x.toNat - 2 ^ 64 := by
  have bits : x.toInt64.toInt = x.toBitVec.toInt := rfl
  rw [bits, BitVec.toInt_eq_toNat_cond]
  have same : x.toBitVec.toNat = x.toNat := rfl
  rw [same]
  split <;> split <;> omega

theorem toInt64_negative_iff (x : UInt64) : x.toInt64 < 0 ↔ ¬ Fits x := by
  have bound := x.toNat_lt
  rw [Int64.lt_iff_toInt_lt, toInt_toInt64, Int64.toInt_zero, Fits]
  split <;> omega

theorem toInt64_le_iff {x y : UInt64} (left : Fits x) (right : Fits y) :
    x.toInt64 ≤ y.toInt64 ↔ x ≤ y := by
  unfold Fits at left right
  rw [Int64.le_iff_toInt_le, toInt_toInt64, toInt_toInt64, if_pos left, if_pos right,
    UInt64.le_iff_toNat_le]
  omega

theorem scanUint64_eq_some_iff {stored : Int64} {x : UInt64} :
    scanUint64 stored = some x ↔ x.toInt64 = stored ∧ Fits x := by
  unfold scanUint64
  split
  · next negative =>
      constructor
      · intro impossible
        contradiction
      · rintro ⟨rfl, fits⟩
        exact absurd fits ((toInt64_negative_iff x).mp negative)
  · next positive =>
      rw [Option.some.injEq]
      constructor
      · rintro rfl
        rw [← Int64.toInt64_toUInt64 stored, toInt64_negative_iff, not_not] at positive
        exact ⟨Int64.toInt64_toUInt64 stored, positive⟩
      · rintro ⟨rfl, -⟩
        exact UInt64.toUInt64_toInt64 x

theorem scanUint64_isSome {stored : Int64} : (scanUint64 stored).isSome ↔ ¬ stored < 0 := by
  unfold scanUint64
  split
  · next negative => simp [negative]
  · next positive => simp [positive]

/-- The signed maximum reads back as the unsigned one exactly where no value has lost its sign. -/
theorem SignedPeak.greatest_iff {stored : Int64} {values : List UInt64}
    (peak : SignedPeak stored (values.map fun y => y.toInt64)) :
    (∃ x, scanUint64 stored = some x ∧ IsGreatest {y | y ∈ values} x) ↔ ∀ y ∈ values, Fits y := by
  constructor
  · rintro ⟨x, read, -, above⟩ y listed
    have fits : Fits x := (scanUint64_eq_some_iff.mp read).2
    have below : y.toNat ≤ x.toNat := UInt64.le_iff_toNat_le.mp (above listed)
    exact Nat.lt_of_le_of_lt below fits
  · intro every
    obtain ⟨x, listed, same⟩ := List.mem_map.mp peak.among
    have read : scanUint64 stored = some x := scanUint64_eq_some_iff.mpr ⟨same, every x listed⟩
    refine ⟨x, read, listed, fun y member => ?_⟩
    have below := peak.above _ (List.mem_map_of_mem member)
    rw [← same] at below
    exact (toInt64_le_iff (every y member) (every x listed)).mp below

/-! Rows scanned one after another. -/

section Scan

variable {α β : Type*} {scan : α → Option β}

theorem scan_iff {rows : List α} {read : List β} :
    rows.mapM scan = some read ↔ rows.map scan = read.map some := by
  induction rows generalizing read with
  | nil => cases read <;> simp
  | cons row rest ih =>
      rw [List.mapM_cons, List.map_cons]
      cases first : scan row with
      | none => cases read <;> simp
      | some item =>
          cases read with
          | nil => simp [Option.bind_eq_some_iff]
          | cons head tail =>
              rw [List.map_cons, List.cons.injEq, ← ih, Option.some.injEq]
              cases others : rest.mapM scan with
              | none => simp
              | some items => simp

theorem row_of_item {rows : List α} {read : List β} (done : rows.mapM scan = some read)
    {item : β} (listed : item ∈ read) : ∃ row ∈ rows, scan row = some item := by
  have found : some item ∈ rows.map scan := by
    rw [scan_iff.mp done]
    exact List.mem_map_of_mem listed
  exact List.mem_map.mp found

theorem item_of_row {rows : List α} {read : List β} (done : rows.mapM scan = some read)
    {row : α} (member : row ∈ rows) : ∃ item ∈ read, scan row = some item := by
  have found : scan row ∈ read.map some := by
    rw [← scan_iff.mp done]
    exact List.mem_map_of_mem member
  obtain ⟨item, listed, same⟩ := List.mem_map.mp found
  exact ⟨item, listed, same.symm⟩

theorem scan_all {rows : List α} (each : ∀ row ∈ rows, (scan row).isSome) :
    ∃ read, rows.mapM scan = some read := by
  induction rows with
  | nil => exact ⟨[], rfl⟩
  | cons row rest ih =>
      obtain ⟨item, first⟩ := Option.isSome_iff_exists.mp (each row List.mem_cons_self)
      obtain ⟨items, others⟩ := ih fun other member => each other (List.mem_cons_of_mem row member)
      exact ⟨item :: items, by simp [List.mapM_cons, first, others]⟩

end Scan

theorem exists_ordered {α : Type*} (key : α → Int) (rows : List α) :
    ∃ order : List α, order.Perm rows ∧
      order.Pairwise (fun first second => key first ≤ key second) := by
  let le (first second : α) : Bool := key first ≤ key second
  have transitive : ∀ a b c, le a b = true → le b c = true → le a c = true := by
    intro a b c first second
    exact decide_eq_true (Int.le_trans (of_decide_eq_true first) (of_decide_eq_true second))
  have total : ∀ a b, (le a b || le b a) = true := by
    intro a b
    rw [Bool.or_eq_true]
    exact (Int.le_total (key a) (key b)).imp decide_eq_true decide_eq_true
  have sorted := List.pairwise_mergeSort transitive total rows
  exact ⟨_, List.mergeSort_perm rows _, sorted.imp of_decide_eq_true⟩

theorem scanIncident_isSome {names : Int → Option String} {id : String} {row : IncidentRow} :
    (scanIncident names id row).isSome ↔ ¬ row.peakPps < 0 ∧ ¬ row.peakBps < 0 := by
  rw [← scanUint64_isSome, ← scanUint64_isSome, scanIncident]
  cases scanUint64 row.peakPps <;> cases scanUint64 row.peakBps <;> simp

theorem scanIncident_spec {names : Int → Option String} {id : String} {row : IncidentRow}
    {inc : Listed} (read : scanIncident names id row = some inc) :
    inc.id = id ∧ scanUint64 row.peakPps = some inc.peakPps ∧
      scanUint64 row.peakBps = some inc.peakBps := by
  unfold scanIncident at read
  obtain ⟨pps, first, more⟩ := Option.bind_eq_some_iff.mp read
  obtain ⟨bps, second, made⟩ := Option.bind_eq_some_iff.mp more
  cases made
  exact ⟨rfl, first, second⟩

theorem scanUpdate_isSome {u : UpdateRow} : (scanUpdate u).isSome ↔ ¬ u.pps < 0 ∧ ¬ u.bps < 0 := by
  rw [← scanUint64_isSome, ← scanUint64_isSome, scanUpdate]
  cases scanUint64 u.pps <;> cases scanUint64 u.bps <;> simp

theorem scanUpdate_spec {u : UpdateRow} {item : UpdateListed} (read : scanUpdate u = some item) :
    (item.pps, item.bps) = (u.pps.toUInt64, u.bps.toUInt64) := by
  unfold scanUpdate at read
  obtain ⟨pps, first, more⟩ := Option.bind_eq_some_iff.mp read
  obtain ⟨bps, second, made⟩ := Option.bind_eq_some_iff.mp more
  cases made
  obtain ⟨samePps, -⟩ := scanUint64_eq_some_iff.mp first
  obtain ⟨sameBps, -⟩ := scanUint64_eq_some_iff.mp second
  rw [← samePps, ← sameBps, UInt64.toUInt64_toInt64, UInt64.toUInt64_toInt64]

def Database.updatesOf (db : Database) (id : String) : List UpdateRow :=
  db.attackUpdates.filter fun u => u.incidentID = id

theorem logged_filter {rows : List UpdateRow} {events : List AttackEvent} (id : String)
    (logged : List.Forall₂ Logged rows events) :
    List.Forall₂ Logged (rows.filter fun u => u.incidentID = id) (eventsOfIncident id events) := by
  induction logged with
  | nil => exact .nil
  | @cons u ev rows events first others ih =>
      by_cases own : ev.incidentID = id
      · have same : u.incidentID = id := first.id.trans own
        subst own
        rw [eventsOfIncident_own, List.filter_cons_of_pos (by simpa using same)]
        exact .cons first ih
      · have other : u.incidentID ≠ id := fun same => own (first.id.symm.trans same)
        rw [eventsOfIncident_other own, List.filter_cons_of_neg (by simpa using other)]
        exact ih

theorem Holds.updatesOf {start db : Database} {events : List AttackEvent}
    (holds : Holds start events db) {id : String} (fresh : id ∉ start.incidents) :
    List.Forall₂ Logged (db.updatesOf id) (eventsOfIncident id events) := by
  obtain ⟨added, rows, logged⟩ := holds.log
  have none : start.attackUpdates.filter (fun u => u.incidentID = id) = [] := by
    rw [List.filter_eq_nil_iff]
    intro u member same
    exact fresh (of_decide_eq_true same ▸ start.references u member)
  rw [Database.updatesOf, rows, List.filter_append, none, List.append_nil]
  exact logged_filter id logged

theorem counters_of_logged {rows : List UpdateRow} {events : List AttackEvent}
    (logged : List.Forall₂ Logged rows events) :
    rows.map (fun u => (u.pps.toUInt64, u.bps.toUInt64)) =
      events.map fun ev => (ev.pps, ev.bps) := by
  induction logged with
  | nil => rfl
  | cons first others ih =>
      rw [List.map_cons, List.map_cons, ih, first.pps, first.bps, UInt64.toUInt64_toInt64,
        UInt64.toUInt64_toInt64]

theorem scanned_iff_fits {rows : List UpdateRow} {events : List AttackEvent}
    (logged : List.Forall₂ Logged rows events) :
    (∀ u ∈ rows, (scanUpdate u).isSome) ↔ ∀ ev ∈ events, Fits ev.pps ∧ Fits ev.bps := by
  induction logged with
  | nil => simp
  | @cons u ev rows events first others ih =>
      rw [List.forall_mem_cons, List.forall_mem_cons, ih, scanUpdate_isSome, first.pps, first.bps,
        toInt64_negative_iff, toInt64_negative_iff, not_not, not_not]

/-! `List`. -/

theorem readPage_wellFormed (names : Int → Option String) {f : Filter} (formed : f.WellFormed)
    (order : List TableRow) :
    Store.readPage names f order =
      match ((order.drop f.offset.toNat).take f.pageSize).mapM
          fun entry => scanIncident names entry.1 entry.2 with
      | none => .error "incident: list scan"
      | some items => .ok ⟨items, order.length⟩ := by
  have castable : ¬ (f.hostIP.any fun ip => !isInet ip) = true := by
    rw [Option.any_eq_true]
    rintro ⟨ip, given, bad⟩
    rw [formed.1 ip given] at bad
    contradiction
  have forward : ¬ f.offset < 0 := Int.not_lt.mpr formed.2
  exact (if_neg castable).trans (if_neg forward)

theorem row_of_page {names : Int → Option String} {f : Filter} (formed : f.WellFormed)
    {db : Database} {page : ListResult} (listed : Store.Lists names f db (.ok page)) {inc : Listed}
    (member : inc ∈ page.items) :
    ∃ id row, db.incidents.lookup id = some row ∧ scanIncident names id row = some inc := by
  obtain ⟨order, rows, -, read⟩ := listed
  rw [readPage_wellFormed names formed] at read
  split at read
  · contradiction
  · next items done =>
      cases read
      obtain ⟨entry, paged, scanned⟩ := row_of_item done member
      have matching := rows.mem_iff.mp (List.mem_of_mem_drop (List.mem_of_mem_take paged))
      have stored := (KeyedMap.mem_entries ..).mp (List.mem_filter.mp matching).1
      exact ⟨entry.1, entry.2, stored, scanned⟩

def Filter.all (offset : Nat) : Filter where
  hostIP := none
  vector := none
  since := none
  before := none
  activeOnly := false
  limit := 0
  offset := offset

theorem Filter.all_wellFormed (offset : Nat) : (Filter.all offset).WellFormed :=
  ⟨fun _ impossible => by contradiction, Int.natCast_nonneg offset⟩

theorem lists_ok_iff (names : Int → Option String) (db : Database) :
    (∀ f : Filter, f.WellFormed → ∀ result, Store.Lists names f db result →
      ∃ page, result = .ok page) ↔
    ∀ id row, db.incidents.lookup id = some row → (scanIncident names id row).isSome := by
  constructor
  · intro succeeds id row stored
    obtain ⟨order, rows, ordered⟩ := exists_ordered
      (fun entry : TableRow => -micros entry.2.startedAt) db.incidents.entries
    have present : ⟨id, row⟩ ∈ order := rows.mem_iff.mpr ((KeyedMap.mem_entries ..).mpr stored)
    obtain ⟨front, back, split⟩ := List.append_of_mem present
    have every : (db.incidents.entries.filter fun entry =>
        (Filter.all front.length).accepts entry.2) = db.incidents.entries :=
      List.filter_eq_self.mpr fun _ _ => rfl
    have listed : Store.Lists names (.all front.length) db
        (Store.readPage names (.all front.length) order) :=
      ⟨order, every.symm ▸ rows, ordered.imp fun later => Int.neg_le_neg_iff.mp later, rfl⟩
    obtain ⟨page, read⟩ := succeeds _ (Filter.all_wellFormed _) _ listed
    rw [readPage_wellFormed names (Filter.all_wellFormed _)] at read
    split at read
    · contradiction
    · next items done =>
        have first : ⟨id, row⟩ ∈ (order.drop front.length).take 50 := by
          rw [split, List.drop_left, List.take_succ_cons]
          exact List.mem_cons_self
        obtain ⟨inc, -, scanned⟩ := item_of_row done first
        rw [scanned]
        rfl
  · rintro readable f formed result ⟨order, rows, -, rfl⟩
    rw [readPage_wellFormed names formed]
    have each : ∀ entry ∈ (order.drop f.offset.toNat).take f.pageSize,
        (scanIncident names entry.1 entry.2).isSome := by
      intro entry paged
      have matching := rows.mem_iff.mp (List.mem_of_mem_drop (List.mem_of_mem_take paged))
      exact readable _ _ ((KeyedMap.mem_entries ..).mp (List.mem_filter.mp matching).1)
    obtain ⟨items, done⟩ := scan_all each
    exact ⟨⟨items, order.length⟩, by rw [done]⟩

/-! The whole way. -/

structure ExactPeaks (events : List AttackEvent) (inc : Listed) : Prop where
  pps : IsGreatest {x | x ∈ events.map AttackEvent.peakPps} inc.peakPps
  bps : IsGreatest {x | x ∈ events.map AttackEvent.peakBps} inc.peakBps

structure Persisted (names : Int → Option String) (db : Database) (id : String)
    (events : List AttackEvent) : Prop where
  list : ∀ f : Filter, f.WellFormed → ∀ result, Store.Lists names f db result →
    ∃ page, result = .ok page ∧ ∀ inc ∈ page.items, inc.id = id → ExactPeaks events inc
  get : ∀ result, Store.Gets names id db result →
    ∃ inc updates, result = .ok (inc, updates) ∧ ExactPeaks events inc ∧
      (updates.map fun u => (u.pps, u.bps)).Perm (events.map fun ev => (ev.pps, ev.bps))

structure Signed (ev : AttackEvent) : Prop where
  pps : Fits ev.pps
  bps : Fits ev.bps
  peakPps : Fits ev.peakPps
  peakBps : Fits ev.peakBps

instance (ev : AttackEvent) : Decidable (Signed ev) :=
  decidable_of_iff (Fits ev.pps ∧ Fits ev.bps ∧ Fits ev.peakPps ∧ Fits ev.peakBps)
    ⟨fun ⟨pps, bps, peakPps, peakBps⟩ => ⟨pps, bps, peakPps, peakBps⟩,
      fun ⟨pps, bps, peakPps, peakBps⟩ => ⟨pps, bps, peakPps, peakBps⟩⟩

/-- No counter of the incident reaches 2^63, and every other incident of the tables has had some
value below 2^63 of each peak. -/
structure WithinSign (start : Database) (id : String) (events : List AttackEvent) : Prop where
  own : ∀ ev ∈ eventsOfIncident id events, Signed ev
  others : ∀ other, other ∈ issued events ∨ other ∈ start.incidents → other ≠ id →
    (∃ x ∈ valuesOf start IncidentRow.peakPps AttackEvent.peakPps other events, 0 ≤ x) ∧
      ∃ x ∈ valuesOf start IncidentRow.peakBps AttackEvent.peakBps other events, 0 ≤ x

theorem SignedPeak.readable_iff {stored : Int64} {values : List Int64}
    (peak : SignedPeak stored values) : ¬ stored < 0 ↔ ∃ x ∈ values, 0 ≤ x := by
  rw [peak.negative_iff]
  simp only [not_forall, Int64.not_lt, exists_prop]

theorem Peaks.readable_iff {start : Database} {id : String} {events : List AttackEvent}
    {row : IncidentRow} (peaks : Peaks start id events row) (names : Int → Option String) :
    (scanIncident names id row).isSome ↔
      (∃ x ∈ valuesOf start IncidentRow.peakPps AttackEvent.peakPps id events, 0 ≤ x) ∧
        ∃ x ∈ valuesOf start IncidentRow.peakBps AttackEvent.peakBps id events, 0 ≤ x := by
  rw [scanIncident_isSome, peaks.pps.readable_iff, peaks.bps.readable_iff]

theorem valuesOf_fresh {start : Database} {id : String} (fresh : id ∉ start.incidents)
    (column : IncidentRow → Int64) (counter : AttackEvent → UInt64) (events : List AttackEvent) :
    valuesOf start column counter id events =
      ((eventsOfIncident id events).map counter).map fun x => x.toInt64 := by
  have absent : start.incidents.lookup id = none := AList.lookup_eq_none.mpr fresh
  simp [valuesOf, absent]

theorem Peaks.exact_iff {start : Database} {id : String} {events : List AttackEvent}
    {row : IncidentRow} (peaks : Peaks start id events row) (fresh : id ∉ start.incidents)
    (names : Int → Option String) :
    (∃ inc, scanIncident names id row = some inc ∧ ExactPeaks (eventsOfIncident id events) inc) ↔
      ∀ ev ∈ eventsOfIncident id events, Fits ev.peakPps ∧ Fits ev.peakBps := by
  obtain ⟨pps, bps⟩ := peaks
  rw [valuesOf_fresh fresh] at pps bps
  have left := pps.greatest_iff
  have right := bps.greatest_iff
  rw [List.forall_mem_map] at left right
  rw [forall₂_and, ← left, ← right]
  constructor
  · rintro ⟨inc, read, exact⟩
    obtain ⟨-, readPps, readBps⟩ := scanIncident_spec read
    exact ⟨⟨_, readPps, exact.pps⟩, ⟨_, readBps, exact.bps⟩⟩
  · rintro ⟨⟨x, readPps, greatestPps⟩, ⟨y, readBps, greatestBps⟩⟩
    refine ⟨_, by rw [scanIncident, readPps, readBps]; rfl, greatestPps, greatestBps⟩

theorem readIncident_ok_iff {names : Int → Option String} {id : String} {db : Database}
    {row : IncidentRow} (stored : db.incidents.lookup id = some row) (order : List UpdateRow)
    (inc : Listed) (updates : List UpdateListed) :
    Store.readIncident names id db order = .ok (inc, updates) ↔
      scanIncident names id row = some inc ∧ order.mapM scanUpdate = some updates := by
  simp only [Store.readIncident, stored]
  cases scanIncident names id row with
  | none => simp
  | some found =>
      cases order.mapM scanUpdate with
      | none => simp
      | some items => simp

theorem updates_of_log {rows order : List UpdateRow} {events : List AttackEvent}
    {updates : List UpdateListed} (logged : List.Forall₂ Logged rows events)
    (same : order.Perm rows) (done : order.mapM scanUpdate = some updates) :
    (updates.map fun u => (u.pps, u.bps)).Perm (events.map fun ev => (ev.pps, ev.bps)) := by
  have read : updates.map (fun u => (u.pps, u.bps)) =
      order.map fun u => (u.pps.toUInt64, u.bps.toUInt64) := by
    have pairs := scan_iff.mp done
    clear done same logged
    induction order generalizing updates with
    | nil =>
        obtain rfl := List.map_eq_nil_iff.mp pairs.symm
        rfl
    | cons u rest ih =>
        cases updates with
        | nil => contradiction
        | cons item items =>
            rw [List.map_cons, List.map_cons, List.cons.injEq] at pairs
            rw [List.map_cons, List.map_cons, scanUpdate_spec pairs.1, ih pairs.2]
  rw [read, ← counters_of_logged logged]
  exact same.map _

theorem Holds.readable_iff {start db : Database} {events : List AttackEvent}
    (holds : Holds start events db) {id : String} (fresh : id ∉ start.incidents) :
    (∀ u ∈ db.updatesOf id, (scanUpdate u).isSome) ↔
      ∀ ev ∈ eventsOfIncident id events, Fits ev.pps ∧ Fits ev.bps :=
  scanned_iff_fits (holds.updatesOf fresh)

/-- `Get` gives the counters of an incident exactly where none of them reaches 2^63. -/
theorem gets_exact_iff {start db : Database} {events : List AttackEvent}
    (holds : Holds start events db) {id : String} (fresh : id ∉ start.incidents)
    (begun : id ∈ issued events) (names : Int → Option String) :
    (∀ result, Store.Gets names id db result →
      ∃ inc updates, result = .ok (inc, updates) ∧ ExactPeaks (eventsOfIncident id events) inc ∧
        (updates.map fun u => (u.pps, u.bps)).Perm
          ((eventsOfIncident id events).map fun ev => (ev.pps, ev.bps))) ↔
    ∀ ev ∈ eventsOfIncident id events, Signed ev := by
  have present : (db.incidents.lookup id).isSome :=
    AList.lookup_isSome.mpr ((holds.known id).mpr (.inl begun))
  obtain ⟨row, stored⟩ := Option.isSome_iff_exists.mp present
  have peaks := (holds.peaks id row stored).exact_iff fresh names
  have log := holds.readable_iff fresh
  have logged := holds.updatesOf fresh
  constructor
  · intro reads
    obtain ⟨order, rows, ordered⟩ := exists_ordered (fun u : UpdateRow => micros u.observedAt)
      (db.updatesOf id)
    obtain ⟨inc, updates, read, exact, -⟩ := reads _ ⟨order, rows, ordered, rfl⟩
    obtain ⟨scanned, done⟩ := (readIncident_ok_iff stored order inc updates).mp read
    have greatest := peaks.mp ⟨inc, scanned, exact⟩
    have counters := log.mp fun u member => by
      obtain ⟨item, -, found⟩ := item_of_row done (rows.mem_iff.mpr member)
      rw [found]
      rfl
    intro ev member
    obtain ⟨pps, bps⟩ := counters ev member
    obtain ⟨peakPps, peakBps⟩ := greatest ev member
    exact ⟨pps, bps, peakPps, peakBps⟩
  · rintro signed result ⟨order, rows, -, rfl⟩
    obtain ⟨inc, scanned, exact⟩ := peaks.mpr fun ev member =>
      ⟨(signed ev member).peakPps, (signed ev member).peakBps⟩
    have readable := log.mpr fun ev member => ⟨(signed ev member).pps, (signed ev member).bps⟩
    obtain ⟨updates, done⟩ := scan_all fun u member => readable u (rows.mem_iff.mp member)
    exact ⟨inc, updates, (readIncident_ok_iff stored order inc updates).mpr ⟨scanned, done⟩, exact,
      updates_of_log logged rows done⟩

theorem Signed.readable {events : List AttackEvent} {start : Database} {id : String}
    (signed : ∀ ev ∈ eventsOfIncident id events, Signed ev) {ev : AttackEvent}
    (member : ev ∈ eventsOfIncident id events) :
    (∃ x ∈ valuesOf start IncidentRow.peakPps AttackEvent.peakPps id events, 0 ≤ x) ∧
      ∃ x ∈ valuesOf start IncidentRow.peakBps AttackEvent.peakBps id events, 0 ≤ x := by
  have pps := (toInt64_negative_iff ev.peakPps).not.mpr (not_not.mpr (signed ev member).peakPps)
  have bps := (toInt64_negative_iff ev.peakBps).not.mpr (not_not.mpr (signed ev member).peakBps)
  constructor
  · exact ⟨_, List.mem_append_left _ (List.mem_map_of_mem member), Int64.not_lt.mp pps⟩
  · exact ⟨_, List.mem_append_left _ (List.mem_map_of_mem member), Int64.not_lt.mp bps⟩

theorem exists_event {events : List AttackEvent} {id : String} (begun : id ∈ issued events) :
    ∃ ev, ev ∈ eventsOfIncident id events := by
  obtain ⟨ev, started, same⟩ := List.mem_map.mp begun
  exact ⟨ev, mem_eventsOfIncident.mpr ⟨(List.mem_filter.mp started).1, same⟩⟩

/-- The counters of an incident come back exactly where none of them reaches 2^63 and no other
incident has lost the sign of a peak for good. -/
theorem persisted_iff (names : Int → Option String) {start db : Database} {trace : Writes}
    (run : Run Store.write start trace db) (begun : Begun start (applied trace)) {id : String}
    (started : id ∈ issued (applied trace)) :
    Persisted names db id (eventsOfIncident id (applied trace)) ↔
      WithinSign start id (applied trace) := by
  have holds := holds_run run begun
  have fresh := begun.2 id started
  have gets := gets_exact_iff holds fresh started names
  constructor
  · intro persisted
    constructor
    · exact gets.mp persisted.get
    · intro other known _
      have listed := (lists_ok_iff names db).mp fun f formed result reads =>
        (persisted.list f formed result reads).imp fun _ found => found.1
      have present := AList.lookup_isSome.mpr ((holds.known other).mpr known)
      obtain ⟨row, stored⟩ := Option.isSome_iff_exists.mp present
      exact ((holds.peaks other row stored).readable_iff names).mp (listed other row stored)
  · intro within
    have readable : ∀ other row, db.incidents.lookup other = some row →
        (scanIncident names other row).isSome := by
      intro other row stored
      rw [(holds.peaks other row stored).readable_iff names]
      by_cases own : other = id
      · subst own
        obtain ⟨ev, member⟩ := exists_event started
        exact Signed.readable within.own member
      · have present : other ∈ db.incidents := AList.lookup_isSome.mp (by rw [stored]; rfl)
        exact within.others other ((holds.known other).mp present) own
    constructor
    · intro f formed result reads
      obtain ⟨page, rfl⟩ := (lists_ok_iff names db).mpr readable f formed result reads
      refine ⟨page, rfl, fun inc member same => ?_⟩
      obtain ⟨other, row, stored, scanned⟩ := row_of_page formed reads member
      obtain rfl : other = id := (scanIncident_spec scanned).1.symm.trans same
      obtain ⟨read, again, exact⟩ := ((holds.peaks other row stored).exact_iff fresh names).mpr
        fun ev own => ⟨(within.own ev own).peakPps, (within.own ev own).peakBps⟩
      obtain rfl : inc = read := Option.some.inj (scanned.symm.trans again)
      exact exact
    · exact gets.mpr within.own

def sampleWrite (id : String) (state : State) (peakPps : UInt64) : Write where
  fault := .none
  now := Time.ofUnix 100
  ev := { sampleEvent id state with peakPps := peakPps }

theorem persisted_sample : ∃ (trace : Writes) (db : Database),
    issued (applied trace) = ["b", "a"] ∧
      Persisted (fun _ => none) db "a" (eventsOfIncident "a" (applied trace)) := by
  have executed : (Run.replay Store.write [] Process.emptyDatabase
      [sampleWrite "a" .started 7, sampleWrite "b" .started (2 ^ 63),
        sampleWrite "b" .updated 9, sampleWrite "a" .ended 8]).map
      (fun made : Writes × Database => (issued (applied made.1),
        decide (∀ ev ∈ eventsOfIncident "a" (applied made.1), Signed ev),
        valuesOf Process.emptyDatabase IncidentRow.peakPps AttackEvent.peakPps "b"
          (applied made.1),
        valuesOf Process.emptyDatabase IncidentRow.peakBps AttackEvent.peakBps "b"
          (applied made.1))) =
      some (["b", "a"], true, [9, -9223372036854775808], [700, 700]) := by
    decide +kernel
  obtain ⟨⟨trace, db⟩, replayed, observed⟩ := Option.map_eq_some_iff.mp executed
  simp only [Prod.mk.injEq, decide_eq_true_eq] at observed
  obtain ⟨identifiers, signed, packets, bytes⟩ := observed
  have empty : ∀ id, id ∉ Process.emptyDatabase.incidents := fun id => AList.notMem_empty id
  have begun : Begun Process.emptyDatabase (applied trace) := by
    refine ⟨?_, fun id _ => empty id⟩
    rw [identifiers]
    decide
  have started : "a" ∈ issued (applied trace) := by
    rw [identifiers]
    decide
  refine ⟨trace, db, identifiers, ?_⟩
  apply (persisted_iff _ (Run.of_replay .start replayed) begun started).mpr
  constructor
  · exact signed
  · rintro other (known | impossible) different
    · rw [identifiers] at known
      obtain rfl : other = "b" := by simpa [different] using known
      rw [packets, bytes]
      exact ⟨⟨9, by decide, by decide⟩, ⟨700, by decide, by decide⟩⟩
    · exact absurd impossible (empty other)

/-- The second event brings a peak of 2^63, which the column takes for a negative number. -/
theorem peak_lost : ∃ (trace : Writes) (db : Database),
    Run Store.write Process.emptyDatabase trace db ∧
      Begun Process.emptyDatabase (applied trace) ∧ "a" ∈ issued (applied trace) ∧
      ¬ Persisted (fun _ => none) db "a" (eventsOfIncident "a" (applied trace)) := by
  have executed : (Run.replay Store.write [] Process.emptyDatabase
      [sampleWrite "a" .started 7, sampleWrite "a" .updated (2 ^ 63)]).map
      (fun made : Writes × Database => (issued (applied made.1),
        decide (∀ ev ∈ eventsOfIncident "a" (applied made.1), Signed ev))) =
      some (["a"], false) := by
    decide +kernel
  obtain ⟨⟨trace, db⟩, replayed, observed⟩ := Option.map_eq_some_iff.mp executed
  simp only [Prod.mk.injEq, decide_eq_false_iff_not] at observed
  obtain ⟨identifiers, wrapped⟩ := observed
  have run : Run Store.write Process.emptyDatabase trace db := Run.of_replay .start replayed
  have begun : Begun Process.emptyDatabase (applied trace) := by
    refine ⟨?_, fun id _ => AList.notMem_empty id⟩
    rw [identifiers]
    decide
  have started : "a" ∈ issued (applied trace) := by
    rw [identifiers]
    decide
  refine ⟨trace, db, run, begun, started, fun persisted => wrapped ?_⟩
  exact (gets_exact_iff (holds_run run begun) (begun.2 _ started) started _).mp persisted.get

end Mitigador.Incident
