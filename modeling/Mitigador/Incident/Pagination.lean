import Mitigador.Incident.ReadBack
import Mitigador.Lib.Paging

/-! All pages of `List`, one after another, over a table that does not change meanwhile. -/

namespace Mitigador.Incident

open Go Detect Lib

def Database.matching (db : Database) (f : Filter) : List TableRow :=
  db.incidents.entries.filter fun entry => f.accepts entry.2

def startedKey (entry : TableRow) : Int := micros entry.2.startedAt

def Filter.page (f : Filter) (size k : Nat) : Filter :=
  { f with limit := size, offset := (k * size : Nat) }

/-- Whichever results the queries have, the pages from the first one up to the total hold every
matching incident once, in the order of their starts, and as many as every page says. -/
def Paginates (names : Int → Option String) (f : Filter) (size : Nat) (db : Database) : Prop :=
  ∀ results : Nat → Except String ListResult,
    (∀ k, Store.Lists names (f.page size k) db (results k)) →
    ∃ pages : Nat → List Listed,
      (∀ k, results k = .ok ⟨pages k, (db.matching f).length⟩) ∧
      let items := (List.range ((db.matching f).length / size + 1)).flatMap pages
      items.length = (db.matching f).length ∧
        (items.Pairwise fun first second => micros second.startedAt ≤ micros first.startedAt) ∧
        ∃ order : List TableRow, order.Perm (db.matching f) ∧
          order.mapM (fun entry => scanIncident names entry.1 entry.2) = some items

theorem scanIncident_startedAt {names : Int → Option String} {id : String} {row : IncidentRow}
    {inc : Listed} (read : scanIncident names id row = some inc) :
    inc.startedAt = row.startedAt := by
  unfold scanIncident at read
  obtain ⟨pps, -, more⟩ := Option.bind_eq_some_iff.mp read
  obtain ⟨bps, -, made⟩ := Option.bind_eq_some_iff.mp more
  cases made
  rfl

theorem ids_nodup (db : Database) (f : Filter) : ((db.matching f).map Sigma.fst).Nodup :=
  db.incidents.nodupKeys.sublist List.filter_sublist

theorem length_le_pages (db : Database) (f : Filter) {size : Nat} (positive : 0 < size) :
    (db.matching f).length ≤ ((db.matching f).length / size + 1) * size := by
  rw [Nat.mul_comm]
  exact (Nat.lt_mul_div_succ _ positive).le

theorem mapM_flatMap {α β : Type*} {scan : α → Option β} {rows : Nat → List α}
    {pages : Nat → List β} (each : ∀ k, (rows k).mapM scan = some (pages k)) (numbers : List Nat) :
    (numbers.flatMap rows).mapM scan = some (numbers.flatMap pages) := by
  rw [scan_iff, List.map_flatMap, List.map_flatMap]
  congr 1
  funext k
  exact scan_iff.mp (each k)

theorem map_of_scan {α β γ : Type*} {scan : α → Option β} {column : α → γ} {field : β → γ}
    (same : ∀ row item, scan row = some item → field item = column row) {rows : List α}
    {items : List β} (done : rows.mapM scan = some items) : items.map field = rows.map column := by
  rw [scan_iff] at done
  induction rows generalizing items with
  | nil =>
      obtain rfl := List.map_eq_nil_iff.mp done.symm
      rfl
  | cons row rest ih =>
      cases items with
      | nil => simp at done
      | cons item others =>
          obtain ⟨first, later⟩ := List.cons.inj done
          rw [List.map_cons, List.map_cons, ih later, same row item first]

theorem starts_of_scan {names : Int → Option String} {rows : List TableRow} {items : List Listed}
    (done : rows.mapM (fun entry => scanIncident names entry.1 entry.2) = some items) :
    items.map (fun inc => micros inc.startedAt) = rows.map startedKey :=
  map_of_scan (fun _ _ read => congrArg micros (scanIncident_startedAt read)) done

theorem ids_of_scan {names : Int → Option String} {rows : List TableRow} {items : List Listed}
    (done : rows.mapM (fun entry => scanIncident names entry.1 entry.2) = some items) :
    items.map Listed.id = rows.map Sigma.fst :=
  map_of_scan (fun _ _ read => (scanIncident_spec read).1) done

theorem castable_of_ok {names : Int → Option String} {f : Filter} {order : List TableRow}
    {result : ListResult} (read : Store.readPage names f order = .ok result) :
    ∀ ip ∈ f.hostIP, isInet ip = true := by
  intro ip given
  by_contra bad
  have refused : (f.hostIP.any fun ip => !isInet ip) = true := by
    rw [Option.any_eq_true]
    exact ⟨ip, given, by simp [bad]⟩
  rw [Store.readPage, if_pos refused] at read
  contradiction

section Query

variable {names : Int → Option String} {f : Filter} {size : Nat} {db : Database}

theorem lists_iff {k : Nat} {result : Except String ListResult} :
    Store.Lists names (f.page size k) db result ↔ ∃ order,
      Ordered startedKey (db.matching f) order ∧
        result = Store.readPage names (f.page size k) order := by
  constructor
  · rintro ⟨order, perm, sorted, same⟩
    exact ⟨order, ⟨perm, sorted⟩, same⟩
  · rintro ⟨order, ordered, same⟩
    exact ⟨order, ordered.perm, ordered.sorted, same⟩

theorem exists_order (db : Database) (f : Filter) :
    ∃ order, Ordered startedKey (db.matching f) order := by
  obtain ⟨order, perm, sorted⟩ :=
    exists_ordered (fun entry : TableRow => -startedKey entry) (db.matching f)
  exact ⟨order, perm, sorted.imp Int.neg_le_neg_iff.mp⟩

theorem readPage_page (least : 1 ≤ size) (most : size ≤ 500)
    (castable : ∀ ip ∈ f.hostIP, isInet ip = true) (k : Nat) (order : List TableRow) :
    Store.readPage names (f.page size k) order =
      match (page order size k).mapM fun entry => scanIncident names entry.1 entry.2 with
      | none => .error "incident: list scan"
      | some items => .ok ⟨items, order.length⟩ := by
  have formed : (f.page size k).WellFormed := ⟨castable, Int.natCast_nonneg _⟩
  have limit : (f.page size k).pageSize = size := by
    simp only [Filter.pageSize, Filter.page]
    split_ifs <;> omega
  rw [readPage_wellFormed names formed, limit]
  rfl

variable (least : 1 ≤ size) (most : size ≤ 500)

include least most

/-- What pagination rests on: a host that can be cast, rows that can be scanned, and no two incidents
of one start around the begin of a page. -/
theorem paginates_of_clean (castable : ∀ ip ∈ f.hostIP, isInet ip = true)
    (readable : ∀ entry ∈ db.matching f, (scanIncident names entry.1 entry.2).isSome)
    (clean : ∀ k, ¬ Straddles startedKey (db.matching f) (k * size)) :
    Paginates names f size db := by
  intro results listed
  have each : ∀ k, ∃ order, Ordered startedKey (db.matching f) order ∧
      results k = Store.readPage names (f.page size k) order := fun k => lists_iff.mp (listed k)
  choose orders ordered read using each
  have scanned : ∀ k, ∃ items, (page (orders k) size k).mapM
      (fun entry => scanIncident names entry.1 entry.2) = some items := by
    intro k
    apply scan_all
    intro entry paged
    exact readable entry ((ordered k).perm.mem_iff.mp
      (List.mem_of_mem_drop (List.mem_of_mem_take paged)))
  choose pages done using scanned
  refine ⟨pages, fun k => ?_, ?_⟩
  · rw [read, readPage_page least most castable, done, (ordered k).perm.length_eq]
  intro items
  obtain ⟨order, last⟩ := exists_order db f
  let n := (db.matching f).length / size + 1
  have enough := length_le_pages db f (show 0 < size by omega)
  have perm : (crawl orders size n).Perm (db.matching f) :=
    (crawl_perm_iff last (ids_nodup db f).of_map (by omega) enough).mpr clean orders ordered
  have whole : (crawl orders size n).mapM (fun entry => scanIncident names entry.1 entry.2) =
      some items := mapM_flatMap done (List.range n)
  have starts := starts_of_scan whole
  refine ⟨?_, ?_, crawl orders size n, perm, whole⟩
  · have same := congrArg List.length (scan_iff.mp whole)
    rw [List.length_map, List.length_map] at same
    rw [← same, perm.length_eq]
  · have sorted : ((crawl orders size n).map startedKey).Pairwise fun first second =>
        second ≤ first := by
      rw [crawl_keys ordered last]
      exact (List.pairwise_map.mpr last.sorted).sublist (List.take_sublist _ _)
    rw [← starts] at sorted
    exact List.pairwise_map.mp sorted

theorem crawled_of_paginates (castable : ∀ ip ∈ f.hostIP, isInet ip = true)
    (paginates : Paginates names f size db) {orders : Nat → List TableRow}
    (ordered : ∀ k, Ordered startedKey (db.matching f) (orders k)) :
    (crawl orders size ((db.matching f).length / size + 1)).Nodup ∧
      ∀ k, ∀ entry ∈ page (orders k) size k, (scanIncident names entry.1 entry.2).isSome := by
  obtain ⟨pages, read, -, -, order, perm, whole⟩ := paginates
    (fun k => Store.readPage names (f.page size k) (orders k))
    fun k => lists_iff.mpr ⟨orders k, ordered k, rfl⟩
  have done : ∀ k, (page (orders k) size k).mapM
      (fun entry => scanIncident names entry.1 entry.2) = some (pages k) := by
    intro k
    have same := read k
    rw [readPage_page least most castable] at same
    split at same
    · contradiction
    · next items scanned =>
        have items := congrArg ListResult.items (Except.ok.inj same)
        rw [scanned]
        exact congrArg some items
  constructor
  · have crawled := mapM_flatMap done (List.range ((db.matching f).length / size + 1))
    have ids := ids_of_scan crawled
    rw [ids_of_scan whole] at ids
    have distinct : ((crawl orders size ((db.matching f).length / size + 1)).map Sigma.fst).Nodup := by
      rw [crawl, ← ids, (perm.map Sigma.fst).nodup_iff]
      exact ids_nodup db f
    exact distinct.of_map
  · intro k entry member
    obtain ⟨item, -, scanned⟩ := item_of_row (done k) member
    rw [scanned]
    rfl

end Query

/-- The pages are complete exactly where the host of the filter can be cast to inet, every matching
incident can be scanned, and no start has incidents on both sides of the begin of a page: for no
matching incident are fewer incidents later and more of them as late as the offset. -/
theorem paginates_iff (names : Int → Option String) (f : Filter) {size : Nat} (least : 1 ≤ size)
    (most : size ≤ 500) (db : Database) :
    Paginates names f size db ↔ (∀ ip ∈ f.hostIP, isInet ip = true) ∧
      (∀ entry ∈ db.matching f, ¬ entry.2.peakPps < 0 ∧ ¬ entry.2.peakBps < 0) ∧
      ∀ k, ¬ Straddles startedKey (db.matching f) (k * size) := by
  have scans : ∀ entry : TableRow, (¬ entry.2.peakPps < 0 ∧ ¬ entry.2.peakBps < 0) ↔
      (scanIncident names entry.1 entry.2).isSome := fun _ => scanIncident_isSome.symm
  simp only [scans]
  constructor
  · intro paginates
    obtain ⟨order, ordered⟩ := exists_order db f
    have castable : ∀ ip ∈ f.hostIP, isInet ip = true := by
      obtain ⟨pages, read, -⟩ := paginates (fun k => Store.readPage names (f.page size k) order)
        fun k => lists_iff.mpr ⟨order, ordered, rfl⟩
      have first := castable_of_ok (read 0)
      exact first
    have enough := length_le_pages db f (show 0 < size by omega)
    refine ⟨castable, fun entry matching => ?_, fun k straddles => ?_⟩
    · obtain ⟨-, readable⟩ :=
        crawled_of_paginates least most castable paginates fun _ => ordered
      have reached : entry ∈ crawl (fun _ => order) size ((db.matching f).length / size + 1) := by
        rw [crawl_const, List.take_of_length_le (by rw [ordered.perm.length_eq]; exact enough)]
        exact ordered.perm.mem_iff.mpr matching
      obtain ⟨k, -, paged⟩ := List.mem_flatMap.mp reached
      exact readable k entry paged
    · obtain ⟨orders, each, twice⟩ :=
        exists_repeated ordered (by omega) straddles (straddles.page_lt enough)
      exact twice (crawled_of_paginates least most castable paginates each).1
  · rintro ⟨castable, readable, clean⟩
    exact paginates_of_clean least most castable readable clean

def startedRow (sec : Int) : IncidentRow where
  hostIP := .v4 0xc0000201
  castable := rfl
  vector := .udpFlood
  hostgroupID := none
  startedAt := Time.ofUnix sec
  endedAt := none
  peakPps := 0
  peakBps := 0
  score := 0
  createdAt := Time.ofUnix sec

def startedTable (first second : Int) : Database where
  hostgroups := fun _ => none
  incidents := ((∅ : KeyedMap String IncidentRow).insert "b" (startedRow second)).insert "a"
    (startedRow first)
  attackUpdates := []
  references := fun _ member => nomatch member

theorem matching_startedTable (first second : Int) :
    (startedTable first second).matching (.all 0) =
      [⟨"a", startedRow first⟩, ⟨"b", startedRow second⟩] := rfl

theorem paginates_iff_sample :
    Paginates (fun _ => none) (.all 0) 1 (startedTable 101 100) := by
  refine (paginates_iff _ _ (by decide) (by decide) _).mpr ⟨by simp [Filter.all], ?_, ?_⟩
  · rw [matching_startedTable]
    simp [startedRow]
  · rw [matching_startedTable]
    rintro k ⟨row, member, low, high⟩
    simp only [List.mem_cons, List.not_mem_nil, or_false] at member
    rcases member with rfl | rfl
    · have first : k * 1 < 1 := high
      omega
    · have above : 1 < k * 1 := low
      have all : k * 1 < 2 := high
      omega

/-- Two incidents of one tick: the second page may be the first one again. -/
theorem tick_repeats : ∃ page : ListResult, page.items.map Listed.id = ["a"] ∧ page.total = 2 ∧
    Store.Lists (fun _ => none) ((Filter.all 0).page 1 0) (startedTable 100 100) (.ok page) ∧
    Store.Lists (fun _ => none) ((Filter.all 0).page 1 1) (startedTable 100 100) (.ok page) ∧
    ¬ Paginates (fun _ => none) (.all 0) 1 (startedTable 100 100) := by
  let a : TableRow := ⟨"a", startedRow 100⟩
  let b : TableRow := ⟨"b", startedRow 100⟩
  have one : Ordered startedKey ((startedTable 100 100).matching (.all 0)) [a, b] :=
    ⟨.refl _, by simp [a, b, startedKey]⟩
  have other : Ordered startedKey ((startedTable 100 100).matching (.all 0)) [b, a] :=
    ⟨.swap _ _ _, by simp [a, b, startedKey]⟩
  refine ⟨⟨[⟨"a", .v4 0xc0000201, .udpFlood, "", Time.ofUnix 100, none, 0, 0, 0⟩], 2⟩, rfl, rfl,
    lists_iff.mpr ⟨[a, b], one, rfl⟩, lists_iff.mpr ⟨[b, a], other, rfl⟩, fun paginates => ?_⟩
  have castable : ∀ ip ∈ (Filter.all 0).hostIP, isInet ip = true := by simp [Filter.all]
  let orders (k : Nat) : List TableRow := if k = 1 then [b, a] else [a, b]
  have ordered : ∀ k, Ordered startedKey ((startedTable 100 100).matching (.all 0)) (orders k) := by
    intro k
    by_cases second : k = 1
    · simpa only [orders, if_pos second] using other
    · simpa only [orders, if_neg second] using one
  have nodup := (crawled_of_paginates (by decide) (by decide) castable paginates ordered).1
  have twice : crawl orders 1 3 = [a, a] := rfl
  rw [matching_startedTable, List.length_cons, List.length_singleton, Nat.div_one, twice] at nodup
  simp at nodup

end Mitigador.Incident
