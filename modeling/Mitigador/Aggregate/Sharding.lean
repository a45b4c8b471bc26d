import Mathlib.Data.List.Perm.Basic
import Mathlib.Data.List.Sigma
import Mitigador.Aggregate.Machine

/-! A store with shards against one map without shards, after the same calls. -/

namespace Mitigador.Aggregate.Machine

open Go Mitigador.Flow Lib

def addresses : List Op → List Addr
  | [] => []
  | .update ip _ _ :: past => ip :: addresses past
  | .tick _ :: past => addresses past

theorem addresses_of_lookup {history : List Op} {ip : Addr} {hr : HostRing}
    (known : (Hosts.after history).lookup ip = some hr) : ip ∈ addresses history := by
  induction history generalizing hr with
  | nil => simp [Hosts.after] at known
  | cons op past ih =>
      cases op with
      | update host sec r =>
          by_cases same : ip = host
          · simp [addresses, same]
          · apply List.mem_cons_of_mem
            apply ih
            simpa only [Hosts.after, Hosts.apply, Hosts.update, KeyedMap.lookup_insert,
              if_neg same] using known
      | tick now =>
          simp only [Hosts.after, Hosts.apply, Hosts.tick, KeyedMap.lookup_sweep] at known
          obtain ⟨before, present, -⟩ := Option.bind_eq_some_iff.mp known
          exact ih present

theorem shardFor_eq_some {s : Store} {ip : Addr} {home : Fin s.size} (positive : 0 < s.n.toNat)
    (hashed : (fnv32a ip.as16Bytes).toNat % s.n.toNat = home.val) : s.shardFor ip = some home := by
  simp only [Store.shardFor, dif_pos positive, Option.some.injEq]
  exact Fin.ext hashed

theorem exists_home (s : Store) (positive : 0 < s.n.toNat) (ip : Addr) :
    ∃ home, s.shardFor ip = some home := by
  simp [Store.shardFor, positive]

theorem shardFor_eq_none {s : Store} (zero : s.n.toNat = 0) (ip : Addr) :
    s.shardFor ip = none := by
  simp [Store.shardFor, zero]

theorem exists_update (s : Store) (positive : 0 < s.n.toNat) (ip : Addr) (sec : Int64)
    (r : Record) : ∃ next, s.update ip sec r = some next := by
  obtain ⟨home, routed⟩ := exists_home s positive ip
  unfold Store.update
  split
  · next missing =>
      rw [routed] at missing
      contradiction
  · exact ⟨_, rfl⟩

theorem n_apply {s next : Store} {op : Op} (applied : s.apply op = some next) :
    next.n = s.n := by
  cases op with
  | update ip sec r =>
      obtain ⟨home, hashed, rfl⟩ := Store.update_eq_some applied
      rfl
  | tick now =>
      cases applied
      rfl

theorem represents_update {s next : Store} {hosts : Hosts} {ip : Addr} {sec : Int64} {r : Record}
    (represents : s.Represents hosts) (updated : s.update ip sec r = some next) :
    next.Represents (hosts.update ip sec r) := by
  obtain ⟨home, routed, rfl⟩ := Store.update_eq_some updated
  intro other (place : Fin s.size) found
  have route : s.shardFor other = some place := found
  have own : s.shards[home].lookup ip = hosts.lookup ip := represents ip home routed
  simp only [Hosts.update, KeyedMap.lookup_insert]
  by_cases same : other = ip
  · subst same
    have here : place = home := Option.some.inj (route.symm.trans routed)
    subst here
    simp only [Fin.getElem_fin, Vector.getElem_set_self, KeyedMap.lookup_insert, if_true]
    rw [← own]
    rfl
  · rw [if_neg same, ← represents other place route]
    by_cases shared : place = home
    · subst shared
      simp only [Fin.getElem_fin, Vector.getElem_set_self, KeyedMap.lookup_insert, if_neg same]
    · have apart : home.val ≠ place.val := fun equal => shared (Fin.ext equal.symm)
      simp only [Fin.getElem_fin, Vector.getElem_set_ne _ _ apart]

theorem represents_tick {s : Store} {hosts : Hosts} (represents : s.Represents hosts)
    (now : Int64) : (s.tick now).Represents (hosts.tick now) := by
  intro ip place found
  have route : s.shardFor ip = some place := found
  have own := represents ip place route
  change (s.shards.map (Hosts.tick now))[place.val].lookup ip = _
  rw [Vector.getElem_map, Hosts.tick, Hosts.tick, KeyedMap.lookup_sweep, KeyedMap.lookup_sweep,
    ← own]
  rfl

theorem after_represents (start : Store) (positive : 0 < start.n.toNat)
    (fresh : start.Represents ∅) (history : List Op) :
    ∃ s, start.after history = some s ∧ s.n = start.n ∧
      s.Represents (Hosts.after history) := by
  induction history with
  | nil => exact ⟨start, rfl, rfl, fresh⟩
  | cons op past ih =>
      obtain ⟨s, ran, same, represents⟩ := ih
      have live : 0 < s.n.toNat := by rw [same]; exact positive
      have applied : ∃ next, s.apply op = some next := by
        cases op with
        | update ip sec r => exact exists_update s live ip sec r
        | tick now => exact ⟨s.tick now, rfl⟩
      obtain ⟨next, stepped⟩ := applied
      refine ⟨next, ?_, (n_apply stepped).trans same, ?_⟩
      · simp only [Store.after, ran, Option.bind_some, stepped]
      · cases op with
        | update ip sec r => exact represents_update represents stepped
        | tick now =>
            cases stepped
            exact represents_tick represents now

/-! What a range over all shards visits. -/

theorem entries_nodup (hosts : Hosts) : hosts.entries.Nodup :=
  hosts.nodupKeys.nodup

theorem mem_shards {s : Store} {hosts : Hosts} (positive : 0 < s.n.toNat)
    (represents : s.Represents hosts) (entry : Entry) :
    entry ∈ (s.shards.toList.map AList.entries).flatten ↔ entry ∈ hosts.entries := by
  obtain ⟨ip, hr⟩ := entry
  rw [KeyedMap.mem_entries, List.mem_flatten]
  constructor
  · intro ⟨part, listed, member⟩
    obtain ⟨shard, inside, rfl⟩ := List.mem_map.mp listed
    obtain ⟨i, bound, rfl⟩ := List.mem_iff_getElem.mp inside
    have index : i < s.size := by simpa using bound
    rw [KeyedMap.mem_entries] at member
    have home := s.placed ⟨i, index⟩ ip (by
      rw [← AList.lookup_isSome]
      simpa using congrArg Option.isSome member)
    have found := represents ip ⟨i, index⟩ (shardFor_eq_some positive home)
    rw [← found]
    simpa using member
  · intro known
    obtain ⟨home, routed⟩ := exists_home s positive ip
    refine ⟨s.shards[home].entries, List.mem_map.mpr ⟨s.shards[home], by simp, rfl⟩, ?_⟩
    rw [KeyedMap.mem_entries, represents ip home routed]
    exact known

theorem shards_nodup (s : Store) : ((s.shards.toList.map AList.entries).flatten).Nodup := by
  rw [List.nodup_flatten]
  constructor
  · intro part listed
    obtain ⟨hosts, -, rfl⟩ := List.mem_map.mp listed
    exact entries_nodup hosts
  · rw [List.pairwise_map, List.pairwise_iff_getElem]
    intro i j boundI boundJ before entry inFirst inSecond
    have insideI : i < s.size := by simpa using boundI
    have insideJ : j < s.size := by simpa using boundJ
    have known {k : Nat} (inside : k < s.size) (member : entry ∈ s.shards[k].entries) :
        entry.1 ∈ s.shards[k] := List.mem_keys_of_mem member
    have first := s.placed ⟨i, insideI⟩ entry.1 (known insideI (by simpa using inFirst))
    have second := s.placed ⟨j, insideJ⟩ entry.1 (known insideJ (by simpa using inSecond))
    simp only at first second
    omega

theorem visits_perm {s : Store} {hosts : Hosts} {visited flat : List Entry}
    (positive : 0 < s.n.toNat) (represents : s.Represents hosts) (walked : s.Visits visited)
    (ranged : flat.Perm hosts.entries) : visited.Perm flat := by
  obtain ⟨parts, each, rfl⟩ := walked
  have listed : List.Forall₂ List.Perm parts (s.shards.toList.map AList.entries) := by
    rw [List.forall₂_map_right_iff]
    exact each
  calc
    parts.flatten.Perm (s.shards.toList.map AList.entries).flatten :=
      List.Perm.flatten_congr listed
    List.Perm _ hosts.entries := by
      rw [List.perm_ext_iff_of_nodup (shards_nodup s) (entries_nodup hosts)]
      exact mem_shards positive represents
    List.Perm _ flat := ranged.symm

/-! The views of two lists of hosts that are arrangements of each other. -/

theorem overview_perm (now : Int64) {visited flat : List Entry} (same : visited.Perm flat) :
    overview now visited = overview now flat := by
  have active := same.filter fun entry => entry.2.recent now
  unfold overview
  rw [OverviewResult.mk.injEq]
  constructor
  · apply List.map_congr_left
    intro i _
    exact (active.map _).sum_eq
  · exact active.length_eq

theorem activeHosts_perm (now : Int64) {visited flat : List Entry} (same : visited.Perm flat) :
    (activeHosts now visited).Perm (activeHosts now flat) :=
  same.filterMap _

theorem rows_perm (now : Int64) {visited flat : List Entry} (same : visited.Perm flat) :
    (rows now visited).Perm (rows now flat) :=
  (same.filter _).filterMap _

theorem ip_ofTotal {ip : Addr} {total : Bucket} {row : TopEntry}
    (made : TopEntry.ofTotal ip total = some row) : row.ip = ip := by
  unfold TopEntry.ofTotal at made
  split at made
  · contradiction
  · cases made
    rfl

theorem mem_rows {hosts : Hosts} {flat : List Entry} (ranged : flat.Perm hosts.entries)
    (now : Int64) (row : TopEntry) :
    row ∈ rows now flat ↔ ∃ hr, hosts.lookup row.ip = some hr ∧ hr.recent now = true ∧
      TopEntry.ofTotal row.ip hr.total = some row := by
  simp only [rows, List.mem_filterMap, List.mem_filter, ranged.mem_iff]
  constructor
  · intro ⟨⟨ip, hr⟩, ⟨member, young⟩, made⟩
    rw [ip_ofTotal made]
    exact ⟨hr, (KeyedMap.mem_entries _ _ _).mp member, young, made⟩
  · intro ⟨hr, known, young, made⟩
    exact ⟨⟨row.ip, hr⟩, ⟨(KeyedMap.mem_entries _ _ _).mpr known, young⟩, made⟩

def PrintApart (hosts : Hosts) : Prop :=
  ∀ first ∈ hosts, ∀ second ∈ hosts, first.text = second.text → first = second

theorem rows_antisymm {hosts : Hosts} {flat : List Entry} {now : Int64} {first second : TopEntry}
    (apart : PrintApart hosts) (ranged : flat.Perm hosts.entries)
    (firstRow : first ∈ rows now flat) (secondRow : second ∈ rows now flat)
    (below : second.less first = false) (above : first.less second = false) :
    first = second := by
  obtain ⟨hr, known, -, made⟩ := (mem_rows ranged now first).mp firstRow
  obtain ⟨other, knownOther, -, madeOther⟩ := (mem_rows ranged now second).mp secondRow
  have bytes : first.bps = second.bps := by
    by_contra different
    rw [TopEntry.less, if_pos (Ne.symm different), decide_eq_false_iff_not] at below
    rw [TopEntry.less, if_pos different, decide_eq_false_iff_not] at above
    exact different (UInt64.le_antisymm (UInt64.not_lt.mp above) (UInt64.not_lt.mp below))
  have text : first.ip.text = second.ip.text := by
    rw [TopEntry.less, if_neg (not_not.mpr bytes.symm), decide_eq_false_iff_not] at below
    rw [TopEntry.less, if_neg (not_not.mpr bytes), decide_eq_false_iff_not] at above
    exact String.le_antisymm below above
  have inFirst : first.ip ∈ hosts := AList.lookup_isSome.mp (by rw [known]; rfl)
  have inSecond : second.ip ∈ hosts := AList.lookup_isSome.mp (by rw [knownOther]; rfl)
  have ips : first.ip = second.ip := apart _ inFirst _ inSecond text
  rw [ips, knownOther] at known
  cases known
  rw [ips, madeOther] at made
  exact (Option.some.inj made).symm

theorem top_unique {hosts : Hosts} {visited flat : List Entry} {now : Int64} {n : Int}
    {result other : List TopEntry} (apart : PrintApart hosts) (ranged : flat.Perm hosts.entries)
    (same : visited.Perm flat) (top : Top now n visited result) (reference : Top now n flat other) :
    result = other := by
  unfold Top at top reference
  split at top
  · next empty =>
      rw [if_pos empty] at reference
      rw [top, reference]
  · next asked =>
      rw [if_neg asked] at reference
      obtain ⟨sorted, arranged, ordered, rfl⟩ := top
      obtain ⟨sortedOther, arrangedOther, orderedOther, rfl⟩ := reference
      have equal : sorted = sortedOther := by
        refine List.Perm.eq_of_pairwise ?_ ordered orderedOther
          ((arranged.trans (rows_perm now same)).trans arrangedOther.symm)
        intro first second firstIn secondIn below above
        have firstRow := (rows_perm now same).mem_iff.mp (arranged.mem_iff.mp firstIn)
        have secondRow := arrangedOther.mem_iff.mp secondIn
        exact rows_antisymm apart ranged firstRow secondRow below above
      rw [equal]

/-! What the ranking is, in its own words. -/

/-- The protocol with the most bytes; of equal ones the first of udp, icmp, other. -/
def Dominant (total : Bucket) (proto : String) : Prop :=
  (proto = "udp" ∧ total.bpsICMP ≤ total.bpsUDP ∧ total.bpsOther ≤ total.bpsUDP) ∨
  (proto = "icmp" ∧ total.bpsUDP < total.bpsICMP ∧ total.bpsOther ≤ total.bpsICMP) ∨
  (proto = "other" ∧ total.bpsUDP < total.bpsOther ∧ total.bpsICMP < total.bpsOther)

structure Ranked (hosts : Hosts) (now : Int64) (row : TopEntry) (hr : HostRing) : Prop where
  known : hosts.lookup row.ip = some hr
  recent : now - hr.lastSec ≤ 60
  bytes : row.bps = (hr.buckets.toList.map Bucket.bps).sum
  busy : row.bps ≠ 0
  packets : row.pps = (hr.buckets.toList.map Bucket.pps).sum
  dominant : Dominant hr.total row.dominantProto

def Before (first second : TopEntry) : Prop :=
  second.bps < first.bps ∨ (first.bps = second.bps ∧ first.ip.text < second.ip.text)

structure Ranking (hosts : Hosts) (now : Int64) (ranked : List TopEntry) : Prop where
  rows : ∀ row, row ∈ ranked ↔ ∃ hr, Ranked hosts now row hr
  ordered : ranked.Pairwise Before

theorem before_iff (first second : TopEntry) : Before first second ↔ first.less second = true := by
  unfold Before TopEntry.less
  by_cases bytes : first.bps = second.bps
  · simp [bytes]
  · simp [bytes]

theorem less_total (first second : TopEntry) :
    first.less second = false ∨ second.less first = false := by
  by_contra both
  obtain ⟨below, above⟩ := not_or.mp both
  rw [Bool.not_eq_false, ← before_iff] at below above
  rcases below with more | ⟨equal, earlier⟩
  · rcases above with less | ⟨same, -⟩
    · exact UInt64.lt_irrefl _ (UInt64.lt_trans more less)
    · rw [same] at more
      exact UInt64.lt_irrefl _ more
  · rcases above with less | ⟨-, later⟩
    · rw [equal] at less
      exact UInt64.lt_irrefl _ less
    · exact String.lt_irrefl _ (String.lt_trans earlier later)

theorem less_trans {first second third : TopEntry} (below : second.less first = false)
    (above : third.less second = false) : third.less first = false := by
  rw [Bool.eq_false_iff, ne_eq, ← before_iff] at below above ⊢
  simp only [Before, not_or, not_and, UInt64.not_lt, String.not_lt] at below above ⊢
  constructor
  · exact UInt64.le_trans above.1 below.1
  · intro equal
    have upper : second.bps = third.bps :=
      UInt64.le_antisymm (by rw [equal]; exact below.1) above.1
    have lower : second.bps = first.bps := upper.trans equal
    exact String.le_trans (below.2 lower) (above.2 upper.symm)

theorem exists_sorted (listed : List TopEntry) : ∃ sorted : List TopEntry,
    sorted.Perm listed ∧ sorted.Pairwise fun first second => second.less first = false := by
  refine ⟨listed.mergeSort fun first second => !second.less first, List.mergeSort_perm _ _, ?_⟩
  have trans : ∀ first second third : TopEntry, (!second.less first) = true →
      (!third.less second) = true → (!third.less first) = true := by
    intro first second third below above
    rw [Bool.not_eq_true'] at below above ⊢
    exact less_trans below above
  have total : ∀ first second : TopEntry,
      ((!second.less first) || (!first.less second)) = true := by
    intro first second
    rw [Bool.or_eq_true, Bool.not_eq_true', Bool.not_eq_true']
    exact (less_total first second).symm
  exact (List.pairwise_mergeSort trans total listed).imp fun below => by simpa using below

theorem rows_nodup {hosts : Hosts} {flat : List Entry} (ranged : flat.Perm hosts.entries)
    (now : Int64) : (rows now flat).Nodup := by
  have distinct : flat.Pairwise fun first second => first.1 ≠ second.1 := by
    rw [ranged.pairwise_iff fun different => Ne.symm different]
    exact List.nodupKeys_iff_pairwise.mp hosts.nodupKeys
  apply List.Pairwise.filterMap _ _ (distinct.sublist List.filter_sublist)
  intro first second different row made other madeOther same
  rw [same] at made
  exact different ((ip_ofTotal made).symm.trans (ip_ofTotal madeOther))

theorem bps_sum (buckets : List Bucket) : buckets.sum.bps = (buckets.map Bucket.bps).sum := by
  induction buckets with
  | nil => rfl
  | cons bucket rest ih =>
      rw [List.sum_cons, List.map_cons, List.sum_cons, ← ih]
      rfl

theorem pps_sum (buckets : List Bucket) : buckets.sum.pps = (buckets.map Bucket.pps).sum := by
  induction buckets with
  | nil => rfl
  | cons bucket rest ih =>
      rw [List.sum_cons, List.map_cons, List.sum_cons, ← ih]
      rfl

theorem ofTotal_eq_some_iff (ip : Addr) (total : Bucket) (row : TopEntry) :
    TopEntry.ofTotal ip total = some row ↔ row.ip = ip ∧ row.bps = total.bps ∧ row.bps ≠ 0 ∧
      row.pps = total.pps ∧ Dominant total row.dominantProto := by
  obtain ⟨own, bps, pps, proto⟩ := row
  unfold TopEntry.ofTotal Dominant
  by_cases silent : total.bps = 0
  · grind
  · by_cases icmp : total.bpsICMP > total.bpsUDP
    · by_cases other : total.bpsOther > total.bpsICMP
      · grind
      · grind
    · by_cases other : total.bpsOther > total.bpsUDP
      · grind
      · grind

theorem mem_rows_iff_ranked {hosts : Hosts} {flat : List Entry}
    (ranged : flat.Perm hosts.entries) (now : Int64) (row : TopEntry) :
    row ∈ rows now flat ↔ ∃ hr, Ranked hosts now row hr := by
  rw [mem_rows ranged]
  constructor
  · intro ⟨hr, known, young, made⟩
    obtain ⟨-, bytes, busy, packets, dominant⟩ := (ofTotal_eq_some_iff ..).mp made
    exact ⟨hr, known, of_decide_eq_true young, bytes.trans (bps_sum _), busy,
      packets.trans (pps_sum _), dominant⟩
  · intro ⟨hr, ranked⟩
    refine ⟨hr, ranked.known, decide_eq_true ranked.recent, ?_⟩
    rw [ofTotal_eq_some_iff]
    exact ⟨rfl, ranked.bytes.trans (bps_sum _).symm, ranked.busy,
      ranked.packets.trans (pps_sum _).symm, ranked.dominant⟩

theorem ranking_of_sorted {hosts : Hosts} {flat sorted : List _} {now : Int64}
    (apart : PrintApart hosts) (ranged : flat.Perm hosts.entries)
    (arranged : sorted.Perm (rows now flat))
    (ordered : sorted.Pairwise fun first second => second.less first = false) :
    Ranking hosts now sorted where
  rows := fun row => arranged.mem_iff.trans (mem_rows_iff_ranked ranged now row)
  ordered := by
    have distinct : sorted.Pairwise (· ≠ ·) := arranged.nodup_iff.mpr (rows_nodup ranged now)
    apply List.Pairwise.imp_of_mem _ (ordered.and distinct)
    intro first second firstIn secondIn related
    rw [before_iff]
    by_contra below
    exact related.2 (rows_antisymm apart ranged (arranged.mem_iff.mp firstIn)
      (arranged.mem_iff.mp secondIn) related.1 (Bool.eq_false_iff.mpr below))

/-- Every call that reads gives what the map without shards gives, whatever the orders in which
the two are walked and whatever their sorts leave. -/
structure Unobservable (s : Store) (hosts : Hosts) : Prop where
  snapshot : ∀ ip now window, s.snapshot ip now window = some (hosts.snapshot ip now window)
  overview : ∀ now visited flat, s.Visits visited → flat.Perm hosts.entries →
    overview now visited = overview now flat
  activeHosts : ∀ now visited flat, s.Visits visited → flat.Perm hosts.entries →
    ∀ info, info ∈ activeHosts now visited ↔ info ∈ activeHosts now flat
  top : ∀ now (n : Int) visited flat result other, s.Visits visited → flat.Perm hosts.entries →
    Top now n visited result → Top now n flat other → result = other
  ranking : ∀ now (n : Int) visited result, s.Visits visited → Top now n visited result →
    ∃ ranked, Ranking hosts now ranked ∧ result = ranked.take n.toNat

theorem snapshot_represents {s : Store} {hosts : Hosts} (positive : 0 < s.n.toNat)
    (represents : s.Represents hosts) (ip : Addr) (now window : Int64) :
    s.snapshot ip now window = some (hosts.snapshot ip now window) := by
  obtain ⟨home, routed⟩ := exists_home s positive ip
  unfold Store.snapshot Hosts.snapshot
  split
  · rfl
  · next wide =>
      simp only [routed, Option.map_some, represents ip home routed]

theorem unobservable_of_represents {s : Store} {hosts : Hosts} (positive : 0 < s.n.toNat)
    (represents : s.Represents hosts) (apart : PrintApart hosts) : Unobservable s hosts where
  snapshot := snapshot_represents positive represents
  overview := fun now visited flat walked ranged =>
    overview_perm now (visits_perm positive represents walked ranged)
  activeHosts := fun now visited flat walked ranged info =>
    (activeHosts_perm now (visits_perm positive represents walked ranged)).mem_iff
  top := fun now n visited flat result other walked ranged =>
    top_unique apart ranged (visits_perm positive represents walked ranged)
  ranking := by
    intro now n visited result walked top
    have same := visits_perm positive represents walked (List.Perm.refl hosts.entries)
    unfold Top at top
    split at top
    · next empty =>
        obtain ⟨sorted, arranged, ordered⟩ := exists_sorted (rows now hosts.entries)
        have ranking := ranking_of_sorted apart (List.Perm.refl _) arranged ordered
        rw [top, Int.toNat_of_nonpos empty]
        exact ⟨sorted, ranking, rfl⟩
    · obtain ⟨sorted, arranged, ordered, taken⟩ := top
      exact ⟨sorted, ranking_of_sorted apart (List.Perm.refl _)
        (arranged.trans (rows_perm now same)) ordered, taken⟩

theorem printApart_after {history : List Op}
    (apart : ∀ first ∈ addresses history, ∀ second ∈ addresses history,
      first.text = second.text → first = second) : PrintApart (Hosts.after history) := by
  have listed : ∀ ip ∈ Hosts.after history, ip ∈ addresses history := by
    intro ip member
    obtain ⟨hr, known⟩ := Option.isSome_iff_exists.mp (AList.lookup_isSome.mpr member)
    exact addresses_of_lookup known
  intro first firstIn second secondIn
  exact apart first (listed first firstIn) second (listed second secondIn)

theorem new_eq_some {maxLen : Nat} {defaultNumShards numShards : Int64} {start : Store}
    (made : Store.new maxLen defaultNumShards numShards = some start) :
    (Store.chosen defaultNumShards numShards).toInt ≤ maxLen ∧
      start = Store.fresh (Store.chosen defaultNumShards numShards).toInt.toNat := by
  simp only [Store.new] at made
  split at made
  · exact ⟨by omega, (Option.some.inj made).symm⟩
  · contradiction

theorem chosen_of_pos (defaultNumShards : Int64) {numShards : Int64} (counted : 1 ≤ numShards) :
    Store.chosen defaultNumShards numShards = numShards := by
  have enough : ¬ numShards < 1 := Int64.not_lt.mpr counted
  simp only [Store.chosen, if_neg enough]

theorem toNat_fresh (numShards : Nat) : (Store.fresh numShards).n.toNat = numShards % 2 ^ 32 :=
  UInt32.toNat_ofNat'

theorem empty_fresh {numShards : Nat} {hosts : Hosts}
    (member : hosts ∈ (Store.fresh numShards).shards.toList) : hosts = ∅ := by
  simp only [Store.fresh, Vector.toList_replicate] at member
  exact List.eq_of_mem_replicate member

theorem represents_fresh (numShards : Nat) : (Store.fresh numShards).Represents ∅ := by
  intro ip home _
  have member : (Store.fresh numShards).shards[home] ∈ (Store.fresh numShards).shards.toList := by
    simp
  rw [empty_fresh member]

theorem n_after {start s : Store} {history : List Op} (ran : start.after history = some s) :
    s.n = start.n := by
  induction history generalizing s with
  | nil =>
      cases ran
      rfl
  | cons op past ih =>
      obtain ⟨before, earlier, stepped⟩ := Option.bind_eq_some_iff.mp ran
      exact (n_apply stepped).trans (ih earlier)

/-- The shards cannot be told from one map, exactly when their count survives as a uint32 that
is not zero. -/
theorem unobservable_iff (maxLen : Nat) (defaultNumShards numShards : Int64) (history : List Op)
    (counted : 1 ≤ numShards)
    (apart : ∀ first ∈ addresses history, ∀ second ∈ addresses history,
      first.text = second.text → first = second) :
    (∃ start s, Store.new maxLen defaultNumShards numShards = some start ∧
      start.after history = some s ∧ Unobservable s (Hosts.after history)) ↔
    numShards.toInt ≤ maxLen ∧ numShards.toInt % 2 ^ 32 ≠ 0 := by
  have nonneg : 1 ≤ numShards.toInt := Int64.le_iff_toInt_le.mp counted
  constructor
  · intro ⟨start, s, made, ran, unobservable⟩
    obtain ⟨short, rfl⟩ := new_eq_some made
    rw [chosen_of_pos _ counted] at short ran
    refine ⟨short, ?_⟩
    intro divides
    have zero : s.n.toNat = 0 := by
      rw [n_after ran, toNat_fresh]
      omega
    have answered := unobservable.snapshot .invalid 0 1
    rw [Store.snapshot, if_neg (by decide), shardFor_eq_none zero] at answered
    contradiction
  · intro ⟨short, remains⟩
    have made : Store.new maxLen defaultNumShards numShards =
        some (Store.fresh numShards.toInt.toNat) := by
      have allowed : numShards.toInt.toNat ≤ maxLen := by omega
      simp only [Store.new, chosen_of_pos _ counted, if_pos allowed]
    have positive : 0 < (Store.fresh numShards.toInt.toNat).n.toNat := by
      rw [toNat_fresh]
      omega
    obtain ⟨s, ran, same, represents⟩ :=
      after_represents _ positive (represents_fresh _) history
    have live : 0 < s.n.toNat := by
      rw [same]
      exact positive
    exact ⟨_, s, made, ran, unobservable_of_represents live represents (printApart_after apart)⟩

theorem unobservable_of_three : ∃ start s, Store.new (2 ^ 45) 8 3 = some start ∧
    start.after [.update (.v4 2) 1001 (sampleRecord protoICMP 7 700), .tick 1000,
      .update (.v4 1) 1000 (sampleRecord protoUDP 5 500)] = some s ∧
    Unobservable s (Hosts.after [.update (.v4 2) 1001 (sampleRecord protoICMP 7 700), .tick 1000,
      .update (.v4 1) 1000 (sampleRecord protoUDP 5 500)]) :=
  (unobservable_iff (2 ^ 45) 8 3 _ (by decide) (by decide +kernel)).mpr (by decide)

/-- With 2^32 shards `n` is zero, and the first record is a division by zero. -/
theorem unobservable_fails :
    (∃ start, Store.new (2 ^ 45) 8 4294967296 = some start ∧
      start.after [.update (.v4 1) 1000 (sampleRecord protoUDP 5 500)] = none) ∧
    ¬ ∃ start s, Store.new (2 ^ 45) 8 4294967296 = some start ∧
      start.after [.update (.v4 1) 1000 (sampleRecord protoUDP 5 500)] = some s ∧
      Unobservable s (Hosts.after [.update (.v4 1) 1000 (sampleRecord protoUDP 5 500)]) := by
  have made : Store.new (2 ^ 45) 8 4294967296 = some (Store.fresh 4294967296) := by
    simp only [Store.new, chosen_of_pos 8 (show (1 : Int64) ≤ 4294967296 by decide)]
    exact if_pos (by decide)
  have zero : (Store.fresh 4294967296).n.toNat = 0 := by
    rw [toNat_fresh]
    decide
  have panics : (Store.fresh 4294967296).after [.update (.v4 1) 1000 (sampleRecord protoUDP 5 500)] = none := by
    simp only [Store.after, Store.apply, Option.bind_some, Store.update]
    split
    · rfl
    · next home routed =>
        rw [shardFor_eq_none zero] at routed
        contradiction
  constructor
  · exact ⟨_, made, panics⟩
  · rintro ⟨other, s, madeOther, ran, -⟩
    cases made.symm.trans madeOther
    rw [panics] at ran
    contradiction

end Mitigador.Aggregate.Machine
