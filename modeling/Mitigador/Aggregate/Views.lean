import Mitigador.Aggregate.Sharding

/-! The counts of the dashboard against each other: `Overview`, `ActiveHosts`, `Snapshot` and
`Top` walk the same rings by different indices. -/

namespace Mitigador.Aggregate.Machine

open Go Mitigador.Flow Lib

/-- The counters of a bucket by protocol add up to its total. -/
def Parts (b : Bucket) : Prop :=
  b.pps = b.ppsUDP + b.ppsICMP + b.ppsOther ∧ b.bps = b.bpsUDP + b.bpsICMP + b.bpsOther

theorem parts_zero : Parts 0 := by
  simp [Parts, Bucket.zero_def]

theorem parts_add {first second : Bucket} (one : Parts first) (other : Parts second) :
    Parts (first + second) := by
  simp only [Parts, Bucket.add_def, Bucket.add] at *
  constructor
  · rw [one.1, other.1, add_add_add_comm, add_add_add_comm first.ppsUDP]
  · rw [one.2, other.2, add_add_add_comm, add_add_add_comm first.bpsUDP]

theorem parts_ofRecord (r : Record) : Parts (Bucket.ofRecord r) := by
  unfold Parts Bucket.ofRecord Bucket.merge
  split
  · simp [Bucket.zero_def]
  · split <;> simp [Bucket.zero_def]

theorem parts_sum {buckets : List Bucket} (each : ∀ b ∈ buckets, Parts b) : Parts buckets.sum := by
  induction buckets with
  | nil => exact parts_zero
  | cons bucket rest ih =>
      rw [List.sum_cons]
      apply parts_add
      · exact each bucket List.mem_cons_self
      · exact ih fun b member => each b (List.mem_cons_of_mem _ member)

def HostRing.Balanced (hr : HostRing) : Prop := ∀ k : Fin windowSize, Parts hr.buckets[k]

theorem balanced_new : HostRing.new.Balanced := by
  intro k
  simp [HostRing.new, parts_zero]

theorem balanced_set {hr : HostRing} (balanced : hr.Balanced) (slot : Fin windowSize) {b : Bucket}
    (parts : Parts b) (lastSec : Int64) :
    HostRing.Balanced ⟨hr.buckets.set slot b slot.isLt, lastSec⟩ := by
  intro k
  simp only [Fin.getElem_fin, Vector.getElem_set]
  split
  · exact parts
  · exact balanced k

theorem balanced_update {hr : HostRing} (balanced : hr.Balanced) (sec : Int64) (r : Record) :
    (hr.update sec r).Balanced := by
  apply balanced_set balanced
  rw [Bucket.merge_eq_add]
  exact parts_add (balanced (ringIndex sec)) (parts_ofRecord r)

theorem balanced_tick {hr next : HostRing} {now : Int64} (balanced : hr.Balanced)
    (kept : hr.tick now = some next) : next.Balanced := by
  unfold HostRing.tick at kept
  split at kept
  · contradiction
  · cases kept
    exact balanced_set balanced _ parts_zero _

theorem balanced_after {history : List Op} {ip : Addr} {hr : HostRing}
    (known : (Hosts.after history).lookup ip = some hr) : hr.Balanced :=
  Hosts.after_invariant balanced_new (fun _ sec r balanced => balanced_update balanced sec r)
    (fun _ _ _ balanced kept => balanced_tick balanced kept) known

/-- A store made by `New` after some history, beside the map of the same history. -/
structure Stands (s : Store) (hosts : Hosts) : Prop where
  walk : ∀ visited, s.Visits visited → visited.Perm hosts.entries
  answers : ∀ ip now window, ip ∈ hosts → ∃ answer, s.snapshot ip now window = some answer
  snapshot : ∀ ip now window answer, s.snapshot ip now window = some answer →
    answer = hosts.snapshot ip now window

theorem empty_after {start s : Store} (zero : start.n.toNat = 0)
    (empty : ∀ hosts ∈ start.shards.toList, hosts = ∅) {history : List Op}
    (ran : start.after history = some s) :
    (∀ hosts ∈ s.shards.toList, hosts = ∅) ∧ Hosts.after history = ∅ := by
  induction history generalizing s with
  | nil =>
      cases ran
      exact ⟨empty, rfl⟩
  | cons op past ih =>
      obtain ⟨before, earlier, stepped⟩ := Option.bind_eq_some_iff.mp ran
      obtain ⟨bare, nothing⟩ := ih earlier
      cases op with
      | update ip sec r =>
          obtain ⟨home, routed, -⟩ := Store.update_eq_some stepped
          have still : before.n.toNat = 0 := by rw [n_after earlier, zero]
          rw [shardFor_eq_none still] at routed
          contradiction
      | tick now =>
          cases stepped
          constructor
          · intro hosts member
            simp only [Store.tick, Vector.toList_map, List.mem_map] at member
            obtain ⟨shard, inside, rfl⟩ := member
            rw [bare shard inside]
            rfl
          · rw [Hosts.after, nothing]
            rfl

theorem stands_after {maxLen : Nat} {defaultNumShards numShards : Int64} {start s : Store}
    {history : List Op} (made : Store.new maxLen defaultNumShards numShards = some start)
    (ran : start.after history = some s) : Stands s (Hosts.after history) := by
  obtain ⟨-, rfl⟩ := new_eq_some made
  rcases Nat.eq_zero_or_pos (Store.fresh
    (Store.chosen defaultNumShards numShards).toInt.toNat).n.toNat with zero | positive
  · obtain ⟨bare, nothing⟩ := empty_after zero (fun hosts member => empty_fresh member) ran
    rw [nothing]
    constructor
    · intro visited walked
      obtain ⟨parts, each, rfl⟩ := walked
      have listed : List.Forall₂ List.Perm parts (s.shards.toList.map AList.entries) := by
        rw [List.forall₂_map_right_iff]
        exact each
      have none : (s.shards.toList.map AList.entries).flatten = [] := by
        rw [List.flatten_eq_nil_iff]
        intro part member
        obtain ⟨hosts, inside, rfl⟩ := List.mem_map.mp member
        rw [bare hosts inside]
        rfl
      have same := List.Perm.flatten_congr listed
      rw [none] at same
      exact same
    · intro ip now window member
      exact absurd member (AList.notMem_empty ip)
    · intro ip now window answer answered
      unfold Store.snapshot at answered
      unfold Hosts.snapshot
      split at answered
      · next narrow =>
          rw [if_pos narrow]
          exact (Option.some.inj answered).symm
      · have still : s.n.toNat = 0 := by rw [n_after ran, zero]
        rw [shardFor_eq_none still] at answered
        contradiction
  · obtain ⟨other, ranOther, same, represents⟩ :=
      after_represents _ positive (represents_fresh _) history
    cases ran.symm.trans ranOther
    have live : 0 < s.n.toNat := by
      rw [same]
      exact positive
    constructor
    · intro visited walked
      exact visits_perm live represents walked (List.Perm.refl _)
    · intro ip now window _
      exact ⟨_, snapshot_represents live represents ip now window⟩
    · intro ip now window answer answered
      rw [snapshot_represents live represents] at answered
      exact (Option.some.inj answered).symm

/-! The views of one second. -/

def shown (s : Store) (now : Int64) (ip : Addr) (i : Nat) : Option Bucket :=
  (s.snapshot ip now 60).join.bind fun buckets => buckets[i]?

structure ViewsAgree (s : Store) (now : Int64) : Prop where
  counted : ∀ visited other, s.Visits visited → s.Visits other →
    (overview now visited).activeHosts = (activeHosts now other).length
  buckets : ∀ visited other, s.Visits visited → s.Visits other → ∀ i < windowSize,
    ∃ shares : List Bucket,
      ((activeHosts now other).map fun info => shown s now info.ip i) = shares.map some ∧
      (overview now visited).buckets[i]? = some shares.sum
  bytes : ∀ visited other (n : Int) result, s.Visits visited → s.Visits other →
    (other.length : Int) ≤ n → Top now n other result →
    ((overview now visited).buckets.map Bucket.bps).sum = (result.map TopEntry.bps).sum
  partsShown : ∀ ip second window buckets, s.snapshot ip second window = some (some buckets) →
    ∀ b ∈ buckets, Parts b
  partsOverview : ∀ visited, s.Visits visited → ∀ b ∈ (overview now visited).buckets, Parts b

def active (now : Int64) (visited : List Entry) : List Entry :=
  visited.filter fun entry => entry.2.recent now

theorem activeHosts_eq (now : Int64) (visited : List Entry) :
    activeHosts now visited = (active now visited).map fun entry => ⟨entry.1, entry.2.lastSec⟩ := by
  unfold activeHosts active
  induction visited with
  | nil => rfl
  | cons entry rest ih =>
      by_cases young : entry.2.recent now = true
      · simp [young, ih]
      · simp [young, ih]

theorem shown_eq {s : Store} {hosts : Hosts} (stands : Stands s hosts) (now : Int64) {ip : Addr}
    {hr : HostRing} (known : hosts.lookup ip = some hr) {i : Nat} (inside : i < windowSize) :
    shown s now ip i = some (hr.slot (now - Int64.ofNat i)) := by
  have member : ip ∈ hosts := AList.lookup_isSome.mp (by rw [known]; rfl)
  obtain ⟨answer, answered⟩ := stands.answers ip now 60 member
  have reported : answer = some (hr.snapshot now 60) := by
    rw [stands.snapshot ip now 60 answer answered, Hosts.snapshot, known]
    rfl
  simp only [windowSize] at inside
  simp [shown, answered, reported, HostRing.snapshot, HostRing.slot, inside]

theorem mem_active {hosts : Hosts} {visited : List Entry} (walked : visited.Perm hosts.entries)
    {now : Int64} {entry : Entry} (member : entry ∈ active now visited) :
    hosts.lookup entry.1 = some entry.2 :=
  (KeyedMap.mem_entries hosts entry.1 entry.2).mp
    (walked.mem_iff.mp (List.mem_filter.mp member).1)

theorem shares_of_stands {s : Store} {hosts : Hosts} (stands : Stands s hosts) (now : Int64)
    {other : List Entry} (walked : s.Visits other) {i : Nat} (inside : i < windowSize) :
    ((activeHosts now other).map fun info => shown s now info.ip i) =
      ((active now other).map fun entry =>
        entry.2.slot (now - Int64.ofNat i)).map some := by
  rw [activeHosts_eq, List.map_map, List.map_map]
  apply List.map_congr_left
  intro entry member
  exact shown_eq stands now (mem_active (stands.walk other walked) member) inside

def bytesAt (hr : HostRing) (second : Int) : UInt64 := (SlotRing.read hr.buckets second).bps

def readBytes (now : Int64) (hr : HostRing) : UInt64 :=
  ((List.range windowSize).map fun i : Nat =>
    (hr.slot (now - Int64.ofNat i)).bps).sum

theorem overview_bytes (now : Int64) (visited : List Entry) :
    ((overview now visited).buckets.map Bucket.bps).sum =
      ((active now visited).map fun entry => readBytes now entry.2).sum := by
  have exchange := Multiset.sum_map_sum_map (f := fun (i : Nat) (entry : Entry) =>
    (entry.2.slot (now - Int64.ofNat i)).bps)
    (List.range windowSize) (active now visited)
  simp only [Multiset.map_coe, Multiset.sum_coe] at exchange
  unfold readBytes
  rw [← exchange]
  simp only [overview, HostRing.slot, List.map_map, Function.comp_def, bps_sum, active]

theorem rows_bytes (now : Int64) (visited : List Entry) :
    ((rows now visited).map TopEntry.bps).sum =
      ((active now visited).map fun entry => entry.2.total.bps).sum := by
  unfold rows
  change (((active now visited).filterMap _).map TopEntry.bps).sum = _
  induction active now visited with
  | nil => rfl
  | cons entry rest ih =>
      rw [List.map_cons, List.sum_cons, ← ih]
      cases made : TopEntry.ofTotal entry.1 entry.2.total with
      | none =>
          have silent : entry.2.total.bps = 0 := by
            unfold TopEntry.ofTotal at made
            split at made
            · assumption
            · contradiction
          simp only [List.filterMap_cons, made, silent, zero_add]
      | some row =>
          have bytes := ((ofTotal_eq_some_iff ..).mp made).2.1
          simp only [List.filterMap_cons, made, List.map_cons, List.sum_cons, bytes]

theorem top_all {now : Int64} {n : Int} {other : List Entry} {result : List TopEntry}
    (top : Top now n other result) (room : (other.length : Int) ≤ n) :
    result.Perm (rows now other) := by
  have short : (rows now other).length ≤ other.length :=
    (List.length_filterMap_le _ _).trans (List.length_filter_le _ _)
  unfold Top at top
  split at top
  · next empty =>
      have none : rows now other = [] := List.eq_nil_of_length_eq_zero (by omega)
      rw [top, none]
  · obtain ⟨sorted, arranged, -, rfl⟩ := top
    have whole : sorted.length ≤ n.toNat := by
      rw [arranged.length_eq]
      omega
    rw [List.take_of_length_le whole]
    exact arranged

/-! The slots that the walk from `now` reads. -/

/-- The seconds of the walk from `now` that an int64 can still hold. -/
def early (now : Int64) : List Int :=
  (List.range (now.toInt + 2 ^ 63 + 1).toNat).map fun i : Nat => now.toInt - i

/-- The seconds whose slots the walk would read in their place, had it started past the end. -/
def displaced (now : Int64) : List Int := (early now).map (· + 2 ^ 64)

theorem total_bps (hr : HostRing) (second : Int) : hr.total.bps =
    ((List.range windowSize).map fun i : Nat => bytesAt hr (second - i)).sum := by
  rw [HostRing.total, SlotRing.sum_eq_sum_read hr.buckets second, bps_sum, List.map_map]
  rfl

theorem toInt_ofNat_index {i : Nat} (inside : i < windowSize) : (Int64.ofNat i).toInt = i := by
  simp only [windowSize] at inside
  exact Int64.toInt_ofNat_of_lt (by omega)

theorem slot_kept (hr : HostRing) (now : Int64) {i : Nat} (inside : i < windowSize)
    (kept : -2 ^ 63 ≤ now.toInt - i) :
    hr.slot (now - Int64.ofNat i) = SlotRing.read hr.buckets (now.toInt - i) := by
  have upper := now.toInt_lt
  have exact : (now - Int64.ofNat i).toInt = now.toInt - i := by
    rw [Int64.toInt_sub, toInt_ofNat_index inside, Int.bmod_eq_of_le (by omega) (by omega)]
  simp only [HostRing.slot, SlotRing.read, ringIndex_eq, exact]

theorem read_kept (hr : HostRing) (now : Int64) {i : Nat} (inside : i < windowSize)
    (kept : -2 ^ 63 ≤ now.toInt - i) :
    (hr.slot (now - Int64.ofNat i)).bps = bytesAt hr (now.toInt - i) :=
  congrArg Bucket.bps (slot_kept hr now inside kept)

theorem read_wrapped (hr : HostRing) (now : Int64) {i : Nat} (inside : i < windowSize)
    (wrapped : now.toInt - i < -2 ^ 63) :
    (hr.slot (now - Int64.ofNat i)).bps = bytesAt hr (now.toInt + 2 ^ 64 - i) := by
  have lower := now.le_toInt
  have exact : (now - Int64.ofNat i).toInt = now.toInt + 2 ^ 64 - i := by
    have around : now.toInt + 2 ^ 64 - i = now.toInt - i + ((2 ^ 64 : Nat) : Int) := by omega
    simp only [windowSize] at inside
    rw [Int64.toInt_sub, toInt_ofNat_index inside, around, ← Int.add_bmod_right (now.toInt - i) (2 ^ 64),
      Int.bmod_eq_of_le (by omega) (by omega)]
  simp only [HostRing.slot, bytesAt, SlotRing.read, ringIndex_eq, exact]

theorem readBytes_kept (hr : HostRing) {now : Int64} (kept : -2 ^ 63 + 59 ≤ now.toInt) :
    readBytes now hr = hr.total.bps := by
  rw [total_bps hr now.toInt, readBytes]
  congr 1
  apply List.map_congr_left
  intro i member
  have inside : i < windowSize := List.mem_range.mp member
  have bound : i < 60 := inside
  exact read_kept hr now inside (by omega)

/-- Past the lower end of the range the walk goes on from the upper end, 16 slots further. -/
theorem readBytes_wrapped (hr : HostRing) {now : Int64} (wraps : now.toInt < -2 ^ 63 + 59) :
    readBytes now hr + ((displaced now).map (bytesAt hr)).sum =
      hr.total.bps + ((early now).map (bytesAt hr)).sum := by
  have lower := now.le_toInt
  have whole : windowSize =
      (now.toInt + 2 ^ 63 + 1).toNat + (windowSize - (now.toInt + 2 ^ 63 + 1).toNat) := by
    simp only [windowSize]
    omega
  generalize before : (now.toInt + 2 ^ 63 + 1).toNat = length at whole
  have ranged : List.range windowSize =
      List.range length ++ (List.range (windowSize - length)).map (length + ·) := by
    rw [← List.range_add]
    exact congrArg List.range whole
  have first : (List.range length).map
      (fun i : Nat => (hr.slot (now - Int64.ofNat i)).bps) =
      (early now).map (bytesAt hr) := by
    rw [early, before, List.map_map]
    apply List.map_congr_left
    intro i member
    have below : i < length := List.mem_range.mp member
    exact read_kept hr now (by omega) (by omega)
  have rest : ((List.range (windowSize - length)).map (length + ·)).map
      (fun i : Nat => (hr.slot (now - Int64.ofNat i)).bps) =
      ((List.range (windowSize - length)).map (length + ·)).map
        fun i : Nat => bytesAt hr (now.toInt + 2 ^ 64 - i) := by
    apply List.map_congr_left
    intro i member
    obtain ⟨offset, within, rfl⟩ := List.mem_map.mp member
    have below : offset < windowSize - length := List.mem_range.mp within
    exact read_wrapped hr now (by omega) (by omega)
  have moved : (displaced now).map (bytesAt hr) =
      (List.range length).map fun i : Nat => bytesAt hr (now.toInt + 2 ^ 64 - i) := by
    rw [displaced, early, before, List.map_map, List.map_map]
    apply List.map_congr_left
    intro i _
    simp only [Function.comp_apply]
    congr 1
    omega
  have swap (x y z : UInt64) : x + y + z = z + y + x := by
    rw [add_comm (x + y), add_comm x, ← add_assoc]
  rw [total_bps hr (now.toInt + 2 ^ 64), readBytes, ranged, List.map_append,
    List.map_append, List.sum_append, List.sum_append, first, rest, moved]
  exact swap _ _ _

/-! The agreement of the views. -/

def Store.inOrder (s : Store) : List Entry := (s.shards.toList.map AList.entries).flatten

theorem visits_inOrder (s : Store) : s.Visits s.inOrder :=
  ⟨s.shards.toList.map AList.entries,
    List.forall₂_map_left_iff.mpr (List.forall₂_same.mpr fun _ _ => List.Perm.refl _), rfl⟩

def bytesOf (now : Int64) (visited : List Entry) (seconds : List Int) : UInt64 :=
  ((active now visited).map fun entry => (seconds.map (bytesAt entry.2)).sum).sum

theorem active_perm (now : Int64) {visited flat : List Entry} (same : visited.Perm flat) :
    (active now visited).Perm (active now flat) :=
  same.filter _

theorem bytes_wrapped {now : Int64} (wraps : now.toInt < -2 ^ 63 + 59) (visited : List Entry) :
    ((overview now visited).buckets.map Bucket.bps).sum + bytesOf now visited (displaced now) =
      ((rows now visited).map TopEntry.bps).sum + bytesOf now visited (early now) := by
  rw [overview_bytes, rows_bytes, bytesOf, bytesOf]
  induction active now visited with
  | nil => simp only [List.map_nil, List.sum_nil]
  | cons entry rest ih =>
      simp only [List.map_cons, List.sum_cons]
      rw [add_add_add_comm, ih, readBytes_wrapped entry.2 wraps, add_add_add_comm]

theorem bytes_kept {now : Int64} (kept : -2 ^ 63 + 59 ≤ now.toInt) (visited : List Entry) :
    ((overview now visited).buckets.map Bucket.bps).sum =
      ((rows now visited).map TopEntry.bps).sum := by
  have each : ((active now visited).map fun entry => readBytes now entry.2) =
      (active now visited).map fun entry => entry.2.total.bps :=
    List.map_congr_left fun entry _ => readBytes_kept entry.2 kept
  rw [overview_bytes, rows_bytes, each]

theorem bytes_agree_iff {s : Store} {hosts : Hosts} (stands : Stands s hosts) (now : Int64)
    {visited other : List Entry} {n : Int} {result : List TopEntry} (walked : s.Visits visited)
    (walkedOther : s.Visits other) (room : (other.length : Int) ≤ n)
    (top : Top now n other result) :
    ((overview now visited).buckets.map Bucket.bps).sum = (result.map TopEntry.bps).sum ↔
      -2 ^ 63 + 59 ≤ now.toInt ∨
        bytesOf now s.inOrder (early now) = bytesOf now s.inOrder (displaced now) := by
  have ordered := stands.walk _ (visits_inOrder s)
  have toOrdered := (stands.walk visited walked).trans ordered.symm
  have toOther := (stands.walk other walkedOther).trans ordered.symm
  have listed : (result.map TopEntry.bps).sum = ((rows now s.inOrder).map TopEntry.bps).sum :=
    (((top_all top room).trans (rows_perm now toOther)).map _).sum_eq
  rw [listed, overview_perm now toOrdered]
  rcases le_or_gt (-2 ^ 63 + 59) now.toInt with kept | wraps
  · have equal := bytes_kept kept s.inOrder
    exact ⟨fun _ => Or.inl kept, fun _ => equal⟩
  · have balance := bytes_wrapped wraps s.inOrder
    constructor
    · intro equal
      right
      rw [equal] at balance
      exact (add_left_cancel balance).symm
    · rintro (kept | same)
      · omega
      · rw [same] at balance
        exact add_right_cancel balance

theorem parts_snapshot {history : List Op} {ip : Addr} {second window : Int64}
    {buckets : List Bucket}
    (reported : (Hosts.after history).snapshot ip second window = some buckets) :
    ∀ b ∈ buckets, Parts b := by
  unfold Hosts.snapshot at reported
  split at reported
  · contradiction
  · obtain ⟨hr, known, rfl⟩ := Option.map_eq_some_iff.mp reported
    intro b member
    obtain ⟨i, -, rfl⟩ := List.mem_map.mp member
    exact balanced_after known (ringIndex (second - Int64.ofNat i))

theorem parts_overview {history : List Op} {visited : List Entry} (now : Int64)
    (walked : visited.Perm (Hosts.after history).entries) :
    ∀ b ∈ (overview now visited).buckets, Parts b := by
  intro b member
  obtain ⟨i, -, rfl⟩ := List.mem_map.mp member
  apply parts_sum
  intro share inside
  obtain ⟨entry, young, rfl⟩ := List.mem_map.mp inside
  exact balanced_after (mem_active walked young) (ringIndex (now - Int64.ofNat i))

/-- The views of a reachable store agree, except where the walk from `now` passes the lower end
of the int64 range and lands on slots with other contents. -/
theorem views_agree_iff {maxLen : Nat} {defaultNumShards numShards : Int64} {start s : Store}
    {history : List Op} (made : Store.new maxLen defaultNumShards numShards = some start)
    (ran : start.after history = some s) (now : Int64) :
    ViewsAgree s now ↔ -2 ^ 63 + 59 ≤ now.toInt ∨
      bytesOf now s.inOrder (early now) = bytesOf now s.inOrder (displaced now) := by
  have stands := stands_after made ran
  constructor
  · intro agree
    have walked := visits_inOrder s
    obtain ⟨sorted, arranged, ordered⟩ := exists_sorted (rows now s.inOrder)
    have top : Top now (s.inOrder.length + 1) s.inOrder (sorted.take (s.inOrder.length + 1)) := by
      unfold Top
      rw [if_neg (by omega)]
      exact ⟨sorted, arranged, ordered, rfl⟩
    have room : (s.inOrder.length : Int) ≤ s.inOrder.length + 1 := by omega
    exact (bytes_agree_iff stands now walked walked room top).mp
      (agree.bytes _ _ _ _ walked walked room top)
  · intro condition
    constructor
    · intro visited other walked walkedOther
      have same := (stands.walk visited walked).trans (stands.walk other walkedOther).symm
      rw [activeHosts_eq, List.length_map]
      exact (active_perm now same).length_eq
    · intro visited other walked walkedOther i inside
      have same := (stands.walk visited walked).trans (stands.walk other walkedOther).symm
      refine ⟨_, shares_of_stands stands now walkedOther inside, ?_⟩
      rw [overview_perm now same, overview, List.getElem?_map, List.getElem?_range inside]
      rfl
    · intro visited other n result walked walkedOther room top
      exact (bytes_agree_iff stands now walked walkedOther room top).mpr condition
    · intro ip second window buckets reported
      exact parts_snapshot (stands.snapshot ip second window _ reported).symm
    · intro visited walked
      exact parts_overview now (stands.walk visited walked)

theorem views_agree_of_two : ∃ start s, Store.new (2 ^ 45) 8 3 = some start ∧
    start.after [.update (.v4 2) 1 (sampleRecord protoICMP 7 700), .tick (-1),
      .update (.v4 1) (-2) (sampleRecord protoUDP 5 500)] = some s ∧ ViewsAgree s 1 := by
  have made : Store.new (2 ^ 45) 8 3 = some (Store.fresh 3) := by
    simp only [Store.new, chosen_of_pos 8 (show (1 : Int64) ≤ 3 by decide)]
    exact if_pos (by decide)
  have runs : ((Store.fresh 3).after [.update (.v4 2) 1 (sampleRecord protoICMP 7 700), .tick (-1),
      .update (.v4 1) (-2) (sampleRecord protoUDP 5 500)]).isSome = true := by decide +kernel
  obtain ⟨s, ran⟩ := Option.isSome_iff_exists.mp runs
  exact ⟨_, s, made, ran, (views_agree_iff made ran 1).mpr (Or.inl (by decide))⟩

/-- At the least second the walk reads slot 52 and then slots 7, 6 and so on: slot 8 is left out,
and the one record that `Top` finds there is missing from `Overview`. -/
theorem views_differ : ∃ start s, Store.new (2 ^ 45) 8 1 = some start ∧
    start.after [.update (.v4 1) (-52) (sampleRecord protoUDP 5 500)] = some s ∧
    ¬ ViewsAgree s Int64.minValue := by
  have made : Store.new (2 ^ 45) 8 1 = some (Store.fresh 1) := by
    simp only [Store.new, chosen_of_pos 8 (show (1 : Int64) ≤ 1 by decide)]
    exact if_pos (by decide)
  have summed : ((Store.fresh 1).after [.update (.v4 1) (-52) (sampleRecord protoUDP 5 500)]).map
      (fun s => (s.inOrder.length, ((overview Int64.minValue s.inOrder).buckets.map Bucket.bps).sum,
        (rows Int64.minValue s.inOrder).map TopEntry.bps)) = some (1, 0, [500]) := by decide +kernel
  obtain ⟨s, ran, shown⟩ := Option.map_eq_some_iff.mp summed
  refine ⟨_, s, made, ran, ?_⟩
  intro agree
  simp only [Prod.mk.injEq] at shown
  obtain ⟨alone, empty, listed⟩ := shown
  have top : Top Int64.minValue 1 s.inOrder (rows Int64.minValue s.inOrder) := by
    have single : (rows Int64.minValue s.inOrder).length = 1 := by
      rw [← List.length_map TopEntry.bps, listed]
      rfl
    obtain ⟨row, only⟩ := List.length_eq_one_iff.mp single
    rw [Top, if_neg (by decide), only]
    exact ⟨[row], List.Perm.refl _, List.pairwise_singleton _ _, rfl⟩
  have same := agree.bytes _ _ 1 _ (visits_inOrder s) (visits_inOrder s) (by rw [alone]; rfl) top
  rw [empty, listed] at same
  exact absurd same (by decide)

end Mitigador.Aggregate.Machine
