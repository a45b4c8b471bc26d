import Mitigador.Aggregate.Bucket
import Mitigador.Lib.KeyedMap
import Mitigador.Lib.SlotRing

/-! The sharded per-host counter map (internal/aggregate/ring.go, shard.go and store.go).
The shard mutexes make each call atomic on the host it touches, so calls are functions. -/

namespace Mitigador.Aggregate

open Go Mitigador.Flow Lib

def windowSize : Nat := 60

instance : NeZero windowSize := ⟨by decide⟩

structure HostRing where
  buckets : Vector Bucket windowSize
  lastSec : Int
  deriving DecidableEq, Repr

theorem goMod_eq_emod (sec : Int) : (sec.tmod 60 + 60).tmod 60 = sec % 60 := by
  have truncated : sec.tmod 60 = sec % 60 ∨ sec.tmod 60 = sec % 60 - 60 := by
    rw [Int.tmod_eq_emod]
    split
    · left; omega
    · right; omega
  have nonneg : 0 ≤ sec.tmod 60 + 60 := by omega
  rw [Int.tmod_eq_emod_of_nonneg nonneg]
  omega

/-- `((sec % WindowSize) + WindowSize) % WindowSize`, with the truncated `%` of Go. -/
def ringIndex (sec : Int) : Fin windowSize :=
  ⟨((sec.tmod windowSize + windowSize).tmod windowSize).toNat, by
    have reduced := goMod_eq_emod sec
    simp only [windowSize, Nat.cast_ofNat]
    omega⟩

theorem ringIndex_eq_slot (sec : Int) : ringIndex sec = SlotRing.slot windowSize sec := by
  apply Fin.ext
  have reduced := goMod_eq_emod sec
  simp only [ringIndex, SlotRing.slot, windowSize, Nat.cast_ofNat]
  omega

namespace HostRing

def new : HostRing := ⟨Vector.replicate windowSize 0, 0⟩

/-- What `Store.Update` does to the ring of the host it has found or created. -/
def update (hr : HostRing) (sec : Int) (r : Record) : HostRing where
  lastSec := if sec > hr.lastSec then sec else hr.lastSec
  buckets :=
    hr.buckets.set (ringIndex sec) (hr.buckets[ringIndex sec].merge r) (ringIndex sec).isLt

/-- What `Store.Tick` does to a ring: `none` is the cold eviction. -/
def tick (now : Int) (hr : HostRing) : Option HostRing :=
  if now - hr.lastSec > windowSize then none
  else some { hr with
    buckets := hr.buckets.set (ringIndex (now + 1)) 0 (ringIndex (now + 1)).isLt }

def snapshot (hr : HostRing) (now : Int) (window : Nat) : List Bucket :=
  (List.range window).map fun i : Nat => hr.buckets[ringIndex (now - i)]

theorem buckets_update (hr : HostRing) (sec : Int) (r : Record) :
    (hr.update sec r).buckets = SlotRing.deposit hr.buckets sec (Bucket.ofRecord r) := by
  simp only [update, SlotRing.deposit, SlotRing.read, ringIndex_eq_slot, Bucket.merge_eq_add]

theorem lastSec_update (hr : HostRing) (sec : Int) (r : Record) :
    (hr.update sec r).lastSec = max hr.lastSec sec := by
  simp only [update]
  split <;> omega

theorem update_eq_self_iff (hr : HostRing) (sec : Int) (r : Record) :
    hr.update sec r = hr ↔ r.packets = 0 ∧ r.bytes = 0 ∧ sec ≤ hr.lastSec := by
  constructor
  · intro kept
    have last := congrArg HostRing.lastSec kept
    have buckets := congrArg (fun ring => SlotRing.read ring.buckets sec) kept
    rw [lastSec_update] at last
    simp only [buckets_update, SlotRing.read_deposit, if_true] at buckets
    have packets := congrArg Bucket.pps buckets
    have bytes := congrArg Bucket.bps buckets
    simp only [Bucket.add_def, Bucket.add, Bucket.pps_ofRecord, Bucket.bps_ofRecord,
      add_eq_left] at packets bytes
    exact ⟨packets, bytes, max_eq_left_iff.mp last⟩
  · rintro ⟨packets, bytes, early⟩
    have nothing : Bucket.ofRecord r = 0 := Bucket.ofRecord_eq_zero packets bytes
    rw [HostRing.mk.injEq, lastSec_update, buckets_update, nothing, SlotRing.deposit_zero]
    exact ⟨rfl, max_eq_left early⟩

theorem tick_eq (now : Int) (hr : HostRing) :
    hr.tick now = if now - hr.lastSec > windowSize then none
      else some { hr with buckets := SlotRing.clear hr.buckets (now + 1) } := by
  simp only [tick, SlotRing.clear, ringIndex_eq_slot]

theorem snapshot_eq_read (hr : HostRing) (now : Int) (window : Nat) :
    hr.snapshot now window =
      (List.range window).map fun i : Nat => SlotRing.read hr.buckets (now - i) := by
  simp only [snapshot, SlotRing.read, ringIndex_eq_slot]

end HostRing

/-- FNV-1a over 32 bits (`hash/fnv`). -/
def fnv32a (bytes : List UInt8) : UInt32 :=
  bytes.foldl (fun hash byte => (hash ^^^ byte.toUInt32) * 16777619) 2166136261

structure Shard where
  hosts : KeyedMap Addr HostRing

def newShard : Shard := ⟨∅⟩

def shardIndex (n : Nat) (ip : Addr) : Nat := (fnv32a ip.as16Bytes).toNat % n

structure Store where
  n : Nat
  shards : Vector Shard n
  positive : 0 < n
  placed : ∀ (i : Fin n) (ip : Addr), ip ∈ shards[i].hosts → shardIndex n ip = i.val

def Shard.update (sh : Shard) (ip : Addr) (sec : Int) (r : Record) : Shard :=
  ⟨sh.hosts.insert ip (((sh.hosts.lookup ip).getD HostRing.new).update sec r)⟩

def Shard.tick (now : Int) (sh : Shard) : Shard :=
  ⟨KeyedMap.sweep (fun _ => HostRing.tick now) sh.hosts⟩

structure HostInfo where
  ip : Addr
  lastSec : Int
  deriving DecidableEq, Repr

namespace Store

def new (defaultNumShards numShards : Int) : Store where
  n :=
    let chosen := if numShards < 1 then defaultNumShards else numShards
    (if chosen < 1 then 1 else chosen).toNat
  shards := Vector.replicate _ newShard
  positive := by
    dsimp only
    split <;> omega
  placed := by
    intro i ip member
    simp [newShard] at member

def shardFor (s : Store) (ip : Addr) : Fin s.n :=
  ⟨shardIndex s.n ip, Nat.mod_lt _ s.positive⟩

def host (s : Store) (ip : Addr) : Option HostRing :=
  s.shards[s.shardFor ip].hosts.lookup ip

def update (s : Store) (ip : Addr) (sec : Int) (r : Record) : Store where
  n := s.n
  shards :=
    s.shards.set (s.shardFor ip) (s.shards[s.shardFor ip].update ip sec r) (s.shardFor ip).isLt
  positive := s.positive
  placed := by
    intro i other member
    by_cases here : i = s.shardFor ip
    · subst here
      simp only [Fin.getElem_fin, Vector.getElem_set_self, Shard.update, AList.mem_insert] at member
      rcases member with rfl | member
      · rfl
      · exact s.placed (s.shardFor ip) other member
    · have apart : (s.shardFor ip).val ≠ i.val := fun equal => here (Fin.ext equal.symm)
      simp only [Fin.getElem_fin, Vector.getElem_set_ne _ _ apart] at member
      exact s.placed i other member

def snapshot (s : Store) (ip : Addr) (now : Int) (window : Int) : Option (List Bucket) :=
  if window < 1 then none
  else
    let window := if window > windowSize then (windowSize : Int) else window
    (s.host ip).map fun hr => hr.snapshot now window.toNat

def tick (s : Store) (now : Int) : Store where
  n := s.n
  shards := s.shards.map (Shard.tick now)
  positive := s.positive
  placed := by
    intro i ip member
    apply s.placed i ip
    simp only [Fin.getElem_fin, Vector.getElem_map, Shard.tick] at member
    rw [← AList.lookup_isSome, KeyedMap.lookup_sweep] at member
    rw [← AList.lookup_isSome]
    exact Option.isSome_of_isSome_bind member

def shardActive (now : Int) (sh : Shard) : List HostInfo :=
  sh.hosts.entries.filterMap fun entry =>
    if now - entry.2.lastSec ≤ windowSize then some ⟨entry.1, entry.2.lastSec⟩ else none

/-- `ActiveHosts`; the order of a range over a Go map is left to the caller. -/
def activeHosts (s : Store) (now : Int) : List HostInfo :=
  s.shards.toList.flatMap (shardActive now)

@[simp] theorem host_new (defaultNumShards numShards : Int) (ip : Addr) :
    (new defaultNumShards numShards).host ip = none := by
  change (Vector.replicate _ newShard)[(shardFor _ ip).val].hosts.lookup ip = none
  simp [newShard]

theorem host_update (s : Store) (ip other : Addr) (sec : Int) (r : Record) :
    (s.update ip sec r).host other =
      if other = ip then some (((s.host ip).getD HostRing.new).update sec r) else s.host other := by
  change (s.shards.set (s.shardFor ip) (s.shards[s.shardFor ip].update ip sec r)
    (s.shardFor ip).isLt)[(s.shardFor other).val].hosts.lookup other = _
  by_cases shared : s.shardFor other = s.shardFor ip
  · simp only [shared, Vector.getElem_set_self, Shard.update]
    rw [KeyedMap.lookup_insert]
    simp only [host, shared, Fin.getElem_fin]
  · have different : other ≠ ip := by
      intro equal
      exact shared (by rw [equal])
    have apart : (s.shardFor ip).val ≠ (s.shardFor other).val := fun equal =>
      shared (Fin.ext equal.symm)
    rw [if_neg different, Vector.getElem_set_ne _ _ apart]
    rfl

theorem host_tick (s : Store) (now : Int) (ip : Addr) :
    (s.tick now).host ip = (s.host ip).bind (HostRing.tick now) := by
  change (s.shards.map (Shard.tick now))[(s.shardFor ip).val].hosts.lookup ip = _
  rw [Vector.getElem_map, Shard.tick, KeyedMap.lookup_sweep]
  rfl

theorem host_eq_some_iff (s : Store) (ip : Addr) (hr : HostRing) :
    s.host ip = some hr ↔ ∃ sh ∈ s.shards.toList, ⟨ip, hr⟩ ∈ sh.hosts.entries := by
  constructor
  · intro present
    exact ⟨s.shards[s.shardFor ip], by simp, (KeyedMap.mem_entries _ _ _).mpr present⟩
  · intro ⟨sh, member, entry⟩
    rw [KeyedMap.mem_entries] at entry
    obtain ⟨i, bound, rfl⟩ := List.mem_iff_getElem.mp member
    have inside : i < s.n := by simpa using bound
    have home := s.placed ⟨i, inside⟩ ip (by
      rw [← AList.lookup_isSome]
      simpa using congrArg Option.isSome entry)
    have same : s.shardFor ip = ⟨i, inside⟩ := Fin.ext home
    simpa [host, same] using entry

theorem mem_activeHosts (s : Store) (now : Int) (info : HostInfo) :
    info ∈ s.activeHosts now ↔
      ∃ hr, s.host info.ip = some hr ∧ info.lastSec = hr.lastSec ∧
        now - hr.lastSec ≤ windowSize := by
  simp only [activeHosts, List.mem_flatMap, shardActive, List.mem_filterMap]
  constructor
  · intro ⟨sh, member, entry, inside, kept⟩
    split at kept
    · next recent =>
        simp only [Option.some.injEq] at kept
        subst info
        exact ⟨entry.2, (host_eq_some_iff s _ _).mpr ⟨sh, member, inside⟩, rfl, recent⟩
    · contradiction
  · intro ⟨hr, present, last, recent⟩
    obtain ⟨sh, member, inside⟩ := (host_eq_some_iff s _ _).mp present
    refine ⟨sh, member, ⟨info.ip, hr⟩, inside, ?_⟩
    rw [if_pos recent, ← last]

theorem active_of_host {s : Store} {now : Int} {ip : Addr} {hr : HostRing}
    (present : (s.tick now).host ip = some hr) :
    ip ∈ ((s.tick now).activeHosts now).map HostInfo.ip := by
  have recent : now - hr.lastSec ≤ windowSize := by
    rw [host_tick] at present
    obtain ⟨before, -, ticked⟩ := Option.bind_eq_some_iff.mp present
    rw [HostRing.tick_eq] at ticked
    split at ticked
    · contradiction
    · cases ticked
      exact not_lt.mp (by assumption)
  exact List.mem_map.mpr
    ⟨⟨ip, hr.lastSec⟩, (mem_activeHosts _ now _).mpr ⟨hr, present, rfl, recent⟩,
    rfl⟩

theorem snapshot_eq_none_of_host {s : Store} {ip : Addr} (now window : Int)
    (unknown : s.host ip = none) : s.snapshot ip now window = none := by
  simp [snapshot, unknown]

theorem snapshot_length {s : Store} {ip : Addr} {now window : Int} {buckets : List Bucket}
    (reported : s.snapshot ip now window = some buckets) :
    (buckets.length : Int) = min window windowSize := by
  unfold snapshot at reported
  split at reported
  · contradiction
  · obtain ⟨hr, -, rfl⟩ := Option.map_eq_some_iff.mp reported
    simp only [HostRing.snapshot, List.length_map, List.length_range]
    split <;> omega

theorem snapshot_min (s : Store) (ip : Addr) (now window : Int) :
    s.snapshot ip now (min window windowSize) = s.snapshot ip now window := by
  have whole : ((windowSize : Nat) : Int) = 60 := rfl
  have clipped : (if min window windowSize > windowSize then (windowSize : Int)
      else min window windowSize) = if window > windowSize then (windowSize : Int) else window := by
    split <;> split <;> omega
  unfold snapshot
  rw [clipped]
  by_cases empty : window < 1
  · rw [if_pos empty, if_pos (by omega)]
  · rw [if_neg empty, if_neg (by omega)]

theorem shardActive_sublist (now : Int) (sh : Shard) :
    ((shardActive now sh).map HostInfo.ip).Sublist sh.hosts.keys := by
  unfold shardActive AList.keys List.keys
  induction sh.hosts.entries with
  | nil => exact List.Sublist.refl _
  | cons entry rest ih =>
      by_cases recent : now - entry.2.lastSec ≤ windowSize
      · simp only [List.filterMap_cons, if_pos recent, List.map_cons]
        exact ih.cons_cons _
      · simp only [List.filterMap_cons, if_neg recent, List.map_cons]
        exact ih.cons _

/-- No host is visited twice: addresses are distinct in a shard, and across shards they hash
to different places. -/
theorem activeHosts_nodup (s : Store) (now : Int) :
    ((s.activeHosts now).map HostInfo.ip).Nodup := by
  unfold activeHosts
  rw [List.map_flatMap, List.nodup_flatMap]
  constructor
  · intro sh member
    exact (shardActive_sublist now sh).nodup sh.hosts.keys_nodup
  · rw [List.pairwise_iff_getElem]
    intro i j boundI boundJ before ip inFirst inSecond
    have insideI : i < s.n := by simpa using boundI
    have insideJ : j < s.n := by simpa using boundJ
    have first := s.placed ⟨i, insideI⟩ ip
      ((shardActive_sublist now _).subset (by simpa using inFirst))
    have second := s.placed ⟨j, insideJ⟩ ip
      ((shardActive_sublist now _).subset (by simpa using inSecond))
    simp only at first second
    omega

end Store

end Mitigador.Aggregate
