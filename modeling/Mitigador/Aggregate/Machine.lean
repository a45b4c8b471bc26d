import Mathlib.Data.List.Forall2
import Mitigador.Aggregate.Overview

/-! The counter map on the machine's own integers (store.go, shard.go and overview.go): seconds
are int64, `Store.n` is the uint32 of a shard count that is an int, and a range over a Go map
may visit its entries in any order. -/

namespace Mitigador.Aggregate.Machine

open Go Mitigador.Flow Lib

structure HostRing where
  buckets : Vector Bucket windowSize
  lastSec : Int64
  deriving DecidableEq, Repr

theorem toInt_sixty : (60 : Int64).toInt = 60 := rfl

theorem toInt_goMod (sec : Int64) : ((sec % 60 + 60) % 60).toInt = sec.toInt % 60 := by
  have low : -60 < sec.toInt.tmod 60 := Int.lt_tmod_of_pos _ (by decide)
  have high : sec.toInt.tmod 60 < 60 := Int.tmod_lt_of_pos _ (by decide)
  have inner : (sec % 60 + 60).toInt = sec.toInt.tmod 60 + 60 := by
    rw [Int64.toInt_add, Int64.toInt_mod, toInt_sixty, Int.bmod_eq_of_le (by omega) (by omega)]
  rw [Int64.toInt_mod, inner, toInt_sixty, goMod_eq_emod]

/-- `((sec % WindowSize) + WindowSize) % WindowSize`. -/
def ringIndex (sec : Int64) : Fin windowSize :=
  ⟨((sec % 60 + 60) % 60).toInt.toNat, by
    rw [toInt_goMod, windowSize]
    omega⟩

theorem ringIndex_eq (sec : Int64) : ringIndex sec = SlotRing.slot windowSize sec.toInt := by
  apply Fin.ext
  simp only [ringIndex, toInt_goMod, SlotRing.slot, windowSize, Nat.cast_ofNat]

namespace HostRing

def new : HostRing := ⟨Vector.replicate windowSize 0, 0⟩

def update (hr : HostRing) (sec : Int64) (r : Record) : HostRing where
  lastSec := if sec > hr.lastSec then sec else hr.lastSec
  buckets :=
    hr.buckets.set (ringIndex sec) (hr.buckets[ringIndex sec].merge r) (ringIndex sec).isLt

def tick (now : Int64) (hr : HostRing) : Option HostRing :=
  if now - hr.lastSec > 60 then none
  else some { hr with
    buckets := hr.buckets.set (ringIndex (now + 1)) 0 (ringIndex (now + 1)).isLt }

def slot (hr : HostRing) (sec : Int64) : Bucket := hr.buckets[ringIndex sec]

def snapshot (hr : HostRing) (now : Int64) (window : Nat) : List Bucket :=
  (List.range window).map fun i : Nat => hr.buckets[ringIndex (now - Int64.ofNat i)]

def total (hr : HostRing) : Bucket := hr.buckets.toList.sum

/-- The test that `Overview`, `Top` and `Tick` make the other way round. -/
def recent (now : Int64) (hr : HostRing) : Bool := decide (now - hr.lastSec ≤ 60)

end HostRing

/-- The map of one shard, and also the map of a store that has no shards. -/
abbrev Hosts := KeyedMap Addr HostRing

abbrev Entry := Sigma fun _ : Addr => HostRing

namespace Hosts

def update (hosts : Hosts) (ip : Addr) (sec : Int64) (r : Record) : Hosts :=
  hosts.insert ip (((hosts.lookup ip).getD HostRing.new).update sec r)

def tick (now : Int64) (hosts : Hosts) : Hosts :=
  KeyedMap.sweep (fun _ => HostRing.tick now) hosts

/-- `none` is the nil slice of `Snapshot`. -/
def snapshot (hosts : Hosts) (ip : Addr) (now window : Int64) : Option (List Bucket) :=
  if window < 1 then none
  else
    let window := if window > 60 then 60 else window
    (hosts.lookup ip).map fun hr => hr.snapshot now window.toInt.toNat

end Hosts

structure Store where
  size : Nat
  n : UInt32
  shards : Vector Hosts size
  fits : n.toNat ≤ size
  placed : ∀ (i : Fin size) (ip : Addr), ip ∈ shards[i] →
    (fnv32a ip.as16Bytes).toNat % n.toNat = i.val

/-- A method of `Store`: `none` is a panic. -/
abbrev Call (α : Type) := Option α

namespace Store

def chosen (defaultNumShards numShards : Int64) : Int64 :=
  let numShards := if numShards < 1 then defaultNumShards else numShards
  if numShards < 1 then 1 else numShards

def fresh (numShards : Nat) : Store where
  size := numShards
  n := UInt32.ofNat numShards
  shards := Vector.replicate numShards ∅
  fits := by
    rw [UInt32.toNat_ofNat']
    exact Nat.mod_le _ _
  placed := by
    intro i ip member
    simp at member

/-- `New`; `make` panics on more than `maxLen` elements. -/
def new (maxLen : Nat) (defaultNumShards numShards : Int64) : Call Store :=
  let numShards := (chosen defaultNumShards numShards).toInt.toNat
  if numShards ≤ maxLen then some (fresh numShards) else none

/-- `shardFor`: the remainder by a zero `n` is a division by zero. -/
def shardFor (s : Store) (ip : Addr) : Call (Fin s.size) :=
  if positive : 0 < s.n.toNat then
    some ⟨(fnv32a ip.as16Bytes).toNat % s.n.toNat, (Nat.mod_lt _ positive).trans_le s.fits⟩
  else none

theorem placed_update (s : Store) (home : Fin s.size) (ip : Addr) (sec : Int64) (r : Record)
    (hashed : (fnv32a ip.as16Bytes).toNat % s.n.toNat = home.val) (i : Fin s.size) (other : Addr)
    (member : other ∈ (s.shards.set home (s.shards[home].update ip sec r) home.isLt)[i]) :
    (fnv32a other.as16Bytes).toNat % s.n.toNat = i.val := by
  by_cases here : i = home
  · subst here
    simp only [Fin.getElem_fin, Vector.getElem_set_self, Hosts.update, AList.mem_insert] at member
    rcases member with rfl | member
    · exact hashed
    · exact s.placed i other member
  · have apart : home.val ≠ i.val := fun equal => here (Fin.ext equal.symm)
    simp only [Fin.getElem_fin, Vector.getElem_set_ne _ _ apart] at member
    exact s.placed i other member

theorem hashed_shardFor {s : Store} {ip : Addr} {home : Fin s.size}
    (routed : s.shardFor ip = some home) :
    (fnv32a ip.as16Bytes).toNat % s.n.toNat = home.val := by
  unfold shardFor at routed
  split at routed
  · cases routed
    rfl
  · contradiction

def update (s : Store) (ip : Addr) (sec : Int64) (r : Record) : Call Store :=
  match routed : s.shardFor ip with
  | none => none
  | some home => some {
      size := s.size
      n := s.n
      shards := s.shards.set home (s.shards[home].update ip sec r) home.isLt
      fits := s.fits
      placed := s.placed_update home ip sec r (hashed_shardFor routed) }

theorem update_eq_some {s next : Store} {ip : Addr} {sec : Int64} {r : Record}
    (updated : s.update ip sec r = some next) :
    ∃ home, ∃ hashed : s.shardFor ip = some home, next = {
      size := s.size
      n := s.n
      shards := s.shards.set home (s.shards[home].update ip sec r) home.isLt
      fits := s.fits
      placed := s.placed_update home ip sec r (hashed_shardFor hashed) } := by
  unfold update at updated
  split at updated
  · contradiction
  · next home routed =>
      exact ⟨home, routed, (Option.some.inj updated).symm⟩

/-- A window below 1 is answered before the shard is looked for. -/
def snapshot (s : Store) (ip : Addr) (now window : Int64) : Call (Option (List Bucket)) :=
  if window < 1 then some none
  else (s.shardFor ip).map fun home => s.shards[home].snapshot ip now window

theorem mem_tick {hosts : Hosts} {now : Int64} {ip : Addr} (member : ip ∈ hosts.tick now) :
    ip ∈ hosts := by
  rw [← AList.lookup_isSome, Hosts.tick, KeyedMap.lookup_sweep] at member
  rw [← AList.lookup_isSome]
  exact Option.isSome_of_isSome_bind member

def tick (s : Store) (now : Int64) : Store where
  size := s.size
  n := s.n
  shards := s.shards.map (Hosts.tick now)
  fits := s.fits
  placed := by
    intro i ip member
    apply s.placed i ip
    rw [Fin.getElem_fin, Vector.getElem_map] at member
    exact mem_tick member

def Represents (s : Store) (hosts : Hosts) : Prop :=
  ∀ ip home, s.shardFor ip = some home → s.shards[home].lookup ip = hosts.lookup ip

/-- One order in which a range over the shards and their maps may visit the hosts. -/
def Visits (s : Store) (visited : List Entry) : Prop :=
  ∃ parts, List.Forall₂ (fun part (hosts : Hosts) => part.Perm hosts.entries) parts
    s.shards.toList ∧ visited = parts.flatten

end Store

/-! The three views, as functions of the hosts in the order they are visited. -/

structure HostInfo where
  ip : Addr
  lastSec : Int64
  deriving DecidableEq, Repr

def activeHosts (now : Int64) (visited : List Entry) : List HostInfo :=
  visited.filterMap fun entry =>
    if entry.2.recent now then some ⟨entry.1, entry.2.lastSec⟩ else none

def overview (now : Int64) (visited : List Entry) : OverviewResult :=
  let active := visited.filter fun entry => entry.2.recent now
  { buckets := (List.range windowSize).map fun i : Nat =>
      (active.map fun entry => entry.2.buckets[ringIndex (now - Int64.ofNat i)]).sum
    activeHosts := active.length }

def rows (now : Int64) (visited : List Entry) : List TopEntry :=
  (visited.filter fun entry => entry.2.recent now).filterMap fun entry =>
    TopEntry.ofTotal entry.1 entry.2.total

/-- `Top`: `sort.Slice` is not stable, it may leave any arrangement that its order allows. -/
def Top (now : Int64) (n : Int) (visited : List Entry) (result : List TopEntry) : Prop :=
  if n ≤ 0 then result = []
  else ∃ sorted : List TopEntry, sorted.Perm (rows now visited) ∧
    sorted.Pairwise (fun first second => second.less first = false) ∧ result = sorted.take n.toNat

inductive Op
  | update (ip : Addr) (sec : Int64) (r : Record)
  | tick (now : Int64)
  deriving DecidableEq

def Store.apply (s : Store) : Op → Call Store
  | .update ip sec r => s.update ip sec r
  | .tick now => some (s.tick now)

/-- The state after a history, the newest call first. -/
def Store.after (start : Store) : List Op → Call Store
  | [] => some start
  | op :: past => (start.after past).bind fun s => s.apply op

def Hosts.apply (hosts : Hosts) : Op → Hosts
  | .update ip sec r => hosts.update ip sec r
  | .tick now => hosts.tick now

def Hosts.after : List Op → Hosts
  | [] => ∅
  | op :: past => (Hosts.after past).apply op

/-! With ticks between the epoch and the end of the range the machine's map holds what the store
over unbounded seconds holds. -/

def HostRing.ideal (hr : HostRing) : Aggregate.HostRing := ⟨hr.buckets, hr.lastSec.toInt⟩

def Op.ideal : Op → Aggregate.Op
  | .update ip sec r => .update ip sec.toInt r
  | .tick now => .tick now.toInt

def Op.InRange : Op → Prop
  | .update _ _ _ => True
  | .tick now => 0 ≤ now.toInt ∧ now.toInt + 1 < 2 ^ 63

theorem ideal_update (hr : HostRing) (sec : Int64) (r : Record) :
    (hr.update sec r).ideal = hr.ideal.update sec.toInt r := by
  have index : ringIndex sec = Aggregate.ringIndex sec.toInt := by
    rw [ringIndex_eq, ringIndex_eq_slot]
  have last : (if sec > hr.lastSec then sec else hr.lastSec).toInt =
      if sec.toInt > hr.lastSec.toInt then sec.toInt else hr.lastSec.toInt := by
    by_cases later : sec > hr.lastSec
    · rw [if_pos later, if_pos (Int64.lt_iff_toInt_lt.mp later)]
    · rw [if_neg later, if_neg (mt Int64.lt_iff_toInt_lt.mpr later)]
  simp only [HostRing.ideal, HostRing.update, Aggregate.HostRing.update, index, last]
  rfl

theorem toInt_age {hr : HostRing} {now : Int64} (nonneg : 0 ≤ now.toInt)
    (started : 0 ≤ hr.lastSec.toInt) :
    (now - hr.lastSec).toInt = now.toInt - hr.lastSec.toInt := by
  have upper := hr.lastSec.toInt_lt
  have below := now.toInt_lt
  rw [Int64.toInt_sub, Int.bmod_eq_of_le (by omega) (by omega)]

theorem ideal_tick {hr : HostRing} {now : Int64} (ranged : (Op.tick now).InRange)
    (started : 0 ≤ hr.lastSec.toInt) :
    (hr.tick now).map HostRing.ideal = hr.ideal.tick now.toInt := by
  have next : (now + 1).toInt = now.toInt + 1 := by
    rw [Int64.toInt_add, show (1 : Int64).toInt = 1 from rfl,
      Int.bmod_eq_of_le (by have := ranged.1; omega) (by have := ranged.2; omega)]
  have index : ringIndex (now + 1) = Aggregate.ringIndex (now.toInt + 1) := by
    rw [ringIndex_eq, ringIndex_eq_slot, next]
  have stale : now - hr.lastSec > 60 ↔ now.toInt - hr.ideal.lastSec > windowSize := by
    rw [gt_iff_lt, Int64.lt_iff_toInt_lt, toInt_age ranged.1 started]
    rfl
  unfold HostRing.tick Aggregate.HostRing.tick
  by_cases gone : now - hr.lastSec > 60
  · rw [if_pos gone, if_pos (stale.mp gone), Option.map_none]
  · rw [if_neg gone, if_neg (mt stale.mpr gone), Option.map_some]
    simp only [HostRing.ideal, index]

theorem Hosts.after_invariant {P : HostRing → Prop} (fresh : P HostRing.new)
    (updated : ∀ hr sec r, P hr → P (HostRing.update hr sec r))
    (ticked : ∀ hr next now, P hr → HostRing.tick now hr = some next → P next)
    {history : List Op} {ip : Addr} {hr : HostRing}
    (known : (Hosts.after history).lookup ip = some hr) : P hr := by
  induction history generalizing ip hr with
  | nil => simp [Hosts.after] at known
  | cons op past ih =>
      cases op with
      | update host sec r =>
          simp only [Hosts.after, Hosts.apply, Hosts.update, KeyedMap.lookup_insert] at known
          split at known
          · cases known
            apply updated
            cases found : (Hosts.after past).lookup host with
            | none => exact fresh
            | some before => exact ih found
          · exact ih known
      | tick now =>
          simp only [Hosts.after, Hosts.apply, Hosts.tick, KeyedMap.lookup_sweep] at known
          obtain ⟨before, present, kept⟩ := Option.bind_eq_some_iff.mp known
          exact ticked before hr now (ih present) kept

theorem lastSec_nonneg {history : List Op} {ip : Addr} {hr : HostRing}
    (known : (Hosts.after history).lookup ip = some hr) : 0 ≤ hr.lastSec.toInt := by
  apply Hosts.after_invariant (P := fun hr => 0 ≤ hr.lastSec.toInt) _ _ _ known
  · decide
  · intro hr sec r before
    simp only [HostRing.update]
    split
    · next later => exact before.trans (Int64.lt_iff_toInt_lt.mp later).le
    · exact before
  · intro hr next now before kept
    unfold HostRing.tick at kept
    split at kept
    · contradiction
    · cases kept
      exact before

theorem ideal_after (start : Aggregate.Store) (fresh : ∀ ip, start.host ip = none)
    {history : List Op} (ranged : ∀ op ∈ history, op.InRange) (ip : Addr) :
    ((Hosts.after history).lookup ip).map HostRing.ideal =
      (start.after (history.map Op.ideal)).host ip := by
  induction history generalizing ip with
  | nil => exact (fresh ip).symm
  | cons op past ih =>
      have earlier := ih fun op member => ranged op (List.mem_cons_of_mem _ member)
      cases op with
      | update host sec r =>
          change ((Hosts.after past).update host sec r |>.lookup ip).map HostRing.ideal =
            ((start.after (past.map Op.ideal)).update host sec.toInt r).host ip
          rw [Store.host_update, Hosts.update, KeyedMap.lookup_insert, ← earlier, ← earlier]
          split
          · cases (Hosts.after past).lookup host with
            | none => simp only [Option.getD_none, Option.map_some, Option.map_none, ideal_update]; rfl
            | some before => simp only [Option.getD_some, Option.map_some, ideal_update]
          · rfl
      | tick now =>
          have inRange := ranged (.tick now) List.mem_cons_self
          change ((Hosts.after past).tick now |>.lookup ip).map HostRing.ideal =
            ((start.after (past.map Op.ideal)).tick now.toInt).host ip
          rw [Store.host_tick, Hosts.tick, KeyedMap.lookup_sweep, ← earlier]
          cases known : (Hosts.after past).lookup ip with
          | none => rfl
          | some hr => exact ideal_tick inRange (lastSec_nonneg known)

end Mitigador.Aggregate.Machine
