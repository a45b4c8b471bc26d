import Mitigador.Aggregate.History

/-! The two views over all hosts (`Store.Top` in internal/aggregate/store.go and overview.go),
and what the ledger says about them. -/

namespace Mitigador.Aggregate

open Go Mitigador.Flow Lib

structure TopEntry where
  ip : Addr
  bps : UInt64
  pps : UInt64
  dominantProto : String
  deriving DecidableEq, Repr

def TopEntry.ofTotal (ip : Addr) (total : Bucket) : Option TopEntry :=
  if total.bps = 0 then none
  else
    let (proto, best) := if total.bpsICMP > total.bpsUDP then ("icmp", total.bpsICMP)
      else ("udp", total.bpsUDP)
    let proto := if total.bpsOther > best then "other" else proto
    some ⟨ip, total.bps, total.pps, proto⟩

def HostRing.total (hr : HostRing) : Bucket := hr.buckets.toList.sum

structure OverviewResult where
  buckets : List Bucket
  activeHosts : Nat
  deriving DecidableEq, Repr

def TopEntry.less (a b : TopEntry) : Bool :=
  if a.bps ≠ b.bps then decide (a.bps > b.bps) else decide (a.ip.text < b.ip.text)

namespace Store

def recent (s : Store) (now : Int) : List (Sigma fun _ : Addr => HostRing) :=
  s.shards.toList.flatMap fun sh =>
    sh.hosts.entries.filter fun entry => !decide (now - entry.2.lastSec > windowSize)

def top (s : Store) (now n : Int) : List TopEntry :=
  if n ≤ 0 then []
  else
    let all := (s.recent now).filterMap fun entry => TopEntry.ofTotal entry.1 entry.2.total
    (all.mergeSort fun a b => !b.less a).take n.toNat

def overview (s : Store) (now : Int) : OverviewResult where
  buckets := (List.range windowSize).map fun i : Nat =>
    ((s.recent now).map fun entry => entry.2.buckets.get (ringIndex (now - i))).sum
  activeHosts := (s.recent now).length

theorem mem_recent {s : Store} {now : Int} {ip : Addr} {hr : HostRing} :
    ⟨ip, hr⟩ ∈ s.recent now ↔ s.host ip = some hr ∧ now - hr.lastSec ≤ windowSize := by
  rw [host_eq_some_iff]
  simp only [recent, List.mem_flatMap, List.mem_filter, Bool.not_eq_true',
    decide_eq_false_iff_not, not_lt]
  constructor
  · rintro ⟨sh, member, present, young⟩
    exact ⟨⟨sh, member, present⟩, young⟩
  · rintro ⟨⟨sh, member, present⟩, young⟩
    exact ⟨sh, member, present, young⟩

theorem mem_top {s : Store} {now n : Int} {row : TopEntry} (listed : row ∈ s.top now n) :
    ∃ hr, s.host row.ip = some hr ∧ now - hr.lastSec ≤ windowSize ∧
      TopEntry.ofTotal row.ip hr.total = some row := by
  unfold top at listed
  split at listed
  · contradiction
  · have sorted := List.mem_mergeSort.mp (List.mem_of_mem_take listed)
    obtain ⟨⟨ip, hr⟩, member, made⟩ := List.mem_filterMap.mp sorted
    obtain ⟨present, young⟩ := mem_recent.mp member
    have own : row.ip = ip := by
      unfold TopEntry.ofTotal at made
      split at made
      · contradiction
      · cases made
        rfl
    rw [own]
    exact ⟨hr, present, young, made⟩

end Store

theorem total_ring (log : HostLog) (now : Int) :
    log.ring.total = totals
      ((List.range windowSize).map fun i : Nat => SlotRing.read log.slots (now - i)).sum := by
  rw [← SlotRing.sum_eq_sum_read, ← tally_apply, map_list_sum, HostRing.total, HostLog.ring,
    Vector.toList_map]

theorem top_after (start : Store) (fresh : ∀ ip, start.host ip = none) (history : List Op)
    (now n : Int) {row : TopEntry} (listed : row ∈ (start.after history).top now n) :
    TopEntry.ofTotal row.ip (totals (inWindow history row.ip now windowSize)) = some row := by
  obtain ⟨hr, present, -, made⟩ := Store.mem_top listed
  rw [host_after start fresh, Option.map_eq_some_iff] at present
  obtain ⟨log, known, rfl⟩ := present
  rw [← made, total_ring log now]
  simp [inWindow, held, known]

theorem overview_after (start : Store) (fresh : ∀ ip, start.host ip = none) (history : List Op)
    (now : Int) :
    ((start.after history).overview now).buckets = (List.range windowSize).map fun i : Nat =>
      (((start.after history).recent now).map fun entry =>
        totals (held history entry.1 (now - i))).sum := by
  unfold Store.overview
  apply List.map_congr_left
  intro i _
  congr 1
  apply List.map_congr_left
  rintro ⟨ip, hr⟩ member
  obtain ⟨present, -⟩ := Store.mem_recent.mp member
  rw [host_after start fresh, Option.map_eq_some_iff] at present
  obtain ⟨log, known, rfl⟩ := present
  simp only [held, known, Option.map_some, Option.getD_some, ringIndex_eq_slot]
  exact SlotRing.read_map tally log.slots (now - i)

end Mitigador.Aggregate
