import Mitigador.Aggregate.Store

/-! Runs of the counter map, and the ledger that says what each slot of a run holds.
A history lists the calls made so far, the newest first. -/

namespace Mitigador.Aggregate

open Go Mitigador.Flow Lib

inductive Op
  | update (ip : Addr) (sec : Int) (r : Record)
  | tick (now : Int)
  deriving DecidableEq

namespace Store

def apply (s : Store) : Op → Store
  | .update ip sec r => s.update ip sec r
  | .tick now => s.tick now

def after (start : Store) : List Op → Store
  | [] => start
  | op :: past => (start.after past).apply op

end Store

def recordsAt : List Op → Addr → Int → Multiset Record
  | [], _, _ => 0
  | .update host sec r :: past, ip, second =>
      recordsAt past ip second + if ip = host ∧ second = sec then {r} else 0
  | .tick _ :: past, ip, second => recordsAt past ip second

theorem mem_recordsAt {history : List Op} {ip : Addr} {second : Int} {r : Record}
    (member : r ∈ recordsAt history ip second) : Op.update ip second r ∈ history := by
  induction history with
  | nil => simp [recordsAt] at member
  | cons op past ih =>
      cases op with
      | tick now => exact List.mem_cons_of_mem _ (ih member)
      | update host sec other =>
          rw [recordsAt, Multiset.mem_add] at member
          rcases member with earlier | here
          · exact List.mem_cons_of_mem _ (ih earlier)
          · split at here
            · next same =>
                obtain ⟨rfl, rfl⟩ := same
                rw [Multiset.mem_singleton.mp here]
                exact List.mem_cons_self
            · simp at here

def appliedIn (history : List Op) (ip : Addr) (second : Int) (n : Nat) : Multiset Record :=
  ((List.range n).map fun i : Nat => recordsAt history ip (second - i)).sum

/-- The ledger of a host keeps, for each slot, the records counted in it. -/
structure HostLog where
  slots : Vector (Multiset Record) windowSize
  lastSec : Int

namespace HostLog

def new : HostLog := ⟨SlotRing.empty windowSize, 0⟩

def update (log : HostLog) (sec : Int) (r : Record) : HostLog where
  slots := SlotRing.deposit log.slots sec {r}
  lastSec := max log.lastSec sec

def tick (now : Int) (log : HostLog) : Option HostLog :=
  if now - log.lastSec > windowSize then none
  else some { log with slots := SlotRing.clear log.slots (now + 1) }

def ring (log : HostLog) : HostRing := ⟨log.slots.map tally, log.lastSec⟩

theorem ring_new : new.ring = HostRing.new := by
  simp only [ring, new, HostRing.new, SlotRing.map_empty]
  rfl

theorem ring_update (log : HostLog) (sec : Int) (r : Record) :
    (log.update sec r).ring = log.ring.update sec r := by
  have buckets := HostRing.buckets_update log.ring sec r
  have counted : (log.update sec r).ring.buckets = (log.ring.update sec r).buckets := by
    rw [buckets, ring, update, SlotRing.map_deposit, tally_singleton]
    rfl
  have last : (log.update sec r).ring.lastSec = (log.ring.update sec r).lastSec :=
    (HostRing.lastSec_update log.ring sec r).symm
  rw [HostRing.mk.injEq]
  exact ⟨counted, last⟩

theorem tick_eq_none (now : Int) (log : HostLog) (gone : log.tick now = none) :
    log.lastSec + 60 < now := by
  unfold tick at gone
  split at gone
  · next stale =>
      simp only [windowSize] at stale
      omega
  · contradiction

theorem tick_eq_some (now : Int) (log next : HostLog) (kept : log.tick now = some next) :
    next = { log with slots := SlotRing.clear log.slots (now + 1) } := by
  unfold tick at kept
  split at kept
  · contradiction
  · exact (Option.some.inj kept).symm

theorem tick_ring (now : Int) (log : HostLog) :
    log.ring.tick now = (log.tick now).map ring := by
  rw [HostRing.tick_eq]
  unfold tick
  by_cases stale : now - log.lastSec > windowSize
  · have same : now - log.ring.lastSec > windowSize := stale
    rw [if_pos stale, if_pos same, Option.map_none]
  · have same : ¬ now - log.ring.lastSec > windowSize := stale
    rw [if_neg stale, if_neg same, Option.map_some]
    simp only [ring, SlotRing.map_clear]

end HostLog

/-- The abstract store: one ledger for each host, without shards. -/
def Ledger := Addr → Option HostLog

namespace Ledger

def empty : Ledger := fun _ => none

def apply (ledger : Ledger) : Op → Ledger
  | .update ip sec r => fun other =>
      if other = ip then some (((ledger ip).getD HostLog.new).update sec r) else ledger other
  | .tick now => fun other => (ledger other).bind (HostLog.tick now)

def after : List Op → Ledger
  | [] => empty
  | op :: past => (after past).apply op

end Ledger

def held (history : List Op) (ip : Addr) (second : Int) : Multiset Record :=
  ((Ledger.after history ip).map fun log => SlotRing.read log.slots second).getD 0

/-- The store refines the ledger: after any history each ring is the tally of its ledger. -/
theorem host_after (start : Store) (fresh : ∀ ip, start.host ip = none) (history : List Op)
    (ip : Addr) : (start.after history).host ip = (Ledger.after history ip).map HostLog.ring := by
  induction history generalizing ip with
  | nil => exact fresh ip
  | cons op past ih =>
      cases op with
      | update host sec r =>
          change ((start.after past).update host sec r).host ip = _
          rw [Store.host_update, ih host, ih ip]
          simp only [Ledger.after, Ledger.apply]
          split
          · cases Ledger.after past host with
            | none => simp [HostLog.ring_update, HostLog.ring_new]
            | some log => simp [HostLog.ring_update]
          · rfl
      | tick now =>
          change ((start.after past).tick now).host ip = _
          rw [Store.host_tick, ih ip]
          simp only [Ledger.after, Ledger.apply]
          cases Ledger.after past ip with
          | none => rfl
          | some log => simp [HostLog.tick_ring]

theorem snapshot_after (start : Store) (fresh : ∀ ip, start.host ip = none) (history : List Op)
    (ip : Addr) (now window : Int) (buckets : List Bucket)
    (reported : (start.after history).snapshot ip now window = some buckets) :
    buckets = (List.range (min window windowSize).toNat).map fun i : Nat =>
      totals (held history ip (now - i)) := by
  unfold Store.snapshot at reported
  split at reported
  · contradiction
  · rw [host_after start fresh] at reported
    unfold held
    cases present : Ledger.after history ip with
    | none => rw [present] at reported; contradiction
    | some log =>
        rw [present] at reported
        simp only [Option.map_some, Option.some.injEq] at reported
        rw [← reported, HostRing.snapshot_eq_read]
        have clamped : (if window > windowSize then (windowSize : Int) else window) =
            min window windowSize := by
          split <;> omega
        rw [clamped]
        apply List.map_congr_left
        intro i member
        simp only [HostLog.ring, SlotRing.read_map, tally_apply, Option.map_some, Option.getD_some]

theorem held_tick (history : List Op) (ip : Addr) (now : Int) :
    held (.tick now :: history) ip (now + 1) = 0 := by
  simp only [held, Ledger.after, Ledger.apply]
  cases Ledger.after history ip with
  | none => rfl
  | some log =>
      simp only [Option.bind_some, HostLog.tick]
      split
      · rfl
      · simp [SlotRing.read_clear]

def inWindow (history : List Op) (ip : Addr) (second : Int) (n : Nat) : Multiset Record :=
  ((List.range n).map fun i : Nat => held history ip (second - i)).sum

end Mitigador.Aggregate
