import Mathlib.Data.List.DropRight
import Mitigador.Ingest.Exporters
import Mitigador.Lib.SlotRing

/-! The rows of `HealthTracker.Snapshot` (internal/ingest/health.go), and what the buckets of an
exporter hold after any observations that are not more than a minute behind the latest. -/

namespace Mitigador.Ingest

open Go Lib

inductive Status
  | online
  | stale
  | offline
  deriving DecidableEq, Repr

def staleAfter : Duration := 60 * second
def offlineAfter : Duration := 5 * minute

structure ExporterHealth where
  sourceIP : Addr
  lastSeen : Time
  flows : UInt32
  status : Status
  sampleRateOverride : UInt32
  deriving DecidableEq, Repr

namespace ExporterState

def status (es : ExporterState) (now : Time) : Status :=
  let age := now.sub es.lastSeen
  if age < staleAfter then .online
  else if age < offlineAfter then .stale
  else .offline

/-- The sum of all buckets, which is a uint32 as they are. -/
def flows (es : ExporterState) : UInt32 := es.buckets.foldl (· + ·) 0

end ExporterState

namespace HealthTracker

def row (h : HealthTracker) (e : Exporter) (now : Time) : ExporterHealth :=
  match h.state.lookup e.sourceIP with
  | none => ⟨e.sourceIP, Time.zero, 0, .offline, e.sampleRateOverride⟩
  | some es => ⟨e.sourceIP, es.lastSeen, es.flows, es.status now, e.sampleRateOverride⟩

/-- `HealthTracker.Snapshot`; `Inventory.All` goes through its map in any order. -/
def Snapshots (h : HealthTracker) (inv : Inventory) (now : Time) (rows : List ExporterHealth) :
    Prop :=
  rows.Perm (inv.byIP.entries.map fun entry => h.row entry.2 now)

theorem observe_eq_some {h next : HealthTracker} {exporter : Addr} {now : Time}
    (observed : h.observe exporter now = some next) :
    ∃ es, ((h.state.lookup exporter.unmap).getD ExporterState.new).observe now = some es ∧
      next = ⟨h.state.insert exporter.unmap es⟩ := by
  simp only [observe] at observed
  split at observed
  · contradiction
  · next es stepped =>
      cases observed
      exact ⟨es, stepped, rfl⟩

def observeAll (h : HealthTracker) (observations : List (Addr × Time)) : Option HealthTracker :=
  observations.foldlM (fun h (exporter, now) => h.observe exporter now) h

end HealthTracker

/-- The times observed for an exporter, under either form of its address. -/
def timesOf (ip : Addr) (observations : List (Addr × Time)) : List Time :=
  (observations.filter fun observation => observation.1.unmap = ip).map Prod.snd

theorem timesOf_append (ip : Addr) (front back : List (Addr × Time)) :
    timesOf ip (front ++ back) = timesOf ip front ++ timesOf ip back := by
  simp [timesOf]

theorem lookup_observeAll {observations : List (Addr × Time)} {h : HealthTracker}
    (observed : HealthTracker.new.observeAll observations = some h) (ip : Addr) :
    (timesOf ip observations).foldlM ExporterState.observe ExporterState.new =
        some ((h.state.lookup ip).getD ExporterState.new) ∧
      ((h.state.lookup ip).isSome = true ↔ timesOf ip observations ≠ []) := by
  induction observations using List.reverseRecOn generalizing h with
  | nil =>
      cases observed
      exact ⟨rfl, by simp [HealthTracker.new, timesOf]⟩
  | append_singleton past observation ih =>
      obtain ⟨exporter, now⟩ := observation
      rw [HealthTracker.observeAll, List.foldlM_append] at observed
      obtain ⟨middle, before, last⟩ := Option.bind_eq_some_iff.mp observed
      obtain ⟨state, present⟩ := ih before
      simp only [List.foldlM_cons, List.foldlM_nil] at last
      obtain ⟨after, moved, same⟩ := Option.bind_eq_some_iff.mp last
      cases same
      obtain ⟨es, stepped, rfl⟩ := HealthTracker.observe_eq_some moved
      rw [timesOf_append, KeyedMap.lookup_insert]
      by_cases own : exporter.unmap = ip
      · subst own
        have single : timesOf exporter.unmap [(exporter, now)] = [now] := by simp [timesOf]
        rw [single, if_pos rfl, List.foldlM_append, state]
        refine ⟨?_, by simp⟩
        simp only [Option.bind_eq_bind, Option.bind_some, List.foldlM_cons, List.foldlM_nil,
          stepped, Option.getD_some]
        rfl
      · have none : timesOf ip [(exporter, now)] = [] := by simp [timesOf, own]
        rw [none, List.append_nil, if_neg (Ne.symm own)]
        exact ⟨state, present⟩

section Buckets

variable {buckets : Vector UInt32 60} {sec : Int}

theorem bucketIndex_eq (epoch : 0 ≤ sec) :
    ExporterState.bucketIndex sec = some (SlotRing.slot 60 sec) := by
  have reduced : sec.tmod 60 = sec % 60 := Int.tmod_eq_emod_of_nonneg epoch
  unfold ExporterState.bucketIndex
  rw [dif_pos (by omega)]
  simp only [SlotRing.slot, Option.some.injEq, Fin.mk.injEq, reduced]
  rfl

theorem zeroFrom_eq (epoch : 0 ≤ sec) (count : Nat) :
    ExporterState.zeroFrom buckets sec count = some (SlotRing.clearFrom buckets sec count) := by
  induction count generalizing buckets sec with
  | zero => rfl
  | succ count ih =>
      rw [ExporterState.zeroFrom, bucketIndex_eq epoch]
      exact ih (by omega)

theorem observe_eq {es : ExporterState} {now : Time} (cursor : 0 ≤ es.lastBucketSec)
    (epoch : 0 ≤ now.unix) :
    es.observe now = some ⟨now, SlotRing.deposit
      (SlotRing.advance es.buckets es.lastBucketSec now.unix) now.unix 1, now.unix⟩ := by
  have evicted : (if now.unix ≠ es.lastBucketSec then es.evict now.unix else some es.buckets) =
      some (SlotRing.advance es.buckets es.lastBucketSec now.unix) := by
    unfold SlotRing.advance ExporterState.evict
    by_cases far : now.unix - es.lastBucketSec ≥ 60
    · rw [if_pos (by omega), if_pos far]
      exact congrArg some (if_pos far).symm
    · have near : ¬ now.unix - es.lastBucketSec ≥ ((60 : Nat) : Int) := far
      dsimp only
      rw [if_neg near, if_neg far, zeroFrom_eq (by omega)]
      by_cases same : now.unix = es.lastBucketSec
      · rw [if_neg (by simpa using same), same, sub_self]
        rfl
      · rw [if_pos same]
  simp only [ExporterState.observe, evicted, bucketIndex_eq epoch]
  rfl

theorem observe_next {es : ExporterState} {now : Time} (cursor : 0 ≤ es.lastBucketSec)
    (epoch : 0 ≤ now.unix) :
    ∃ next, es.observe now = some next ∧ next.lastBucketSec = now.unix :=
  ⟨_, observe_eq cursor epoch, rfl⟩

theorem observe_total {times : List Time} (epoch : ∀ t ∈ times, 0 ≤ t.unix) :
    ∃ es, times.foldlM ExporterState.observe ExporterState.new = some es ∧
      0 ≤ es.lastBucketSec := by
  induction times using List.reverseRecOn with
  | nil => exact ⟨_, rfl, le_rfl⟩
  | append_singleton past now ih =>
      obtain ⟨es, reached, cursor⟩ := ih fun t member => epoch t (List.mem_append_left _ member)
      obtain ⟨next, moved, last⟩ := observe_next cursor (epoch now (by simp))
      refine ⟨next, ?_, by rw [last]; exact epoch now (by simp)⟩
      rw [List.foldlM_append, reached]
      simp only [Option.bind_eq_bind, Option.bind_some, List.foldlM_cons, List.foldlM_nil, moved]
      rfl

theorem observeAll_total {observations : List (Addr × Time)}
    (epoch : ∀ observation ∈ observations, 0 ≤ observation.2.unix) :
    ∃ h, HealthTracker.new.observeAll observations = some h := by
  induction observations using List.reverseRecOn with
  | nil => exact ⟨_, rfl⟩
  | append_singleton past observation ih =>
      obtain ⟨exporter, now⟩ := observation
      have before : ∀ earlier ∈ past, 0 ≤ earlier.2.unix := fun earlier member =>
        epoch earlier (List.mem_append_left _ member)
      obtain ⟨h, reached⟩ := ih before
      obtain ⟨es, known, cursor⟩ := @observe_total (timesOf exporter.unmap past) fun t member => by
        obtain ⟨earlier, kept, rfl⟩ := List.mem_map.mp member
        exact before earlier (List.mem_filter.mp kept).1
      rw [(lookup_observeAll reached exporter.unmap).1] at known
      obtain rfl := Option.some.inj known
      obtain ⟨next, moved, -⟩ := observe_next cursor (epoch (exporter, now) (by simp))
      refine ⟨⟨h.state.insert exporter.unmap next⟩, ?_⟩
      rw [HealthTracker.observeAll] at reached ⊢
      rw [List.foldlM_append, reached]
      simp only [Option.bind_eq_bind, Option.bind_some, List.foldlM_cons, List.foldlM_nil,
        HealthTracker.observe, moved]
      rfl

end Buckets

theorem HealthTracker.Snapshots.mem_iff {h : HealthTracker} {inv : Inventory} {now : Time}
    {rows : List ExporterHealth} (shown : h.Snapshots inv now rows) (row : ExporterHealth) :
    row ∈ rows ↔ ∃ ip exp, inv.byIP.lookup ip = some exp ∧ row = h.row exp now := by
  rw [List.Perm.mem_iff shown, List.mem_map]
  constructor
  · rintro ⟨⟨ip, exp⟩, listed, rfl⟩
    exact ⟨ip, exp, (KeyedMap.mem_entries _ _ _).mp listed, rfl⟩
  · rintro ⟨ip, exp, found, rfl⟩
    exact ⟨⟨ip, exp⟩, (KeyedMap.mem_entries _ _ _).mpr found, rfl⟩

theorem HealthTracker.sourceIP_row (h : HealthTracker) (exp : Exporter) (now : Time) :
    (h.row exp now).sourceIP = exp.sourceIP := by
  unfold row
  split <;> rfl

end Mitigador.Ingest
