import Mathlib.Data.UInt
import Mitigador.Go.Netip
import Mitigador.Go.Time
import Mitigador.Lib.KeyedMap

/-! Per-exporter arrival counts (internal/ingest/health.go). An index out of range panics and
answers `none`: Go's `%` is negative for a second before 1970. -/

namespace Mitigador.Ingest

open Go Lib

structure ExporterState where
  lastSeen : Time
  buckets : Vector UInt32 60
  lastBucketSec : Int
  deriving DecidableEq, Repr

namespace ExporterState

def new : ExporterState := ⟨Time.zero, Vector.replicate 60 0, 0⟩

def bucketIndex (sec : Int) : Option (Fin 60) :=
  if valid : 0 ≤ sec.tmod 60 then
    some ⟨(sec.tmod 60).toNat, by
      have reduced := Int.tmod_lt_of_pos sec (show (0 : Int) < 60 by decide)
      omega⟩
  else none

def zeroFrom (buckets : Vector UInt32 60) (sec : Int) : Nat → Option (Vector UInt32 60)
  | 0 => some buckets
  | count + 1 =>
      match bucketIndex sec with
      | none => none
      | some idx => zeroFrom (buckets.set idx 0 idx.isLt) (sec + 1) count

def evict (es : ExporterState) (sec : Int) : Option (Vector UInt32 60) :=
  let gap := sec - es.lastBucketSec
  if gap ≥ 60 then some (Vector.replicate 60 0)
  else zeroFrom es.buckets (es.lastBucketSec + 1) gap.toNat

def observe (es : ExporterState) (now : Time) : Option ExporterState :=
  let sec := now.unix
  let evicted := if sec ≠ es.lastBucketSec then es.evict sec else some es.buckets
  match evicted, bucketIndex sec with
  | some buckets, some idx =>
      some ⟨now, buckets.set idx (buckets[idx] + 1) idx.isLt, sec⟩
  | _, _ => none

end ExporterState

structure HealthTracker where
  state : KeyedMap Addr ExporterState

namespace HealthTracker

def new : HealthTracker := ⟨∅⟩

def observe (h : HealthTracker) (exporter : Addr) (now : Time) : Option HealthTracker :=
  let exporter := exporter.unmap
  match ((h.state.lookup exporter).getD ExporterState.new).observe now with
  | none => none
  | some es => some ⟨h.state.insert exporter es⟩

end HealthTracker

end Mitigador.Ingest
