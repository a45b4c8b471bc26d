import Mitigador.Aggregate.Bucket
import Mitigador.Detect.Thresholds

/-! Classification and confidence (internal/detect/classify.go and score.go). -/

namespace Mitigador.Detect

open Aggregate

def sumOf (counter : Bucket → UInt64) (buckets : List Bucket) : UInt64 :=
  (buckets.map counter).sum

/-- `Classify`; no answer is the empty vector of the source. -/
def classify (buckets : List Bucket) : Option Vector :=
  let totalPps := sumOf Bucket.pps buckets
  let udpPps := sumOf Bucket.ppsUDP buckets
  let icmpPps := sumOf Bucket.ppsICMP buckets
  if totalPps = 0 then none
  else if 2 * udpPps > totalPps then some .udpFlood
  else if 2 * icmpPps > totalPps then some .icmpFlood
  else none

theorem classify_udp {buckets : List Bucket}
    (udp : sumOf Bucket.ppsUDP buckets = sumOf Bucket.pps buckets)
    (busy : sumOf Bucket.pps buckets ≠ 0)
    (small : (sumOf Bucket.pps buckets).toNat < 2 ^ 63) :
    classify buckets = some .udpFlood := by
  have positive : (sumOf Bucket.pps buckets).toNat ≠ 0 := fun zero =>
    busy (UInt64.toNat_inj.mp zero)
  have doubled : 2 * sumOf Bucket.pps buckets > sumOf Bucket.pps buckets := by
    have two : (2 : UInt64).toNat = 2 := rfl
    rw [gt_iff_lt, UInt64.lt_iff_toNat_lt, UInt64.toNat_mul, two]
    omega
  simp only [classify, udp, if_neg busy, if_pos doubled]

/-- `sat`, on the floats of the source. -/
def sat (x : Float) : Float := if x ≤ 1 then 0 else Float.tanh (x - 1)

/-- `Confidence`. The score is carried in the events and decides nothing. -/
def confidence (avgPps avgBps : UInt64) (t : Threshold) (durSec : Int) : Float :=
  let ppsRatio := avgPps.toFloat / (max t.pps 1).toFloat
  let bpsRatio := avgBps.toFloat / (max t.bps 1).toFloat
  let durFactor : Float :=
    if (ppsRatio > 1 || bpsRatio > 1) && t.minWindowSec > 0 then
      min (Float.ofInt durSec / Float.ofInt t.minWindowSec) 1
    else 0
  let score := 0.4 * sat ppsRatio + 0.4 * sat bpsRatio + 0.2 * durFactor
  if score < 0 then 0 else if score > 1 then 1 else score

end Mitigador.Detect
