import Mathlib.Data.UInt
import Mathlib.Algebra.BigOperators.Group.Multiset.Basic
import Mitigador.Flow.Record

/-! One second of one host (internal/aggregate/bucket.go). All counters wrap at 2^64. -/

namespace Mitigador.Aggregate

open Mitigador.Flow

@[ext]
structure Bucket where
  pps : UInt64
  bps : UInt64
  ppsUDP : UInt64
  bpsUDP : UInt64
  ppsICMP : UInt64
  bpsICMP : UInt64
  ppsOther : UInt64
  bpsOther : UInt64
  deriving DecidableEq, Repr

namespace Bucket

def add (b o : Bucket) : Bucket where
  pps := b.pps + o.pps
  bps := b.bps + o.bps
  ppsUDP := b.ppsUDP + o.ppsUDP
  bpsUDP := b.bpsUDP + o.bpsUDP
  ppsICMP := b.ppsICMP + o.ppsICMP
  bpsICMP := b.bpsICMP + o.bpsICMP
  ppsOther := b.ppsOther + o.ppsOther
  bpsOther := b.bpsOther + o.bpsOther

instance : Zero Bucket := ⟨⟨0, 0, 0, 0, 0, 0, 0, 0⟩⟩
instance : Add Bucket := ⟨add⟩

theorem zero_def : (0 : Bucket) = ⟨0, 0, 0, 0, 0, 0, 0, 0⟩ := rfl
theorem add_def (b o : Bucket) : b + o = b.add o := rfl

instance : AddCommMonoid Bucket where
  add_assoc a b c := by ext1 <;> exact add_assoc _ _ _
  zero_add a := by ext1 <;> exact zero_add _
  add_zero a := by ext1 <;> exact add_zero _
  add_comm a b := by ext1 <;> exact add_comm _ _
  nsmul := nsmulRec

def merge (b : Bucket) (r : Record) : Bucket :=
  let b := { b with pps := b.pps + r.packets, bps := b.bps + r.bytes }
  if r.proto = protoUDP then
    { b with ppsUDP := b.ppsUDP + r.packets, bpsUDP := b.bpsUDP + r.bytes }
  else if r.proto = protoICMP ∨ r.proto = protoICMPv6 then
    { b with ppsICMP := b.ppsICMP + r.packets, bpsICMP := b.bpsICMP + r.bytes }
  else
    { b with ppsOther := b.ppsOther + r.packets, bpsOther := b.bpsOther + r.bytes }

def ofRecord (r : Record) : Bucket := merge 0 r

theorem merge_eq_add (b : Bucket) (r : Record) : b.merge r = b + ofRecord r := by
  rw [add_def]
  unfold ofRecord merge
  split
  · ext1 <;> simp [add, zero_def]
  · split <;> ext1 <;> simp [add, zero_def]

theorem pps_ofRecord (r : Record) : (ofRecord r).pps = r.packets := by
  unfold ofRecord merge
  split
  · exact zero_add _
  · split <;> exact zero_add _

theorem bps_ofRecord (r : Record) : (ofRecord r).bps = r.bytes := by
  unfold ofRecord merge
  split
  · exact zero_add _
  · split <;> exact zero_add _

theorem ofRecord_eq_zero {r : Record} (packets : r.packets = 0) (bytes : r.bytes = 0) :
    ofRecord r = 0 := by
  unfold ofRecord merge
  rw [packets, bytes]
  split
  · rfl
  · split <;> rfl

end Bucket

inductive Class
  | udp
  | icmp
  | other
  deriving DecidableEq, Repr

def classOf (r : Record) : Class :=
  if r.proto = protoUDP then .udp
  else if r.proto = protoICMP ∨ r.proto = protoICMPv6 then .icmp
  else .other

/-- What a bucket that holds exactly the given records has to show in each of its fields. -/
def totals (records : Multiset Record) : Bucket :=
  let packets (rs : Multiset Record) : UInt64 := (rs.map (·.packets)).sum
  let bytes (rs : Multiset Record) : UInt64 := (rs.map (·.bytes)).sum
  { pps := packets records
    bps := bytes records
    ppsUDP := packets (records.filter (classOf · = .udp))
    bpsUDP := bytes (records.filter (classOf · = .udp))
    ppsICMP := packets (records.filter (classOf · = .icmp))
    bpsICMP := bytes (records.filter (classOf · = .icmp))
    ppsOther := packets (records.filter (classOf · = .other))
    bpsOther := bytes (records.filter (classOf · = .other)) }

theorem totals_zero : totals 0 = 0 := by
  simp [totals, Bucket.zero_def]

theorem totals_add (first second : Multiset Record) :
    totals (first + second) = totals first + totals second := by
  rw [Bucket.add_def]
  ext1 <;> simp only [totals, Bucket.add, Multiset.filter_add, Multiset.map_add, Multiset.sum_add]

theorem totals_singleton (r : Record) : totals {r} = Bucket.ofRecord r := by
  unfold totals Bucket.ofRecord Bucket.merge
  by_cases udp : r.proto = protoUDP
  · have known : classOf r = .udp := by simp [classOf, udp]
    simp [Multiset.filter_singleton, known, udp, Bucket.zero_def]
  · by_cases icmp : r.proto = protoICMP ∨ r.proto = protoICMPv6
    · have known : classOf r = .icmp := by simp [classOf, udp, icmp]
      simp [Multiset.filter_singleton, known, udp, icmp, Bucket.zero_def]
    · have known : classOf r = .other := by simp [classOf, udp, icmp]
      simp [Multiset.filter_singleton, known, udp, icmp, Bucket.zero_def]

def tally : Multiset Record →+ Bucket where
  toFun := totals
  map_zero' := totals_zero
  map_add' := totals_add

@[simp] theorem tally_apply (records : Multiset Record) : tally records = totals records := rfl

theorem tally_singleton (r : Record) : tally {r} = Bucket.ofRecord r :=
  totals_singleton r

def packetsIn (records : Multiset Record) : Nat :=
  (records.map fun r => r.packets.toNat).sum

def bytesIn (records : Multiset Record) : Nat :=
  (records.map fun r => r.bytes.toNat).sum

theorem toNat_sum (values : Multiset UInt64) :
    values.sum.toNat = (values.map UInt64.toNat).sum % 2 ^ 64 := by
  induction values using Multiset.induction_on with
  | empty => rfl
  | cons value values ih =>
      rw [Multiset.sum_cons, UInt64.toNat_add, ih, Multiset.map_cons, Multiset.sum_cons,
        Nat.add_mod_mod]

theorem totals_pps (records : Multiset Record) :
    (totals records).pps.toNat = packetsIn records % 2 ^ 64 := by
  simp only [totals, toNat_sum, Multiset.map_map, packetsIn, Function.comp_def]

theorem totals_bps (records : Multiset Record) :
    (totals records).bps.toNat = bytesIn records % 2 ^ 64 := by
  simp only [totals, toNat_sum, Multiset.map_map, bytesIn, Function.comp_def]

theorem packetsIn_mono {fewer more : Multiset Record} (included : fewer ≤ more) :
    packetsIn fewer ≤ packetsIn more := by
  obtain ⟨rest, rfl⟩ := Multiset.le_iff_exists_add.mp included
  simp only [packetsIn, Multiset.map_add, Multiset.sum_add]
  omega

theorem totals_udp {records : Multiset Record} (udp : ∀ r ∈ records, r.proto = protoUDP) :
    (totals records).ppsUDP = (totals records).pps := by
  have all : records.filter (classOf · = .udp) = records := by
    rw [Multiset.filter_eq_self]
    intro r member
    rw [classOf, if_pos (udp r member)]
  simp only [totals, all]

end Mitigador.Aggregate
