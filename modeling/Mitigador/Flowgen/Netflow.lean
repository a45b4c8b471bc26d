import Mitigador.Lib.BigEndian

/-! The datagrams of flowgen (cmd/flowgen/netflow.go, main.go). -/

namespace Mitigador.Flowgen

open Lib

abbrev Packet := List UInt8

def templateID : UInt16 := 256
def fieldCount : UInt16 := 5
def recordSize : Nat := 25

structure Field where
  fieldType : UInt16
  fieldLength : UInt16
  deriving DecidableEq, Repr

def templateFields : List Field := [⟨8, 4⟩, ⟨12, 4⟩, ⟨4, 1⟩, ⟨1, 8⟩, ⟨2, 8⟩]

def appendU16 (b : Packet) (v : UInt16) : Packet := b ++ BigEndian.bytes 2 v.toNat

def appendU32 (b : Packet) (v : UInt32) : Packet := b ++ BigEndian.bytes 4 v.toNat

def appendU64 (b : Packet) (v : UInt64) : Packet := b ++ BigEndian.bytes 8 v.toNat

def as4 (ip : BitVec 32) : Packet := BigEndian.bytes 4 ip.toNat

def header (seq : UInt32) : Packet :=
  let pkt := appendU16 [] 9
  let pkt := appendU16 pkt 1
  let pkt := appendU32 pkt 0
  let pkt := appendU32 pkt 0
  let pkt := appendU32 pkt seq
  appendU32 pkt 0

def buildTemplate : Packet :=
  let tmplPayload := 2 + 2 + fieldCount.toNat * 4
  let tmplFlowSetLen := 4 + tmplPayload
  let pkt := header 0
  let pkt := appendU16 pkt 0
  let pkt := appendU16 pkt (UInt16.ofNat tmplFlowSetLen)
  let pkt := appendU16 pkt templateID
  let pkt := appendU16 pkt fieldCount
  templateFields.foldl
    (fun pkt f => appendU16 (appendU16 pkt f.fieldType) f.fieldLength) pkt

def buildDataRecord (seq : UInt32) (src dst : BitVec 32) (proto : UInt8)
    (pkts bytes : UInt64) : Packet :=
  let dataFlowSetLen := 4 + recordSize
  let pkt := header seq
  let pkt := appendU16 pkt templateID
  let pkt := appendU16 pkt (UInt16.ofNat dataFlowSetLen)
  let pkt := pkt ++ as4 src
  let pkt := pkt ++ as4 dst
  let pkt := pkt ++ [proto]
  let pkt := appendU64 pkt bytes
  appendU64 pkt pkts

def ticking (datagram : UInt32 → Packet) : Nat → UInt32 → List Packet
  | 0, _ => []
  | ticks + 1, seq => datagram seq :: ticking datagram ticks (seq + 1)

/-- What `runWithConn` writes in the given number of ticks. -/
def runWithConn (src dst : BitVec 32) (proto : UInt8) (pps bytesPerPkt ticks : Nat) :
    List Packet :=
  let pkts := UInt64.ofNat pps
  let bytes := UInt64.ofNat pps * UInt64.ofNat bytesPerPkt
  buildTemplate ::
    ticking (fun seq => buildDataRecord seq src dst proto pkts bytes) ticks 1

theorem getElem?_ticking (datagram : UInt32 → Packet) (ticks k : Nat) (seq : UInt32) :
    (ticking datagram ticks seq)[k]? =
      if k < ticks then some (datagram (seq + UInt32.ofNat k)) else none := by
  induction ticks generalizing k seq with
  | zero => rfl
  | succ ticks ih =>
      cases k with
      | zero => simp [ticking]
      | succ k =>
          rw [ticking, List.getElem?_cons_succ, ih]
          have next : seq + 1 + UInt32.ofNat k = seq + UInt32.ofNat (k + 1) := by
            rw [UInt32.ofNat_add, UInt32.add_assoc, UInt32.add_comm 1]
            rfl
          simp only [next, Nat.add_lt_add_iff_right]

end Mitigador.Flowgen
