import Mitigador.Go.Netip
import Mitigador.Go.Time

/-! The flow record that ingest hands to the counters (internal/flow/record.go). -/

namespace Mitigador.Flow

open Go

/-- IANA protocol numbers; any other value is carried through unchanged. -/
abbrev Proto := UInt8

def protoICMP : Proto := 1
def protoUDP : Proto := 17
def protoICMPv6 : Proto := 58

/-- `bytes` and `packets` are counted after sample-rate expansion. -/
structure Record where
  exporter : Addr
  dstIP : Addr
  srcIP : Addr
  proto : Proto
  bytes : UInt64
  packets : UInt64
  sampleRate : UInt32
  received : Time
  deriving DecidableEq, Repr

def sampleHost : Addr := .v4 0xc0000201

def sampleRecord (proto : Proto) (packets bytes : UInt64) : Record where
  exporter := .v4 0x0a000002
  dstIP := sampleHost
  srcIP := .v4 0xc6336407
  proto := proto
  bytes := bytes
  packets := packets
  sampleRate := 1
  received := Time.ofUnix 100

end Mitigador.Flow
