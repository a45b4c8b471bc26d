import Mitigador.Go.Netip
import Mitigador.Go.Time

/-! The events of the detector (internal/detect/event.go). -/

namespace Mitigador.Detect

open Go

inductive State
  | started
  | updated
  | ended
  deriving DecidableEq, Repr

def State.text : State → String
  | started => "started"
  | updated => "updated"
  | ended => "ended"

/-- The vectors of `IsP1Vector`; the thresholds table admits no other text. -/
inductive Vector
  | udpFlood
  | icmpFlood
  deriving DecidableEq, Repr

def Vector.text : Vector → String
  | udpFlood => "udp_flood"
  | icmpFlood => "icmp_flood"

structure AttackEvent where
  incidentID : String
  state : State
  hostIP : Addr
  vector : Vector
  hostgroup : String
  pps : UInt64
  bps : UInt64
  peakPps : UInt64
  peakBps : UInt64
  confidence : Float
  startedAt : Time
  endedAt : Time
  now : Time

def sampleEvent (id : String) (state : State) : AttackEvent where
  incidentID := id
  state := state
  hostIP := .v4 0xc0000201
  vector := .udpFlood
  hostgroup := "corporate"
  pps := 7
  bps := 700
  peakPps := 7
  peakBps := 700
  confidence := 0
  startedAt := Time.ofUnix 100
  endedAt := if state = .ended then Time.ofUnix 100 else Time.zero
  now := Time.ofUnix 100

end Mitigador.Detect
