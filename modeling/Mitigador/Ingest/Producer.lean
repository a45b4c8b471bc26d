import Mitigador.Flow.Record
import Mitigador.Go.Chan
import Mitigador.Ingest.Health
import Mitigador.Lib.Run

/-! The adapter between goflow2 and the counters (internal/ingest/producer.go). The proto
producer of goflow2 is a parameter: a memory that `Produce` reads and leaves changed. -/

namespace Mitigador.Ingest

open Go Mitigador.Flow Lib

/-- A row of the exporters table, as far as decoding uses it. -/
structure Exporter where
  sourceIP : Addr
  sampleRateOverride : UInt32
  deriving DecidableEq, Repr

structure Inventory where
  byIP : KeyedMap Addr Exporter

def Inventory.lookup (i : Inventory) (ip : Addr) : Option Exporter :=
  i.byIP.lookup ip.unmap

/-- The fields of a `ProtoProducerMessage` that become part of a record. -/
structure Message where
  proto : UInt32
  bytes : UInt64
  packets : UInt64
  samplingRate : UInt64
  srcAddr : List UInt8
  dstAddr : List UInt8
  deriving DecidableEq, Repr

structure AddrPort where
  addr : Addr
  port : UInt16
  deriving DecidableEq, Repr

structure ProduceArgs where
  src : AddrPort
  dst : AddrPort
  samplerAddress : Addr
  timeReceived : Time
  deriving DecidableEq, Repr

/-- `create` compiles the empty configuration and builds a producer with its sampling systems;
`produce` answers no messages where it returns an error. -/
structure ProtoProducer (Packet : Type) where
  Memory : Type
  create : Option Memory
  produce : Memory → Packet → ProduceArgs → Memory × Option (List Message)

/-- The dynamic type of the message that the pipe hands over. -/
inductive Msg (Packet : Type)
  | decoded (m : Message)
  | raw (packet : Packet)
  deriving DecidableEq, Repr

def bigEndian (width : Nat) (b : List UInt8) : BitVec width :=
  b.foldl (fun bits byte => bits <<< 8 ||| byte.toBitVec.setWidth width) 0

/-- `bytesToAddr`; an address of any other length stays the zero address of the record. -/
def bytesToAddr (b : List UInt8) : Option Addr :=
  if b.length = 4 then some (.v4 (bigEndian 32 b))
  else if b.length = 16 then some (.v6 (bigEndian 128 b) "")
  else none

/-- `extractRecord`, with what the clock shows when it runs. -/
def extractRecord (m : Message) (exporterIP : Addr) (received now : Time) : Record where
  exporter := exporterIP
  dstIP := (bytesToAddr m.dstAddr).getD .invalid
  srcIP := (bytesToAddr m.srcAddr).getD .invalid
  proto := m.proto.toUInt8
  bytes := m.bytes
  packets := m.packets
  sampleRate := m.samplingRate.toUInt32
  received := if received = Time.zero then now else received

def expand (exp : Exporter) (r : Record) : Record :=
  if exp.sampleRateOverride > 0 then
    { r with
      sampleRate := exp.sampleRateOverride
      bytes := r.bytes * exp.sampleRateOverride.toUInt64
      packets := r.packets * exp.sampleRateOverride.toUInt64 }
  else if r.sampleRate > 1 then
    { r with
      bytes := r.bytes * r.sampleRate.toUInt64
      packets := r.packets * r.sampleRate.toUInt64 }
  else r

section Decode

variable {Packet : Type} (pp : ProtoProducer Packet)

/-- The messages of one packet as records; `clock` is read anew for each of them. -/
def extractAll (exp : Exporter) (args : ProduceArgs) (clock : Nat → Time)
    (msgs : List Message) : List Record :=
  msgs.mapIdx fun index m => extractRecord m exp.sourceIP args.timeReceived (clock index)

/-- `decode`: a raw packet goes through a proto producer that the call itself has created. -/
def decode (msg : Msg Packet) (exp : Exporter) (args : ProduceArgs) (clock : Nat → Time) :
    List Record :=
  match msg with
  | .decoded m => extractAll exp args clock [m]
  | .raw packet =>
      match pp.create with
      | none => []
      | some memory =>
          let protoArgs : ProduceArgs :=
            { src := args.src
              dst := args.dst
              samplerAddress := args.samplerAddress
              timeReceived := args.timeReceived }
          match (pp.produce memory packet protoArgs).2 with
          | none => []
          | some msgs => extractAll exp args clock msgs

structure ChannelProducer where
  inv : Inventory
  health : HealthTracker
  out : Chan Record
  drops : UInt64

def offers (inv : Inventory) (msg : Msg Packet) (args : Option ProduceArgs)
    (clock : Nat → Time) : List Record :=
  match args with
  | none => []
  | some args =>
      if args.samplerAddress.isValid then
        match inv.lookup args.samplerAddress with
        | none => []
        | some exp => (decode pp msg exp args clock).map (expand exp)
      else []

/-- The `select` of `Produce` for one record: a full channel drops it. -/
def ChannelProducer.offer (p : ChannelProducer) (sampler : Addr) (r : Record) :
    Option ChannelProducer :=
  match p.out.offer r with
  | none => none
  | some (out, true) =>
      match p.health.observe sampler r.received with
      | none => none
      | some health => some { p with out := out, health := health }
  | some (out, false) => some { p with out := out, drops := p.drops + 1 }

structure Pending where
  sampler : Addr
  records : List Record

structure Pipe where
  producer : ChannelProducer
  pending : Pending

structure Call (Packet : Type) where
  msg : Msg Packet
  args : Option ProduceArgs
  clock : Nat → Time

inductive Action (Packet : Type)
  | call (call : Call Packet)
  | offer
  | receive

/-- `offered` is the record that a step has put to the `select`. -/
inductive Output
  | called
  | offered (r : Record)
  | received (r : Option Record)
  deriving DecidableEq, Repr

def step (s : Pipe) : Action Packet → Option (Pipe × Output)
  | .call ⟨msg, args, clock⟩ =>
      match s.pending.records with
      | _ :: _ => none
      | [] =>
          let sampler := (args.map (·.samplerAddress)).getD .invalid
          some (⟨s.producer, ⟨sampler, offers pp s.producer.inv msg args clock⟩⟩, .called)
  | .offer =>
      match s.pending.records with
      | [] => none
      | r :: rest =>
          match s.producer.offer s.pending.sampler r with
          | none => none
          | some producer => some (⟨producer, ⟨s.pending.sampler, rest⟩⟩, .offered r)
  | .receive =>
      match s.producer.out.receive with
      | none => none
      | some (value, out) =>
          some ({ s with producer := { s.producer with out := out } }, .received value)

variable {pp}

theorem ChannelProducer.offer_inv {p next : ChannelProducer} {sampler : Addr} {r : Record}
    (offered : p.offer sampler r = some next) : next.inv = p.inv := by
  unfold ChannelProducer.offer at offered
  split at offered
  · contradiction
  · split at offered
    · contradiction
    · cases offered
      rfl
  · cases offered
    rfl

theorem step_call {s next : Pipe} {call : Call Packet} {output : Output}
    (moved : step pp s (.call call) = some (next, output)) :
    s.pending.records = [] ∧ next.producer = s.producer ∧
      next.pending.records = offers pp s.producer.inv call.msg call.args call.clock ∧
      output = .called := by
  simp only [step] at moved
  split at moved
  · contradiction
  · next empty =>
      cases moved
      exact ⟨empty, rfl, rfl, rfl⟩

theorem step_offer {s next : Pipe} {output : Output}
    (moved : step pp s .offer = some (next, output)) :
    ∃ r, s.pending.records = r :: next.pending.records ∧
      s.producer.offer s.pending.sampler r = some next.producer ∧ output = .offered r := by
  simp only [step] at moved
  split at moved
  · contradiction
  · next r rest held =>
      split at moved
      · contradiction
      · next producer offered =>
          cases moved
          exact ⟨r, held, offered, rfl⟩

theorem inventory_of_offers {inv : Inventory} {msg : Msg Packet} {args : Option ProduceArgs}
    {clock : Nat → Time} {r : Record} (offered : r ∈ offers pp inv msg args clock) :
    ∃ sampler exp, inv.lookup sampler = some exp ∧ r.exporter = exp.sourceIP := by
  cases args with
  | none => simp [offers] at offered
  | some args =>
      simp only [offers] at offered
      split at offered
      · split at offered
        · contradiction
        · next exp known =>
            obtain ⟨raw, decoded, rfl⟩ := List.mem_map.mp offered
            have extracted : ∃ msgs, raw ∈ extractAll exp args clock msgs := by
              unfold decode at decoded
              split at decoded
              · exact ⟨_, decoded⟩
              · split at decoded
                · contradiction
                · dsimp only at decoded
                  split at decoded
                  · contradiction
                  · exact ⟨_, decoded⟩
            obtain ⟨msgs, listed⟩ := extracted
            obtain ⟨index, below, rfl⟩ := List.mem_mapIdx.mp listed
            refine ⟨args.samplerAddress, exp, known, ?_⟩
            unfold expand
            split
            · rfl
            · split <;> rfl
      · contradiction

end Decode

end Mitigador.Ingest
