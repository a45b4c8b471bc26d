import Mathlib.Logic.Function.Basic
import Mitigador.Ingest.Producer

/-! The message objects behind `decode`. goflow2 keeps them in one pool for the whole process:
`Produce` resets and fills an object it takes from there, `Commit` puts its objects back, and
`decode` reads them afterwards. -/

namespace Mitigador.Ingest

open Go Mitigador.Flow Lib

namespace Message

def zero : Message := ⟨0, 0, 0, 0, [], []⟩

inductive Field
  | proto
  | bytes
  | packets
  | samplingRate
  | srcAddr
  | dstAddr
  deriving DecidableEq, Repr

def fields : List Field := [.proto, .bytes, .packets, .samplingRate, .srcAddr, .dstAddr]

def Field.copy (f : Field) (source target : Message) : Message :=
  match f with
  | proto => { target with proto := source.proto }
  | bytes => { target with bytes := source.bytes }
  | packets => { target with packets := source.packets }
  | samplingRate => { target with samplingRate := source.samplingRate }
  | srcAddr => { target with srcAddr := source.srcAddr }
  | dstAddr => { target with dstAddr := source.dstAddr }

def fill (source : Message) : List Field → Message → Message
  | [], target => target
  | f :: left, target => fill source left (f.copy source target)

theorem fill_fields (source target : Message) : fill source fields target = source := rfl

end Message

structure DecodeCall (Packet : Type) where
  packet : Packet
  exp : Exporter
  args : ProduceArgs
  clock : Nat → Time

/-- Where a call stands; an object is known by a number. `todo` and `m` are what the packet
produces, `left` are the objects or fields of the step under way. -/
inductive DecodePhase
  | filling (msgs : List Nat) (todo : List Message)
  | writing (msgs : List Nat) (o : Nat) (m : Message) (left : List Message.Field)
      (todo : List Message)
  | committing (msgs left : List Nat)
  | reading (records : List Record) (msgs : List Nat)
  | copying (records : List Record) (o : Nat) (copy : Message) (left : List Message.Field)
      (msgs : List Nat)

structure Job (Packet : Type) where
  call : DecodeCall Packet
  phase : DecodePhase

structure MessagePool (Packet : Type) where
  objects : Nat → Message
  free : List Nat
  next : Nat
  jobs : KeyedMap Nat (Job Packet)

/-- A call begins; `Produce` takes an object, a new one where the pool gives none; a call does its
next step; the garbage collector takes an object out of the pool. -/
inductive PoolAction (Packet : Type)
  | begin (n : Nat) (call : DecodeCall Packet) (scratch : List Message)
  | take (n : Nat) (o : Option Nat)
  | advance (n : Nat)
  | collect (o : Nat)

abbrev Returned (Packet : Type) := Option (DecodeCall Packet × List Record)

variable {Packet : Type} (pp : ProtoProducer Packet)

def produced (call : DecodeCall Packet) : Option (List Message) :=
  pp.create.bind fun memory => (pp.produce memory call.packet call.args).2

namespace MessagePool

def empty : MessagePool Packet := ⟨fun _ => Message.zero, [], 0, ∅⟩

def set (s : MessagePool Packet) (n : Nat) (call : DecodeCall Packet) (phase : DecodePhase) :
    MessagePool Packet :=
  { s with jobs := s.jobs.insert n ⟨call, phase⟩ }

def take (s : MessagePool Packet) (n : Nat) (o : Option Nat) (job : Job Packet) :
    Option (MessagePool Packet) :=
  match job.phase, o with
  | .filling msgs (m :: todo), none =>
      some ({ s with
        objects := Function.update s.objects s.next Message.zero
        next := s.next + 1 }.set n job.call (.writing msgs s.next m Message.fields todo))
  | .filling msgs (m :: todo), some o =>
      if o ∈ s.free then
        some ({ s with
          objects := Function.update s.objects o Message.zero
          free := s.free.erase o }.set n job.call (.writing msgs o m Message.fields todo))
      else none
  | _, _ => none

def advance (s : MessagePool Packet) (n : Nat) (job : Job Packet) :
    Option (MessagePool Packet × Returned Packet) :=
  let returned (records : List Record) : MessagePool Packet × Returned Packet :=
    ({ s with jobs := s.jobs.erase n }, some (job.call, records))
  match job.phase with
  | .filling _ (_ :: _) => none
  | .filling msgs [] =>
      match produced pp job.call with
      | none => some (returned [])
      | some _ => some (s.set n job.call (.committing msgs msgs), none)
  | .writing msgs o m (f :: left) todo =>
      some ({ s with
        objects := Function.update s.objects o (f.copy m (s.objects o)) }.set n job.call
          (.writing msgs o m left todo), none)
  | .writing msgs o _ [] todo => some (s.set n job.call (.filling (msgs ++ [o]) todo), none)
  | .committing msgs (o :: left) =>
      some ({ s with free := o :: s.free }.set n job.call (.committing msgs left), none)
  | .committing msgs [] => some (s.set n job.call (.reading [] msgs), none)
  | .reading records (o :: msgs) =>
      some (s.set n job.call (.copying records o Message.zero Message.fields msgs), none)
  | .copying records o copy (f :: left) msgs =>
      some (s.set n job.call (.copying records o (f.copy (s.objects o) copy) left msgs), none)
  | .copying records _ copy [] msgs =>
      let r := extractRecord copy job.call.exp.sourceIP job.call.args.timeReceived
        (job.call.clock records.length)
      some (s.set n job.call (.reading (records ++ [r]) msgs), none)
  | .reading records [] => some (returned records)

/-- A producer that reports an error may have filled some objects, here those of `scratch`. -/
def step (s : MessagePool Packet) :
    PoolAction Packet → Option (MessagePool Packet × Returned Packet)
  | .begin n call scratch =>
      if n ∈ s.jobs then none
      else some (s.set n call (.filling [] ((produced pp call).getD scratch)), none)
  | .take n o =>
      (s.jobs.lookup n).bind fun job => (s.take n o job).map fun next => (next, none)
  | .advance n => (s.jobs.lookup n).bind fun job => s.advance pp n job
  | .collect o => if o ∈ s.free then some ({ s with free := s.free.erase o }, none) else none

end MessagePool

end Mitigador.Ingest
