import Mitigador.Ingest.Producer

/-! IPv4 destinations that arrive in 16 bytes. A record whose message carries the IPv4-mapped form
differs from the record of the 4-byte form in the destination alone. -/

namespace Mitigador.Ingest

open Go Mitigador.Flow

def mappedHead : List UInt8 := [0, 0, 0, 0, 0, 0, 0, 0, 0, 0, 0xff, 0xff]

/-- The message with a 4-byte destination replaced by the 16 bytes of its IPv4-mapped form. -/
def Message.mapped (m : Message) : Message :=
  if m.dstAddr.length = 4 then { m with dstAddr := mappedHead ++ m.dstAddr } else m

example : (bytesToAddr (mappedHead ++ [192, 0, 2, 1])).map Addr.unmap =
    bytesToAddr [192, 0, 2, 1] := by decide +kernel

theorem expand_dstIP (exp : Exporter) (r : Record) (ip : Addr) :
    expand exp { r with dstIP := ip } = { expand exp r with dstIP := ip } := by
  by_cases override : exp.sampleRateOverride > 0
  · simp only [expand, if_pos override]
  · by_cases sampled : r.sampleRate > 1
    · simp only [expand, if_neg override, if_pos sampled]
    · simp only [expand, if_neg override, if_neg sampled]

structure Decoded where
  exp : Exporter
  received : Time
  now : Time
  m : Message

namespace Decoded

def record (d : Decoded) : Record :=
  expand d.exp (extractRecord d.m d.exp.sourceIP d.received d.now)

def mapped (d : Decoded) : Decoded := { d with m := d.m.mapped }

def Short (d : Decoded) : Prop := d.m.dstAddr.length = 4

instance (d : Decoded) : Decidable d.Short := inferInstanceAs (Decidable (_ = 4))

theorem mapped_of_long {d : Decoded} (long : ¬ d.Short) : d.mapped = d := by
  have kept : d.m.mapped = d.m := if_neg long
  rw [mapped, kept]

theorem mapped_of_short {d : Decoded} (short : d.Short) :
    d.mapped = { d with m := { d.m with dstAddr := mappedHead ++ d.m.dstAddr } } := by
  have replaced : d.m.mapped = { d.m with dstAddr := mappedHead ++ d.m.dstAddr } := if_pos short
  rw [mapped, replaced]

theorem record_dstAddr (d : Decoded) (b : List UInt8) :
    record { d with m := { d.m with dstAddr := b } } =
      { d.record with dstIP := (bytesToAddr b).getD .invalid } := by
  have made : extractRecord { d.m with dstAddr := b } d.exp.sourceIP d.received d.now =
      { extractRecord d.m d.exp.sourceIP d.received d.now with
        dstIP := (bytesToAddr b).getD .invalid } := rfl
  simp only [record, made, expand_dstIP]

theorem dstIP_record (d : Decoded) : d.record.dstIP = (bytesToAddr d.m.dstAddr).getD .invalid :=
  congrArg Record.dstIP (record_dstAddr d d.m.dstAddr)

theorem dstIP_of_short {d : Decoded} (short : d.Short) :
    d.record.dstIP = .v4 (bigEndian 32 d.m.dstAddr) := by
  have length : d.m.dstAddr.length = 4 := short
  rw [dstIP_record, bytesToAddr, if_pos length]
  rfl

theorem dstIP_mapped {d : Decoded} (short : d.Short) :
    d.mapped.record.dstIP = .v6 (bigEndian 128 (mappedHead ++ d.m.dstAddr)) "" := by
  have length : d.m.dstAddr.length = 4 := short
  have wide : (mappedHead ++ d.m.dstAddr).length = 16 := by
    rw [List.length_append, length]
    rfl
  rw [mapped_of_short short, record_dstAddr, bytesToAddr, if_neg (by rw [wide]; decide),
    if_pos wide]
  rfl

/-- The two forms are different keys of every map. -/
theorem dstIP_mapped_ne {d : Decoded} (short : d.Short) :
    d.mapped.record.dstIP ≠ d.record.dstIP := by
  rw [dstIP_mapped short, dstIP_of_short short]
  exact Addr.noConfusion

theorem record_mapped (d : Decoded) :
    d.mapped.record = { d.record with dstIP := d.mapped.record.dstIP } := by
  by_cases short : d.Short
  · rw [mapped_of_short short, record_dstAddr]
  · rw [mapped_of_long short]

end Decoded

section Offers

variable {Packet : Type} (pp : ProtoProducer Packet)

def messagesOf (msg : Msg Packet) (args : ProduceArgs) : List Message :=
  match msg with
  | .decoded m => [m]
  | .raw packet =>
      match pp.create with
      | none => []
      | some memory => ((pp.produce memory packet
          ⟨args.src, args.dst, args.samplerAddress, args.timeReceived⟩).2).getD []

theorem offers_known {inv : Inventory} {exp : Exporter} {args : ProduceArgs}
    (valid : args.samplerAddress.isValid = true)
    (known : inv.lookup args.samplerAddress = some exp) (msg : Msg Packet) (clock : Nat → Time) :
    offers pp inv msg (some args) clock = (messagesOf pp msg args).mapIdx fun index m =>
      (Decoded.mk exp args.timeReceived (clock index) m).record := by
  have listed : decode pp msg exp args clock =
      extractAll exp args clock (messagesOf pp msg args) := by
    cases msg with
    | decoded m => rfl
    | raw packet =>
        simp only [decode, messagesOf]
        cases pp.create with
        | none => rfl
        | some memory =>
            dsimp only
            split
            · next failed =>
                rw [failed]
                rfl
            · next msgs produced =>
                rw [produced]
                rfl
  simp only [offers, valid, if_true, known, listed]
  apply List.ext_getElem
  · simp [extractAll]
  · intro index _ _
    simp [extractAll, Decoded.record]

end Offers

end Mitigador.Ingest
