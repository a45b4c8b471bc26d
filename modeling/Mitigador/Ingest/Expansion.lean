import Mitigador.Ingest.Exporters
import Mitigador.Ingest.Mapped

/-! The sampling rate on its two ways into a record: from the exporters table through `uint32`, and
from the message through `uint32` as well, each before it is compared with anything. -/

namespace Mitigador.Ingest

open Go Mitigador.Flow Lib

def namedRate (row : ExporterRow) (m : Message) : Nat :=
  if 0 < row.sampleOverride then row.sampleOverride.toNat
  else if 1 < m.samplingRate.toNat then m.samplingRate.toNat else 1

/-- The record carries the counts of the message times the named rate, wherever these fit. -/
def Expands (row : ExporterRow) (m : Message) (r : Record) : Prop :=
  m.bytes.toNat * namedRate row m < 2 ^ 64 → m.packets.toNat * namedRate row m < 2 ^ 64 →
    r.bytes.toNat = m.bytes.toNat * namedRate row m ∧
    r.packets.toNat = m.packets.toNat * namedRate row m ∧
    (r.sampleRate.toNat = namedRate row m ∨ namedRate row m = 1 ∧ r.sampleRate.toNat = 0)

/-- The rate survives its conversion: the override is positive; or it is zero and the announced
rate has 32 bits; or it is negative and wraps to the announced rate. -/
def RateFits (row : ExporterRow) (m : Message) : Prop :=
  0 < row.sampleOverride ∨ row.sampleOverride = 0 ∧ m.samplingRate.toNat < 2 ^ 32 ∨
    row.sampleOverride < 0 ∧ (m.samplingRate.toNat : Int) = 2 ^ 32 + row.sampleOverride

theorem toNat_mul_rate {count : UInt64} {rate : UInt32} (fits : count.toNat * rate.toNat < 2 ^ 64) :
    (count * rate.toUInt64).toNat = count.toNat * rate.toNat := by
  rw [UInt64.toNat_mul, UInt32.toNat_toUInt64, Nat.mod_eq_of_lt fits]

theorem toNat_override (row : ExporterRow) (addr : Addr) :
    ((row.exporter addr).sampleRateOverride.toNat : Int) =
      if row.sampleOverride < 0 then 2 ^ 32 + row.sampleOverride else row.sampleOverride := by
  obtain ⟨low, high⟩ := row.integer
  rw [ExporterRow.exporter, UInt32.ofInt, UInt32.toNat_ofNat']
  split <;> omega

section Record

variable (row : ExporterRow) (addr : Addr) (received now : Time) (m : Message)

def ExporterRow.record : Record := (Decoded.mk (row.exporter addr) received now m).record

variable {row m}

theorem record_override (override : row.sampleOverride ≠ 0) :
    let r := row.record addr received now m
    r.sampleRate = (row.exporter addr).sampleRateOverride ∧
      r.bytes = m.bytes * (row.exporter addr).sampleRateOverride.toUInt64 ∧
      r.packets = m.packets * (row.exporter addr).sampleRateOverride.toUInt64 := by
  have value := toNat_override row addr
  obtain ⟨low, high⟩ := row.integer
  have positive : (row.exporter addr).sampleRateOverride > 0 := by
    have zero : (0 : UInt32).toNat = 0 := rfl
    rw [gt_iff_lt, UInt32.lt_iff_toNat_lt]
    split at value <;> omega
  simp only [ExporterRow.record, Decoded.record, expand, if_pos positive, extractRecord, and_self]

theorem record_announced (override : row.sampleOverride = 0) :
    let r := row.record addr received now m
    let rate := m.samplingRate.toUInt32
    r.sampleRate = rate ∧
      r.bytes = (if rate > 1 then m.bytes * rate.toUInt64 else m.bytes) ∧
      r.packets = if rate > 1 then m.packets * rate.toUInt64 else m.packets := by
  have none : ¬ (row.exporter addr).sampleRateOverride > 0 := by
    have zero : (0 : UInt32).toNat = 0 := rfl
    have value := toNat_override row addr
    rw [gt_iff_lt, UInt32.lt_iff_toNat_lt]
    split at value <;> omega
  intro r rate
  by_cases sampled : rate > 1
  · simp only [r, ExporterRow.record, Decoded.record, expand, if_neg none, extractRecord]
    rw [if_pos sampled, if_pos sampled, if_pos sampled]
    exact ⟨rfl, rfl, rfl⟩
  · simp only [r, ExporterRow.record, Decoded.record, expand, if_neg none, extractRecord]
    rw [if_neg sampled, if_neg sampled, if_neg sampled]
    exact ⟨rfl, rfl, rfl⟩

theorem expands_of_override {rate : UInt32} {r : Record} (named : namedRate row m = rate.toNat)
    (sampleRate : r.sampleRate = rate) (bytes : r.bytes = m.bytes * rate.toUInt64)
    (packets : r.packets = m.packets * rate.toUInt64) : Expands row m r := by
  intro bytesFit packetsFit
  rw [named] at bytesFit packetsFit ⊢
  rw [sampleRate, bytes, packets, toNat_mul_rate bytesFit, toNat_mul_rate packetsFit]
  exact ⟨rfl, rfl, .inl rfl⟩

theorem expands_of_fits (fits : RateFits row m) :
    Expands row m (row.record addr received now m) := by
  have value := toNat_override row addr
  rcases fits with positive | ⟨none, small⟩ | ⟨negative, wraps⟩
  · obtain ⟨sampleRate, bytes, packets⟩ :=
      record_override addr received now (m := m) (by omega : row.sampleOverride ≠ 0)
    rw [if_neg (by omega)] at value
    refine expands_of_override ?_ sampleRate bytes packets
    rw [namedRate, if_pos positive]
    omega
  · obtain ⟨sampleRate, bytes, packets⟩ := record_announced addr received now (m := m) none
    have same : m.samplingRate.toUInt32.toNat = m.samplingRate.toNat := by
      rw [UInt64.toNat_toUInt32, Nat.mod_eq_of_lt small]
    have one : (1 : UInt32).toNat = 1 := rfl
    by_cases sampled : 1 < m.samplingRate.toNat
    · have above : m.samplingRate.toUInt32 > 1 := by
        rw [gt_iff_lt, UInt32.lt_iff_toNat_lt]
        omega
      rw [if_pos above] at bytes packets
      refine expands_of_override ?_ sampleRate bytes packets
      rw [namedRate, if_neg (by omega), if_pos sampled, same]
    · have below : ¬ m.samplingRate.toUInt32 > 1 := by
        rw [gt_iff_lt, UInt32.lt_iff_toNat_lt]
        omega
      rw [if_neg below] at bytes packets
      have named : namedRate row m = 1 := by
        rw [namedRate, if_neg (by omega), if_neg sampled]
      intro _ _
      rw [named, bytes, packets, sampleRate, same]
      omega
  · obtain ⟨sampleRate, bytes, packets⟩ :=
      record_override addr received now (m := m) (by omega : row.sampleOverride ≠ 0)
    obtain ⟨low, high⟩ := row.integer
    rw [if_pos negative] at value
    refine expands_of_override ?_ sampleRate bytes packets
    rw [namedRate, if_neg (by omega), if_pos (by omega)]
    omega

theorem fits_of_expands (expands : Expands row m (row.record addr received now m))
    (bytesFit : m.bytes.toNat * namedRate row m < 2 ^ 64)
    (packetsFit : m.packets.toNat * namedRate row m < 2 ^ 64) : RateFits row m := by
  obtain ⟨-, -, carried⟩ := expands bytesFit packetsFit
  obtain ⟨low, high⟩ := row.integer
  have value := toNat_override row addr
  rcases lt_trichotomy row.sampleOverride 0 with negative | none | positive
  · obtain ⟨sampleRate, -, -⟩ := record_override addr received now (m := m) negative.ne
    rw [if_pos negative] at value
    rw [sampleRate, namedRate, if_neg (by omega)] at carried
    refine .inr (.inr ⟨negative, ?_⟩)
    split at carried <;> omega
  · obtain ⟨sampleRate, -, -⟩ := record_announced addr received now (m := m) none
    rw [sampleRate, namedRate, if_neg (by omega), UInt64.toNat_toUInt32] at carried
    refine .inr (.inl ⟨none, ?_⟩)
    split at carried <;> omega
  · exact .inl positive

end Record

/-- What `Produce` emits for a packet of a known exporter: the record of each of its messages, which
carries the counts times the named rate exactly where that rate survives its conversion, or where
the claimed products do not fit. -/
theorem emits_expanded_iff {Packet : Type} (pp : ProtoProducer Packet)
    (parseAddr : String → Option Addr) (i : Inventory) (rows : List ExporterRow)
    (msg : Msg Packet) (args : ProduceArgs) (clock : Nat → Time) {exp : Exporter}
    (valid : args.samplerAddress.isValid = true)
    (known : (i.reload parseAddr (.ok rows)).1.lookup args.samplerAddress = some exp) :
    ∃ row ∈ rows, row.address parseAddr = some args.samplerAddress.unmap ∧
      offers pp (i.reload parseAddr (.ok rows)).1 msg (some args) clock =
        (messagesOf pp msg args).mapIdx (fun index m =>
          row.record args.samplerAddress.unmap args.timeReceived (clock index) m) ∧
      ∀ (index : Nat) (m : Message),
        Expands row m (row.record args.samplerAddress.unmap args.timeReceived (clock index) m) ↔
          (m.bytes.toNat * namedRate row m < 2 ^ 64 → m.packets.toNat * namedRate row m < 2 ^ 64 →
            RateFits row m) := by
  obtain ⟨row, member, address, rfl⟩ := Inventory.lookup_reload known
  refine ⟨row, member, address, offers_known pp valid known msg clock, fun index m => ?_⟩
  constructor
  · exact fits_of_expands _ _ _
  · intro fits bytesFit packetsFit
    exact expands_of_fits _ _ _ (fits bytesFit packetsFit) bytesFit packetsFit

def announcing (samplingRate : UInt64) : Message := ⟨17, 100, 1, samplingRate, [], []⟩

def samplerArgs : ProduceArgs where
  src := ⟨.v4 0x0a000002, 40000⟩
  dst := ⟨.v4 0x0a000001, 2055⟩
  samplerAddress := .v4 0x0a000002
  timeReceived := Time.ofUnix 100

def decodedProducer : ProtoProducer Empty := ⟨Unit, some (), fun _ packet _ => packet.elim⟩

theorem emits_expanded_iff_sample : ∃ row : ExporterRow, row.sampleOverride = 1000 ∧
    offers decodedProducer ((Inventory.mk ∅).reload parseSample (.ok [plainRow 1000 (by decide)])).1
        (.decoded (announcing 7)) (some samplerArgs) (fun _ => Time.zero) =
      [row.record (.v4 0x0a000002) (Time.ofUnix 100) Time.zero (announcing 7)] ∧
    Expands row (announcing 7)
      (row.record (.v4 0x0a000002) (Time.ofUnix 100) Time.zero (announcing 7)) := by
  have known : ((Inventory.mk ∅).reload parseSample
      (.ok [plainRow 1000 (by decide)])).1.lookup samplerArgs.samplerAddress =
        some ⟨.v4 0x0a000002, 1000⟩ := by
    decide +kernel
  obtain ⟨row, member, -, offered, expands⟩ := emits_expanded_iff decodedProducer parseSample
    (Inventory.mk ∅) [plainRow 1000 (by decide)] (.decoded (announcing 7)) samplerArgs
    (fun _ => Time.zero) (by decide) known
  obtain rfl := List.mem_singleton.mp member
  exact ⟨_, rfl, offered, (expands 0 (announcing 7)).mpr fun _ _ => .inl (by decide)⟩

/-- A rate announced in more than 32 bits is lost, and an override of -1 multiplies by 2^32 - 1. -/
theorem rate_wraps :
    ¬ Expands sampleRow (announcing 4294967296) (sampleRow.record
        (.v4 0x0a000002) (Time.ofUnix 100) Time.zero (announcing 4294967296)) ∧
      ¬ Expands (plainRow (-1) (by decide)) (announcing 1) ((plainRow (-1) (by decide)).record
        (.v4 0x0a000002) (Time.ofUnix 100) Time.zero (announcing 1)) := by
  constructor
  · intro expands
    exact absurd (expands (by decide) (by decide)) (by decide)
  · intro expands
    exact absurd (expands (by decide) (by decide)) (by decide)

end Mitigador.Ingest
