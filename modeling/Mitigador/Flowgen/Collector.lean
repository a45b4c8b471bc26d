import Mitigador.Flowgen.Netflow
import Mitigador.Lib.KeyedMap

/-! What a receiver of NetFlow v9 makes of the datagrams, by the layout that the generator
documents: a template tells how wide the fields of its data records are. -/

namespace Mitigador.Flowgen

open Lib

abbrev Template := List (Nat × Nat)

abbrev FlowRecord := List (Nat × Nat)

structure Header where
  version : Nat
  count : Nat
  uptime : Nat
  unixSecs : Nat
  sequence : Nat
  sourceID : Nat
  deriving DecidableEq, Repr

def readHeader (input : Packet) : Option (Header × Packet) := do
  let (version, input) ← BigEndian.read 2 input
  let (count, input) ← BigEndian.read 2 input
  let (uptime, input) ← BigEndian.read 4 input
  let (unixSecs, input) ← BigEndian.read 4 input
  let (sequence, input) ← BigEndian.read 4 input
  let (sourceID, input) ← BigEndian.read 4 input
  if version = 9 then some (⟨version, count, uptime, unixSecs, sequence, sourceID⟩, input)
  else none

/-- A FlowSet: its id, its payload, and what follows it. The length counts the four bytes of the id
and the length. -/
def readFlowSet (input : Packet) : Option ((Nat × Packet) × Packet) := do
  let (id, input) ← BigEndian.read 2 input
  let (length, input) ← BigEndian.read 2 input
  if 4 ≤ length ∧ length - 4 ≤ input.length then
    some ((id, input.take (length - 4)), input.drop (length - 4))
  else none

/-- The items that a reader finds one after the other, at most `fuel` of them, to the end of the
input. -/
def readAll {α : Type*} (reader : Packet → Option (α × Packet)) : Nat → Packet → Option (List α)
  | _, [] => some []
  | 0, _ :: _ => none
  | fuel + 1, input => do
      let (item, rest) ← reader input
      let items ← readAll reader fuel rest
      some (item :: items)

def readField (input : Packet) : Option ((Nat × Nat) × Packet) := do
  let (fieldType, input) ← BigEndian.read 2 input
  let (fieldLength, input) ← BigEndian.read 2 input
  some ((fieldType, fieldLength), input)

def readMany {α : Type*} (reader : Packet → Option (α × Packet)) :
    Nat → Packet → Option (List α × Packet)
  | 0, input => some ([], input)
  | n + 1, input => do
      let (item, input) ← reader input
      let (items, input) ← readMany reader n input
      some (item :: items, input)

def readTemplate (input : Packet) : Option ((Nat × Template) × Packet) := do
  let (id, input) ← BigEndian.read 2 input
  let (count, input) ← BigEndian.read 2 input
  let (fields, input) ← readMany readField count input
  some ((id, fields), input)

def readRecord : Template → Packet → Option (FlowRecord × Packet)
  | [], input => some ([], input)
  | (fieldType, fieldLength) :: fields, input => do
      let (value, input) ← BigEndian.read fieldLength input
      let (record, input) ← readRecord fields input
      some ((fieldType, value) :: record, input)

/-- The data records of a FlowSet; what is left when no more fits is padding. -/
def readRecords (template : Template) : Nat → Packet → List FlowRecord
  | 0, _ => []
  | fuel + 1, input =>
      match readRecord template input with
      | none => []
      | some (record, rest) => record :: readRecords template fuel rest

/-- The templates that a receiver knows, by the source and the id. -/
abbrev Collector := KeyedMap (Nat × Nat) Template

/-- The effect of one FlowSet; one without a known template is skipped. -/
def takeFlowSet (h : Header) (state : Collector × List (Nat × FlowRecord))
    (set : Nat × Packet) : Collector × List (Nat × FlowRecord) :=
  let (known, found) := state
  if set.1 = 0 then
    match readAll readTemplate set.2.length set.2 with
    | none => (known, found)
    | some templates =>
        (templates.foldl (fun known t => known.insert (h.sourceID, t.1) t.2) known, found)
  else
    match known.lookup (h.sourceID, set.1) with
    | none => (known, found)
    | some template =>
        (known, found ++
          (readRecords template set.2.length set.2).map fun record => (h.sequence, record))

/-- One datagram: what the receiver knows after it, and the records in it with the sequence number
of the datagram. -/
def receive (known : Collector) (input : Packet) : Collector × List (Nat × FlowRecord) :=
  match readHeader input with
  | none => (known, [])
  | some (h, rest) =>
      match readAll readFlowSet rest.length rest with
      | none => (known, [])
      | some sets => sets.foldl (takeFlowSet h) (known, [])

def collect : Collector → List Packet → List (Nat × FlowRecord)
  | _, [] => []
  | known, input :: rest =>
      let (later, found) := receive known input
      found ++ collect later rest

theorem read_u16 (v : UInt16) (rest : Packet) :
    BigEndian.read 2 (BigEndian.bytes 2 v.toNat ++ rest) = some (v.toNat, rest) :=
  BigEndian.read_bytes v.toNat_lt rest

theorem read_u32 (v : UInt32) (rest : Packet) :
    BigEndian.read 4 (BigEndian.bytes 4 v.toNat ++ rest) = some (v.toNat, rest) :=
  BigEndian.read_bytes v.toNat_lt rest

theorem readRecord_bytes (fields : List (Nat × Nat × Nat))
    (fits : ∀ f ∈ fields, f.2.2 < 256 ^ f.2.1) (rest : Packet) :
    readRecord (fields.map fun f => (f.1, f.2.1))
        ((fields.flatMap fun f => BigEndian.bytes f.2.1 f.2.2) ++ rest) =
      some (fields.map fun f => (f.1, f.2.2), rest) := by
  induction fields with
  | nil => rfl
  | cons f fields ih =>
      rw [List.forall_mem_cons] at fits
      simp only [List.map_cons, List.flatMap_cons, List.append_assoc, readRecord,
        BigEndian.read_bytes fits.1, Option.bind_eq_bind, Option.bind_some, ih fits.2]

theorem readHeader_header (seq : UInt32) (rest : Packet) :
    readHeader (header seq ++ rest) = some (⟨9, 1, 0, 0, seq.toNat, 0⟩, rest) := by
  simp only [header, appendU16, appendU32, List.nil_append, List.append_assoc, readHeader,
    read_u16, read_u32, Option.bind_eq_bind, Option.bind_some]
  rfl

theorem receive_of {input rest : Packet} {h : Header} {sets : List (Nat × Packet)}
    {known : Collector} (parsed : readHeader input = some (h, rest))
    (split : readAll readFlowSet rest.length rest = some sets) :
    receive known input = sets.foldl (takeFlowSet h) (known, []) := by
  rw [receive, parsed]
  simp only [split]

def generated : Template := templateFields.map fun f => (f.fieldType.toNat, f.fieldLength.toNat)

def flow (src dst : BitVec 32) (proto : UInt8) (pkts bytes : UInt64) : FlowRecord :=
  [(8, src.toNat), (12, dst.toNat), (4, proto.toNat), (1, bytes.toNat), (2, pkts.toNat)]

theorem receive_buildTemplate (known : Collector) :
    receive known buildTemplate = (known.insert (0, 256) generated, []) := by
  have parsed : readHeader buildTemplate =
      some (⟨9, 1, 0, 0, 0, 0⟩, buildTemplate.drop 20) := by
    decide
  have sets : readAll readFlowSet (buildTemplate.drop 20).length (buildTemplate.drop 20) =
      some [(0, buildTemplate.drop 24)] := by
    decide
  have templates : readAll readTemplate (buildTemplate.drop 24).length (buildTemplate.drop 24) =
      some [(256, generated)] := by
    decide
  rw [receive_of parsed sets]
  simp only [List.foldl_cons, List.foldl_nil, takeFlowSet, templates, if_true]

def written (src dst : BitVec 32) (proto : UInt8) (pkts bytes : UInt64) : List (Nat × Nat × Nat) :=
  [(8, 4, src.toNat), (12, 4, dst.toNat), (4, 1, proto.toNat), (1, 8, bytes.toNat),
    (2, 8, pkts.toNat)]

theorem readRecord_written (src dst : BitVec 32) (proto : UInt8) (pkts bytes : UInt64) :
    readRecord generated
        ((written src dst proto pkts bytes).flatMap fun f => BigEndian.bytes f.2.1 f.2.2) =
      some (flow src dst proto pkts bytes, []) := by
  have fits : ∀ f ∈ written src dst proto pkts bytes, f.2.2 < 256 ^ f.2.1 := by
    simp only [written, List.forall_mem_cons]
    exact ⟨src.isLt, dst.isLt, proto.toNat_lt, bytes.toNat_lt, pkts.toNat_lt, nofun⟩
  have read := readRecord_bytes (written src dst proto pkts bytes) fits []
  rw [List.append_nil] at read
  exact read

theorem buildDataRecord_eq (seq : UInt32) (src dst : BitVec 32) (proto : UInt8)
    (pkts bytes : UInt64) :
    buildDataRecord seq src dst proto pkts bytes =
      header seq ++ (BigEndian.bytes 2 (256 : UInt16).toNat ++
        (BigEndian.bytes 2 (29 : UInt16).toNat ++
          (written src dst proto pkts bytes).flatMap fun f => BigEndian.bytes f.2.1 f.2.2)) := by
  have one : [proto] = BigEndian.bytes 1 proto.toNat := by
    simp [BigEndian.bytes]
  simp only [buildDataRecord, appendU16, appendU64, as4, one, List.append_assoc, written,
    List.flatMap_cons, List.flatMap_nil, List.append_nil]
  rfl

theorem readAll_single {α : Type*} {reader : Packet → Option (α × Packet)} {input : Packet}
    {item : α} (nonempty : input ≠ []) (read : reader input = some (item, [])) :
    readAll reader input.length input = some [item] := by
  cases input with
  | nil => contradiction
  | cons first input =>
      simp only [List.length_cons, readAll, read, Option.bind_eq_bind, Option.bind_some]

theorem readFlowSet_written (id length : UInt16) {payload : Packet}
    (sized : length.toNat = payload.length + 4) :
    readFlowSet (BigEndian.bytes 2 id.toNat ++ (BigEndian.bytes 2 length.toNat ++ payload)) =
      some ((id.toNat, payload), []) := by
  have whole : length.toNat - 4 = payload.length := by omega
  simp only [readFlowSet, read_u16, Option.bind_eq_bind, Option.bind_some]
  rw [if_pos (by omega), whole, List.take_length, List.drop_length]

section

variable (known : Collector) (seq : UInt32) (src dst : BitVec 32) (proto : UInt8)
  (pkts bytes : UInt64)

theorem receive_buildDataRecord :
    receive known (buildDataRecord seq src dst proto pkts bytes) =
      takeFlowSet ⟨9, 1, 0, 0, seq.toNat, 0⟩ (known, [])
        (256, (written src dst proto pkts bytes).flatMap fun f => BigEndian.bytes f.2.1 f.2.2) := by
  have sized : (29 : UInt16).toNat =
      ((written src dst proto pkts bytes).flatMap fun f =>
        BigEndian.bytes f.2.1 f.2.2).length + 4 := by
    simp [written]
  have set := readFlowSet_written 256 29 sized
  have single := readAll_single
    (List.append_ne_nil_of_left_ne_nil (List.cons_ne_nil _ _) _) set
  rw [buildDataRecord_eq]
  exact receive_of (readHeader_header seq _) single

theorem receive_known (template : known.lookup (0, 256) = some generated) :
    receive known (buildDataRecord seq src dst proto pkts bytes) =
      (known, [(seq.toNat, flow src dst proto pkts bytes)]) := by
  have size : ((written src dst proto pkts bytes).flatMap
      fun f => BigEndian.bytes f.2.1 f.2.2).length = 24 + 1 := by
    simp [written]
  have none : readRecord generated [] = none := by decide
  rw [receive_buildDataRecord]
  simp only [takeFlowSet, template, size, readRecords, readRecord_written, none]
  rfl

theorem receive_unknown (missing : known.lookup (0, 256) = none) :
    receive known (buildDataRecord seq src dst proto pkts bytes) = (known, []) := by
  rw [receive_buildDataRecord]
  simp only [takeFlowSet, missing]
  rfl

theorem getElem?_runWithConn (src dst : BitVec 32) (proto : UInt8)
    (pps bytesPerPkt ticks i : Nat) :
    (runWithConn src dst proto pps bytesPerPkt ticks)[i]? =
      if i = 0 then some buildTemplate
      else if i ≤ ticks then
        some (buildDataRecord (UInt32.ofNat i) src dst proto (UInt64.ofNat pps)
          (UInt64.ofNat pps * UInt64.ofNat bytesPerPkt))
      else none := by
  cases i with
  | zero => rfl
  | succ i =>
      have next : 1 + UInt32.ofNat i = UInt32.ofNat (i + 1) := by
        rw [UInt32.ofNat_add, UInt32.add_comm]
        rfl
      rw [runWithConn, List.getElem?_cons_succ, getElem?_ticking, if_neg (Nat.succ_ne_zero i), next]
      rfl

def arrived (sent : List Packet) (delivered : List Nat) : List Packet :=
  delivered.filterMap fun i => sent[i]?

def reported (src dst : BitVec 32) (proto : UInt8) (pps bytesPerPkt i : Nat) :
    Nat × FlowRecord :=
  (i % 2 ^ 32, [(8, src.toNat), (12, dst.toNat), (4, proto.toNat),
    (1, pps * bytesPerPkt % 2 ^ 64), (2, pps % 2 ^ 64)])

theorem reported_eq (src dst : BitVec 32) (proto : UInt8) (pps bytesPerPkt i : Nat) :
    ((UInt32.ofNat i).toNat, flow src dst proto (UInt64.ofNat pps)
        (UInt64.ofNat pps * UInt64.ofNat bytesPerPkt)) =
      reported src dst proto pps bytesPerPkt i := by
  have octets : (UInt64.ofNat pps * UInt64.ofNat bytesPerPkt).toNat =
      pps * bytesPerPkt % 2 ^ 64 := by
    rw [UInt64.toNat_mul, UInt64.toNat_ofNat', UInt64.toNat_ofNat', ← Nat.mul_mod]
  rw [flow, octets, UInt64.toNat_ofNat', UInt32.toNat_ofNat']
  rfl

variable (pps bytesPerPkt ticks : Nat) (delivered : List Nat)

theorem collect_known (template : known.lookup (0, 256) = some generated) :
    collect known (arrived (runWithConn src dst proto pps bytesPerPkt ticks) delivered) =
      (delivered.filter fun i => i ≠ 0 ∧ i ≤ ticks).map
        (reported src dst proto pps bytesPerPkt) := by
  induction delivered generalizing known with
  | nil => rfl
  | cons i rest ih =>
      by_cases first : i = 0
      · subst first
        have again := ih (known.insert (0, 256) generated) (AList.lookup_insert known)
        rw [arrived, List.filterMap_cons, getElem?_runWithConn, if_pos rfl,
          List.filter_cons_of_neg (by simp)]
        simp only [collect, receive_buildTemplate, List.nil_append]
        exact again
      · by_cases sent : i ≤ ticks
        · rw [arrived, List.filterMap_cons, getElem?_runWithConn, if_neg first, if_pos sent,
            List.filter_cons_of_pos (by simp [first, sent]), List.map_cons, ← ih known template,
            ← reported_eq]
          simp only [collect, receive_known known _ src dst proto _ _ template]
          rfl
        · rw [arrived, List.filterMap_cons, getElem?_runWithConn, if_neg first, if_neg sent,
            List.filter_cons_of_neg (by simp [sent])]
          exact ih known template

end

/-- The network may lose, repeat and reorder what flowgen sends: from the first template on, every
data record that arrives reads as the flow it was built from. -/
theorem collect_runWithConn (src dst : BitVec 32) (proto : UInt8)
    (pps bytesPerPkt ticks : Nat) (delivered : List Nat) :
    collect ∅ (arrived (runWithConn src dst proto pps bytesPerPkt ticks) delivered) =
      ((delivered.dropWhile (· ≠ 0)).filter fun i => i ≠ 0 ∧ i ≤ ticks).map
        (reported src dst proto pps bytesPerPkt) := by
  induction delivered with
  | nil => rfl
  | cons i rest ih =>
      by_cases first : i = 0
      · subst first
        have later := collect_known (AList.insert (0, 256) generated ∅) src dst proto pps
          bytesPerPkt ticks rest (AList.lookup_insert _)
        rw [arrived, List.filterMap_cons, getElem?_runWithConn, if_pos rfl,
          List.dropWhile_cons_of_neg (by simp), List.filter_cons_of_neg (by simp)]
        simp only [collect, receive_buildTemplate, List.nil_append]
        exact later
      · rw [List.dropWhile_cons_of_pos (by simpa using first), ← ih, arrived,
          List.filterMap_cons, getElem?_runWithConn, if_neg first]
        by_cases sent : i ≤ ticks
        · rw [if_pos sent]
          simp only [collect, receive_unknown ∅ _ src dst proto _ _ rfl, List.nil_append]
          rfl
        · rw [if_neg sent]
          rfl

end Mitigador.Flowgen
