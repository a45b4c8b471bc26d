import Mitigador.Ingest.Expansion
import Mitigador.Ingest.HealthRows

/-! Where the records of `Produce` end up, with a reader that may wait at the channel. -/

namespace Mitigador.Ingest

open Go Mitigador.Flow Lib

/-- The `select` of `Produce` for one record, with a reader that waits or does not. -/
def ChannelProducer.select (p : ChannelProducer) (waiting : Bool) (sampler : Addr) (r : Record) :
    Option (ChannelProducer × Chan.Attempt) :=
  match p.out.attempt waiting r with
  | none => none
  | some (out, .full) => some ({ p with out := out, drops := p.drops + 1 }, .full)
  | some (out, fate) =>
      match p.health.observe sampler r.received with
      | none => none
      | some health => some ({ p with out := out, health := health }, fate)

/-- With no reader at the channel this is `offer`. -/
theorem ChannelProducer.select_unattended (p : ChannelProducer) (sampler : Addr) (r : Record) :
    (p.select false sampler r).map Prod.fst = p.offer sampler r := by
  unfold select offer Chan.attempt
  by_cases closed : p.out.closed = true
  · have panics : p.out.offer r = none := by simp [Chan.offer, closed]
    rw [if_pos closed, panics]
    rfl
  · rw [if_neg closed, if_neg Bool.false_ne_true]
    rcases p.out.offer r with _ | ⟨out, _ | _⟩
    · rfl
    · rfl
    · dsimp only
      cases p.health.observe sampler r.received <;> rfl

/-- Where there is a buffer, the reader that waits gets what it would have found in it. -/
theorem ChannelProducer.select_waiting {p : ChannelProducer} (opened : p.out.closed = false)
    (empty : p.out.buffer = []) (buffered : 0 < p.out.capacity) (sampler : Addr) (r : Record) :
    p.select true sampler r = (p.offer sampler r).bind fun next =>
      next.out.receive.map fun (_, out) => ({ next with out := out }, .handed) := by
  obtain ⟨inv, health, ⟨capacity, buffer, closed, bounded⟩, drops⟩ := p
  obtain rfl : closed = false := opened
  obtain rfl : buffer = [] := empty
  have room : ([] : List Record).length < capacity := buffered
  simp only [select, offer, Chan.attempt, Chan.offer, if_true, dif_pos room, Bool.false_eq_true,
    if_false]
  cases health.observe sampler r.received with
  | none => rfl
  | some observed => rfl

structure Served where
  pipe : Pipe
  waiting : Bool

def Served.start (inv : Inventory) (capacity : Nat) : Served :=
  ⟨⟨⟨inv, HealthTracker.new, Chan.make capacity, 0⟩, ⟨.invalid, []⟩⟩, false⟩

inductive Outcome
  | called (records : List Record)
  | selected (sampler : Addr) (r : Record) (fate : Chan.Attempt)
  | received (r : Option Record)
  | waits

variable {Packet : Type} (pp : ProtoProducer Packet)

/-- A call, a `select` of the call in progress, or the reader; a step is `none` where its turn has
not come, or where the health tracker panics. -/
def serve (s : Served) : Action Packet → Option (Served × Outcome)
  | .call ⟨msg, args, clock⟩ =>
      match s.pipe.pending.records with
      | _ :: _ => none
      | [] =>
          let sampler := (args.map (·.samplerAddress)).getD .invalid
          let records := offers pp s.pipe.producer.inv msg args clock
          some (⟨⟨s.pipe.producer, ⟨sampler, records⟩⟩, s.waiting⟩, .called records)
  | .offer =>
      match s.pipe.pending.records with
      | [] => none
      | r :: rest =>
          match s.pipe.producer.select s.waiting s.pipe.pending.sampler r with
          | none => none
          | some (producer, fate) =>
              -- a reader that waited has its record now
              some (⟨⟨producer, ⟨s.pipe.pending.sampler, rest⟩⟩, false⟩,
                .selected s.pipe.pending.sampler r fate)
  | .receive =>
      if s.waiting then none
      else
        match s.pipe.producer.out.receive with
        | none => some ({ s with waiting := true }, .waits)
        | some (value, out) =>
            some (⟨{ s.pipe with producer := { s.pipe.producer with out := out } }, false⟩,
              .received value)

variable {pp}

/-- A record that has come to the `select` with its sampler, and what has become of it. -/
structure Selection where
  sampler : Addr
  r : Record
  fate : Chan.Attempt

namespace Outcome

def records : Outcome → List Record
  | .called records => records
  | _ => []

def selection : Outcome → Option Selection
  | .selected sampler r fate => some ⟨sampler, r, fate⟩
  | _ => none

def taken : Outcome → Option Record
  | .selected _ r .handed => some r
  | .received value => value
  | _ => none

end Outcome

abbrev ServeTrace (Packet : Type) := List (Entry Served (Action Packet) Outcome)

def called (trace : ServeTrace Packet) : List Record :=
  (Run.collect (fun entry => some entry.output.records) trace).flatten

def selections (trace : ServeTrace Packet) : List Selection :=
  Run.collect (fun entry => entry.output.selection) trace

def taken (trace : ServeTrace Packet) : List Record :=
  Run.collect (fun entry => entry.output.taken) trace

def sent (trace : ServeTrace Packet) : List Selection :=
  (selections trace).filter fun selection => selection.fate ≠ .full

def dropped (trace : ServeTrace Packet) : Nat :=
  (selections trace).countP fun selection => selection.fate = .full

def Selection.observation (selection : Selection) : Addr × Time :=
  (selection.sampler, selection.r.received)

theorem exporter_of_offers {inv : Inventory} (filed : inv.Filed) {msg : Msg Packet}
    {args : Option ProduceArgs} {clock : Nat → Time} {r : Record}
    (offered : r ∈ offers pp inv msg args clock) :
    r.exporter = ((args.map ProduceArgs.samplerAddress).getD .invalid).unmap := by
  cases args with
  | none => simp [offers] at offered
  | some args =>
      by_cases valid : args.samplerAddress.isValid = true
      · cases known : inv.lookup args.samplerAddress with
        | none => simp [offers, valid, known] at offered
        | some exp =>
            rw [offers_known pp valid known] at offered
            obtain ⟨index, below, rfl⟩ := List.mem_mapIdx.mp offered
            have own : exp.sourceIP = args.samplerAddress.unmap := (filed _ exp known).1
            simp only [Option.map_some, Option.getD_some, ← own, Decoded.record, expand,
              extractRecord]
            split
            · rfl
            · split <;> rfl
      · simp [offers, valid] at offered

/-- A packet without a valid sampler that the inventory knows is not decoded: whatever its message
is and however it would be decoded, the call leaves everything as it was. -/
theorem call_unknown {s : Served} (idle : s.pipe.pending.records = []) (call : Call Packet)
    (unknown : ∀ args, call.args = some args → args.samplerAddress.isValid = true →
      s.pipe.producer.inv.lookup args.samplerAddress = none) :
    ∃ next, serve pp s (.call call) = some (next, .called []) ∧
      next.pipe.producer = s.pipe.producer ∧ next.pipe.pending.records = [] ∧
      next.waiting = s.waiting := by
  obtain ⟨msg, args, clock⟩ := call
  have nothing : offers pp s.pipe.producer.inv msg args clock = [] := by
    cases args with
    | none => rfl
    | some args =>
        by_cases valid : args.samplerAddress.isValid = true
        · simp [offers, valid, unknown args rfl valid]
        · simp [offers, valid]
  simp only [serve, idle, nothing]
  exact ⟨_, rfl, rfl, rfl, rfl⟩

section Entries

variable (entry : Entry Served (Action Packet) Outcome) (trace : ServeTrace Packet)

theorem called_cons : called (entry :: trace) = called trace ++ entry.output.records := by
  simp [called, Run.collect_cons]

theorem selections_cons :
    selections (entry :: trace) = selections trace ++ entry.output.selection.toList :=
  Run.collect_cons _ entry trace

theorem taken_cons : taken (entry :: trace) = taken trace ++ entry.output.taken.toList :=
  Run.collect_cons _ entry trace

theorem sent_cons : sent (entry :: trace) = sent trace ++
    entry.output.selection.toList.filter fun selection => selection.fate ≠ .full := by
  rw [sent, selections_cons, List.filter_append]
  rfl

theorem dropped_cons : dropped (entry :: trace) = dropped trace +
    entry.output.selection.toList.countP fun selection => selection.fate = .full := by
  rw [dropped, selections_cons, List.countP_append]
  rfl

theorem unselected (silent : entry.output.records = []) (selection : entry.output.selection = none) :
    called (entry :: trace) = called trace ∧ selections (entry :: trace) = selections trace ∧
      sent (entry :: trace) = sent trace ∧ dropped (entry :: trace) = dropped trace := by
  rw [called_cons, selections_cons, sent_cons, dropped_cons, silent, selection]
  simp

theorem length_selections : (selections trace).length = (sent trace).length + dropped trace := by
  rw [sent, dropped, ← List.countP_eq_length_filter, Nat.add_comm]
  have whole := @List.length_eq_countP_add_countP _
    (fun selection : Selection => decide (selection.fate = .full)) (selections trace)
  simpa using whole

end Entries

theorem ChannelProducer.select_inv {p next : ChannelProducer} {waiting : Bool} {sampler : Addr}
    {r : Record} {fate : Chan.Attempt} (opened : p.out.closed = false)
    (selected : p.select waiting sampler r = some (next, fate)) :
    next.inv = p.inv ∧ next.out.closed = false ∧
      (fate ≠ .full ∧ next.drops = p.drops ∧
          p.health.observe sampler r.received = some next.health ∧
          (fate = .handed ∧ waiting = true ∧ next.out.buffer = p.out.buffer ∨
            fate = .queued ∧ next.out.buffer = p.out.buffer ++ [r]) ∨
        fate = .full ∧ next.drops = p.drops + 1 ∧ next.health = p.health ∧
          next.out.buffer = p.out.buffer) := by
  obtain ⟨out, found, attempted, open_, cases⟩ := Chan.attempt_open waiting r opened
  rcases cases with ⟨rfl, reader, buffer⟩ | ⟨rfl, reader, buffer⟩ | ⟨rfl, reader, buffer, -⟩
  · simp only [select, attempted] at selected
    split at selected
    · contradiction
    · next health observed =>
        cases selected
        exact ⟨rfl, open_, .inl ⟨Chan.Attempt.noConfusion, rfl, observed, .inl ⟨rfl, reader, buffer⟩⟩⟩
  · simp only [select, attempted] at selected
    split at selected
    · contradiction
    · next health observed =>
        cases selected
        exact ⟨rfl, open_, .inl ⟨Chan.Attempt.noConfusion, rfl, observed, .inr ⟨rfl, buffer⟩⟩⟩
  · simp only [select, attempted] at selected
    cases selected
    exact ⟨rfl, open_, .inr ⟨rfl, rfl, rfl, buffer⟩⟩

theorem ChannelProducer.select_fate {p next : ChannelProducer} {waiting : Bool} {sampler : Addr}
    {r : Record} {fate : Chan.Attempt} (selected : p.select waiting sampler r = some (next, fate)) :
    next.inv = p.inv ∧
      (fate = .full ↔ ¬ (waiting = true ∨ p.out.buffer.length < p.out.capacity)) := by
  unfold select at selected
  split at selected
  · contradiction
  · next attempted =>
      cases selected
      exact ⟨rfl, Chan.attempt_full_iff attempted⟩
  · next attempted =>
      split at selected
      · contradiction
      · cases selected
        exact ⟨rfl, Chan.attempt_full_iff attempted⟩

structure Booked (inv : Inventory) (trace : ServeTrace Packet) (s : Served) : Prop where
  inventory : s.pipe.producer.inv = inv
  opened : s.pipe.producer.out.closed = false
  idle : s.waiting = true → s.pipe.producer.out.buffer = []
  conserved : called trace = (selections trace).map Selection.r ++ s.pipe.pending.records
  kept : taken trace ++ s.pipe.producer.out.buffer = (sent trace).map Selection.r
  drops : s.pipe.producer.drops = UInt64.ofNat (dropped trace)
  health : HealthTracker.new.observeAll ((sent trace).map Selection.observation) =
    some s.pipe.producer.health
  exporters : ∀ selection ∈ selections trace,
    selection.r.exporter = selection.sampler.unmap
  pending : ∀ r ∈ s.pipe.pending.records, r.exporter = s.pipe.pending.sampler.unmap

theorem booked_start (inv : Inventory) (capacity : Nat) :
    Booked inv ([] : ServeTrace Packet) (Served.start inv capacity) where
  inventory := rfl
  opened := rfl
  idle := fun _ => rfl
  conserved := rfl
  kept := rfl
  drops := rfl
  health := rfl
  exporters := fun _ member => nomatch member
  pending := fun _ member => nomatch member

section Step

variable {inv : Inventory} {trace : ServeTrace Packet} {s next : Served} {outcome : Outcome}

theorem Booked.call (booked : Booked inv trace s) (filed : inv.Filed) {call : Call Packet}
    (moved : serve pp s (.call call) = some (next, outcome)) :
    Booked inv (⟨s, .call call, outcome⟩ :: trace) next := by
  obtain ⟨msg, args, clock⟩ := call
  simp only [serve] at moved
  split at moved
  · contradiction
  · next empty =>
      cases moved
      refine ⟨booked.inventory, booked.opened, booked.idle, ?_, ?_, ?_, ?_, ?_, ?_⟩
      · have past := booked.conserved
        rw [empty, List.append_nil] at past
        rw [called_cons, selections_cons, past]
        simp [Outcome.records, Outcome.selection]
      · rw [taken_cons, sent_cons]
        simpa [Outcome.taken, Outcome.selection] using booked.kept
      · rw [dropped_cons]
        simpa [Outcome.selection] using booked.drops
      · rw [sent_cons]
        simpa [Outcome.selection] using booked.health
      · rw [selections_cons]
        simpa [Outcome.selection] using booked.exporters
      · intro r offered
        exact exporter_of_offers (booked.inventory ▸ filed) offered

theorem Booked.offer (booked : Booked inv trace s)
    (moved : serve pp s .offer = some (next, outcome)) :
    Booked inv (⟨s, .offer, outcome⟩ :: trace) next := by
  simp only [serve] at moved
  split at moved
  · contradiction
  · next r rest held =>
      split at moved
      · contradiction
      · next producer fate selected =>
          cases moved
          obtain ⟨sameInv, open_, cases⟩ := ChannelProducer.select_inv booked.opened selected
          have own := booked.pending
          rw [held] at own
          have past := booked.conserved
          rw [held] at past
          have exporters : ∀ selection ∈ selections (⟨s, .offer,
              .selected s.pipe.pending.sampler r fate⟩ :: trace),
              selection.r.exporter = selection.sampler.unmap := by
            rw [selections_cons]
            intro selection member
            rcases List.mem_append.mp member with before | here
            · exact booked.exporters selection before
            · obtain rfl := List.mem_singleton.mp here
              exact own r List.mem_cons_self
          have conserved : called (⟨s, .offer, .selected s.pipe.pending.sampler r fate⟩ :: trace) =
              (selections (⟨s, .offer, .selected s.pipe.pending.sampler r fate⟩ :: trace)).map
                Selection.r ++ rest := by
            rw [called_cons, selections_cons, past]
            simp [Outcome.records, Outcome.selection]
          have later : ∀ other ∈ rest, other.exporter = s.pipe.pending.sampler.unmap :=
            fun other member => own other (List.mem_cons_of_mem _ member)
          rcases cases with ⟨went, drops, observed, place⟩ | ⟨rfl, drops, health, buffer⟩
          · have longer : sent (⟨s, .offer, .selected s.pipe.pending.sampler r fate⟩ :: trace) =
                sent trace ++ [⟨s.pipe.pending.sampler, r, fate⟩] := by
              rw [sent_cons]
              simp [Outcome.selection, went]
            refine ⟨sameInv.trans booked.inventory, open_, fun waiting => by contradiction,
              conserved, ?_, ?_, ?_, exporters, later⟩
            · rw [longer, List.map_append, ← booked.kept, taken_cons]
              rcases place with ⟨rfl, waits, buffer⟩ | ⟨rfl, buffer⟩
              · simp [Outcome.taken, buffer, booked.idle waits]
              · simp [Outcome.taken, buffer]
            · rw [dropped_cons, drops]
              simpa [Outcome.selection, went] using booked.drops
            · have before := booked.health
              rw [HealthTracker.observeAll] at before ⊢
              rw [longer, List.map_append, List.foldlM_append, before]
              simpa [Selection.observation] using observed
          · refine ⟨sameInv.trans booked.inventory, open_, fun waiting => by contradiction,
              conserved, ?_, ?_, ?_, exporters, later⟩
            · rw [taken_cons, sent_cons, buffer]
              simpa [Outcome.taken, Outcome.selection] using booked.kept
            · rw [dropped_cons, drops, booked.drops]
              simp [Outcome.selection]
            · rw [sent_cons, health]
              simpa [Outcome.selection] using booked.health

theorem Booked.read (booked : Booked inv trace s) {out : Chan Record} {waiting : Bool}
    (silent : outcome.records = []) (selection : outcome.selection = none)
    (opened : out.closed = false) (idle : waiting = true → out.buffer = [])
    (moved : s.pipe.producer.out.buffer = outcome.taken.toList ++ out.buffer) :
    Booked inv (⟨s, .receive, outcome⟩ :: trace)
      ⟨{ s.pipe with producer := { s.pipe.producer with out := out } }, waiting⟩ := by
  obtain ⟨called, selections, sent, dropped⟩ :=
    unselected ⟨s, .receive, outcome⟩ trace silent selection
  refine ⟨booked.inventory, opened, idle, ?_, ?_, ?_, ?_, ?_, booked.pending⟩
  · rw [called, selections]
    exact booked.conserved
  · rw [taken_cons, sent, List.append_assoc, ← moved]
    exact booked.kept
  · rw [dropped]
    exact booked.drops
  · rw [sent]
    exact booked.health
  · rw [selections]
    exact booked.exporters

theorem Booked.receive (booked : Booked inv trace s)
    (moved : serve pp s .receive = some (next, outcome)) :
    Booked inv (⟨s, .receive, outcome⟩ :: trace) next := by
  simp only [serve] at moved
  split at moved
  · contradiction
  · split at moved
    · next blocked =>
        cases moved
        exact booked.read rfl rfl booked.opened (fun _ => Chan.receive_none blocked) rfl
    · next value out received =>
        cases moved
        exact booked.read rfl rfl ((Chan.receive_closed received).trans booked.opened)
          (fun waiting => by contradiction) (Chan.receive_shift received)

end Step

theorem booked {inv : Inventory} (filed : inv.Filed) {capacity : Nat} {trace : ServeTrace Packet}
    {final : Served} (run : Run (serve pp) (Served.start inv capacity) trace final) :
    Booked inv trace final := by
  induction run with
  | start => exact booked_start inv capacity
  | @step trace state next action output past moved ih =>
      cases action with
      | call call => exact ih.call filed moved
      | offer => exact ih.offer moved
      | receive => exact ih.receive moved

theorem call_known {s : Served} (idle : s.pipe.pending.records = []) {msg : Msg Packet}
    {args : ProduceArgs} {clock : Nat → Time} {exp : Exporter}
    (valid : args.samplerAddress.isValid = true)
    (known : s.pipe.producer.inv.lookup args.samplerAddress = some exp) :
    ∃ next, serve pp s (.call ⟨msg, some args, clock⟩) =
      some (next, .called ((decode pp msg exp args clock).map (expand exp))) := by
  simp only [serve, idle, offers, if_pos valid, known]
  exact ⟨_, rfl⟩

theorem Booked.select_total {inv : Inventory} {trace : ServeTrace Packet} {s : Served}
    (booked : Booked inv trace s) {r : Record} {rest : List Record}
    (held : s.pipe.pending.records = r :: rest)
    (epoch : ∀ r ∈ called trace, 0 ≤ r.received.unix) :
    ∃ next fate, serve pp s .offer = some (next, .selected s.pipe.pending.sampler r fate) ∧
      next.pipe.pending.records = rest := by
  obtain ⟨out, fate, attempted, -⟩ := Chan.attempt_open s.waiting r booked.opened
  rw [booked.conserved, held] at epoch
  have since : ∀ observation ∈ (sent trace).map Selection.observation ++
      [(s.pipe.pending.sampler, r.received)], 0 ≤ observation.2.unix := by
    intro observation member
    rcases List.mem_append.mp member with before | here
    · obtain ⟨selection, kept, rfl⟩ := List.mem_map.mp before
      exact epoch selection.r (List.mem_append_left _
        (List.mem_map_of_mem (List.mem_filter.mp kept).1))
    · obtain rfl := List.mem_singleton.mp here
      exact epoch r (by simp)
  obtain ⟨health, observed⟩ := observeAll_total since
  have before := booked.health
  rw [HealthTracker.observeAll] at before observed
  rw [List.foldlM_append, before] at observed
  have observes : s.pipe.producer.health.observe s.pipe.pending.sampler r.received =
      some health := by simpa using observed
  simp only [serve, held, ChannelProducer.select, attempted, observes]
  cases fate with
  | handed | queued | full => exact ⟨_, _, rfl, rfl⟩

/-- The books of `Produce` at any point of its calls. -/
structure Accounted (pp : ProtoProducer Packet) (inv : Inventory) (trace : ServeTrace Packet)
    (s : Served) : Prop where
  /-- Every record of a call comes to the `select` once, in order, or is still to come. -/
  conserved : called trace = (selections trace).map Selection.r ++ s.pipe.pending.records
  /-- The reader has, or finds in the buffer, what has come to the `select`, less the drops. -/
  kept : taken trace ++ s.pipe.producer.out.buffer = (sent trace).map Selection.r
  leftOut : (selections trace).length = (sent trace).length + dropped trace
  drops : s.pipe.producer.drops.toNat = dropped trace % 2 ^ 64
  /-- The health tracker has seen one observation for each record sent, and no other. -/
  health : HealthTracker.new.observeAll ((sent trace).map Selection.observation) =
    some s.pipe.producer.health
  observed : ∀ ip, timesOf ip ((sent trace).map Selection.observation) =
    (((sent trace).map Selection.r).filter fun r => r.exporter = ip).map Record.received
  known : ∀ (args : ProduceArgs) (exp : Exporter), args.samplerAddress.isValid = true →
    inv.lookup args.samplerAddress = some exp → s.pipe.pending.records = [] →
    ∀ msg clock, ∃ next, serve pp s (.call ⟨msg, some args, clock⟩) =
      some (next, .called ((decode pp msg exp args clock).map (expand exp)))
  /-- Without a sampler in the inventory no producer and no message makes a difference. -/
  unknown : ∀ args : Option ProduceArgs,
    (∀ given, args = some given → given.samplerAddress.isValid = true →
      inv.lookup given.samplerAddress = none) → s.pipe.pending.records = [] →
    ∀ (other : ProtoProducer Packet) (msg : Msg Packet) (clock : Nat → Time),
      ∃ next, serve other s (.call ⟨msg, args, clock⟩) = some (next, .called []) ∧
        next.pipe.producer = s.pipe.producer ∧ next.pipe.pending.records = [] ∧
        next.waiting = s.waiting
  /-- The send is decided at once, and the call goes on to its next record. -/
  unblocked : ∀ r rest, s.pipe.pending.records = r :: rest →
    (∃ out fate, s.pipe.producer.out.attempt s.waiting r = some (out, fate)) ∧
      ((∀ r ∈ called trace, 0 ≤ r.received.unix) →
        ∃ next fate, serve pp s .offer = some (next, .selected s.pipe.pending.sampler r fate) ∧
          next.pipe.pending.records = rest)

/-- Any calls, one after another, and any reader leave the books in order. -/
theorem produce_accounted (pp : ProtoProducer Packet) (parseAddr : String → Option Addr)
    (i : Inventory) (rows : List ExporterRow) (capacity : Nat) {trace : ServeTrace Packet}
    {final : Served}
    (run : Run (serve pp) (Served.start (i.reload parseAddr (.ok rows)).1 capacity) trace final) :
    Accounted pp (i.reload parseAddr (.ok rows)).1 trace final := by
  have books := booked (Inventory.filed_reload i rows) run
  have inventory := books.inventory
  refine ⟨books.conserved, books.kept, length_selections trace, ?_, books.health, ?_, ?_, ?_, ?_⟩
  · rw [books.drops, UInt64.toNat_ofNat']
  · intro ip
    rw [timesOf, List.filter_map, List.map_map, List.filter_map, List.map_map]
    have same : (sent trace).filter
          ((fun observation => decide (observation.1.unmap = ip)) ∘ Selection.observation) =
        (sent trace).filter ((fun r => decide (r.exporter = ip)) ∘ Selection.r) := by
      apply List.filter_congr
      intro selection member
      have own := books.exporters selection (List.mem_filter.mp member).1
      exact decide_eq_decide.mpr (by rw [own]; rfl)
    rw [same]
    rfl
  · intro args exp valid known idle msg clock
    exact call_known idle valid (inventory.symm ▸ known)
  · intro args unknown idle other msg clock
    exact call_unknown idle ⟨msg, args, clock⟩ (inventory.symm ▸ unknown)
  · intro r rest held
    refine ⟨?_, books.select_total held⟩
    obtain ⟨out, fate, attempted, -⟩ := Chan.attempt_open final.waiting r books.opened
    exact ⟨out, fate, attempted⟩

def sampleCall (sampler : Addr) : Call Empty where
  msg := .decoded (announcing 7)
  args := some { samplerArgs with samplerAddress := sampler }
  clock := fun _ => Time.zero

theorem produce_accounted_sample : ∃ (trace : ServeTrace Empty) (final : Served),
    (taken trace).length = 1 ∧ final.pipe.producer.out.buffer.length = 1 ∧ dropped trace = 1 ∧
      Accounted decodedProducer sampleInventory trace final := by
  have executed : (Run.replay (serve decodedProducer) [] (Served.start sampleInventory 1)
      [.receive, .call (sampleCall (.v4 0x0a000002)), .offer,
        .call (sampleCall (.v6 0xffff0a000002 "")), .offer,
        .call (sampleCall (.v4 0x0a000002)), .offer, .call (sampleCall (.v4 0x0a000003)),
        .call (sampleCall .invalid)]).map
        (fun made => ((taken made.1).length, made.2.pipe.producer.out.buffer.length,
          dropped made.1)) = some (1, 1, 1) := by
    decide +kernel
  obtain ⟨⟨trace, final⟩, replayed, observed⟩ := Option.map_eq_some_iff.mp executed
  simp only [Prod.mk.injEq] at observed
  exact ⟨trace, final, observed.1, observed.2.1, observed.2.2,
    produce_accounted decodedProducer parseSample (Inventory.mk ∅) [sampleRow] 1
      (Run.of_replay .start replayed)⟩

theorem starved (n : Nat) : ∃ (trace : ServeTrace Empty) (sampler : Addr) (drops : UInt64),
    Run (serve decodedProducer) (Served.start sampleInventory 0) trace
        ⟨⟨⟨sampleInventory, HealthTracker.new, Chan.make 0, drops⟩, ⟨sampler, []⟩⟩, false⟩ ∧
      taken trace = [] ∧ dropped trace = n := by
  induction n with
  | zero => exact ⟨[], .invalid, 0, .start, rfl, rfl⟩
  | succ n ih =>
      obtain ⟨trace, sampler, drops, run, none, count⟩ := ih
      obtain ⟨r, offered⟩ : ∃ r, offers decodedProducer sampleInventory
          (sampleCall (.v4 0x0a000002)).msg (sampleCall (.v4 0x0a000002)).args
          (sampleCall (.v4 0x0a000002)).clock = [r] := by
        apply List.length_eq_one_iff.mp
        decide +kernel
      have called : serve decodedProducer
          ⟨⟨⟨sampleInventory, HealthTracker.new, Chan.make 0, drops⟩, ⟨sampler, []⟩⟩, false⟩
          (.call (sampleCall (.v4 0x0a000002))) =
        some (⟨⟨⟨sampleInventory, HealthTracker.new, Chan.make 0, drops⟩,
          ⟨.v4 0x0a000002, [r]⟩⟩, false⟩, .called [r]) := by
        rw [← offered]
        rfl
      have full : serve decodedProducer
          ⟨⟨⟨sampleInventory, HealthTracker.new, Chan.make 0, drops⟩, ⟨.v4 0x0a000002, [r]⟩⟩, false⟩
          .offer =
        some (⟨⟨⟨sampleInventory, HealthTracker.new, Chan.make 0, drops + 1⟩,
          ⟨.v4 0x0a000002, []⟩⟩, false⟩, .selected (.v4 0x0a000002) r .full) := rfl
      refine ⟨_, .v4 0x0a000002, drops + 1, .step (.step run called) full, ?_, ?_⟩
      · rw [taken_cons, taken_cons, none]
        rfl
      · rw [dropped_cons, dropped_cons, count]
        rfl

/-- After 2^64 records left out the counter is back at zero. -/
theorem drops_wrap : ∃ (trace : ServeTrace Empty) (final : Served),
    Run (serve decodedProducer) (Served.start sampleInventory 0) trace final ∧
      final.pipe.pending.records = [] ∧ final.pipe.producer.drops.toNat = 0 ∧
      (called trace).length = 2 ^ 64 ∧ taken trace ++ final.pipe.producer.out.buffer = [] := by
  obtain ⟨trace, sampler, drops, run, none, count⟩ := starved (2 ^ 64)
  have books := booked (Inventory.filed_reload _ _) run
  refine ⟨trace, _, run, rfl, ?_, ?_, ?_⟩
  · rw [books.drops, count]
    rfl
  · have kept := books.kept
    rw [none] at kept
    have empty : sent trace = [] := List.map_eq_nil_iff.mp kept.symm
    have whole := length_selections trace
    rw [books.conserved, List.append_nil, List.length_map, whole, empty, count]
    rfl
  · rw [none]
    rfl

end Mitigador.Ingest
