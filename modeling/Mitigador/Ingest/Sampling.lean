import Mitigador.Ingest.Accounting

/-! Sampling rates across packets. The reference feeds all packets of an exporter to one proto
producer; the code builds a producer for each packet, so what one has learnt is lost. -/

namespace Mitigador.Ingest

open Go Mitigador.Flow Lib

/-- What one packet holds, in the order in which its producer treats it. -/
inductive Item
  | announce (rate : UInt32)
  | flow (m : Message)
  deriving DecidableEq, Repr

/-- Data records without a rate of their own get the rate announced last. -/
def stamp (rate : UInt32) : List Item → List Message
  | [] => []
  | .announce announced :: rest => stamp announced rest
  | .flow m :: rest =>
      (if m.samplingRate = 0 then { m with samplingRate := rate.toUInt64 } else m) ::
        stamp rate rest

def announcedRates (items : List Item) : List UInt32 :=
  items.filterMap fun item => match item with
    | .announce rate => some rate
    | .flow _ => none

def lastAnnounced (rate : UInt32) (items : List Item) : UInt32 :=
  (announcedRates items).getLast?.getD rate

def awaitsRate : List Item → Bool
  | [] => false
  | .announce _ :: _ => false
  | .flow m :: rest => m.samplingRate == 0 || awaitsRate rest

variable {Packet : Type}

/-- The state machine that goflow2 documents: per sampler the announced rate is remembered.
A packet that does not parse yields an error and announces nothing. -/
structure RemembersRates (pp : ProtoProducer Packet) (items : Packet → Option (List Item))
    (rate : pp.Memory → Addr → UInt32) : Prop where
  created : ∃ memory, pp.create = some memory ∧ ∀ sampler, rate memory sampler = 0
  stamps : ∀ memory packet args, (pp.produce memory packet args).2 =
    (items packet).map (stamp (rate memory args.samplerAddress))
  remembers : ∀ memory packet args, rate (pp.produce memory packet args).1 args.samplerAddress =
    lastAnnounced (rate memory args.samplerAddress) ((items packet).getD [])
  keeps : ∀ memory packet args sampler, sampler ≠ args.samplerAddress →
    rate (pp.produce memory packet args).1 sampler = rate memory sampler

structure Datagram (Packet : Type) where
  packet : Packet
  args : ProduceArgs
  clock : Nat → Time

def Datagram.call (d : Datagram Packet) : Call Packet := ⟨.raw d.packet, some d.args, d.clock⟩

/-- A data record with the counts it stands for, and its rate as wide as the message has it. -/
structure Expanded where
  exporter : Addr
  dstIP : Addr
  srcIP : Addr
  proto : Proto
  bytes : UInt64
  packets : UInt64
  rate : UInt64
  received : Time
  deriving DecidableEq, Repr

def Message.factor (m : Message) : UInt64 :=
  if m.samplingRate = 0 then 1 else m.samplingRate

def Message.expanded (m : Message) (exporterIP : Addr) (received now : Time) : Expanded where
  exporter := exporterIP
  dstIP := (bytesToAddr m.dstAddr).getD .invalid
  srcIP := (bytesToAddr m.srcAddr).getD .invalid
  proto := m.proto.toUInt8
  bytes := m.bytes * m.factor
  packets := m.packets * m.factor
  rate := m.samplingRate
  received := if received = Time.zero then now else received

def Expanded.ofRecord (r : Record) : Expanded where
  exporter := r.exporter
  dstIP := r.dstIP
  srcIP := r.srcIP
  proto := r.proto
  bytes := r.bytes
  packets := r.packets
  rate := r.sampleRate.toUInt64
  received := r.received

def Datagram.expanded (d : Datagram Packet) (exporterIP : Addr) (msgs : List Message) :
    List Expanded :=
  msgs.mapIdx fun index m => m.expanded exporterIP d.args.timeReceived (d.clock index)

/-- One producer fed all the packets, each record expanded by the rate it carries. -/
def feed (pp : ProtoProducer Packet) (exporterIP : Addr) :
    pp.Memory → List (Datagram Packet) → List Expanded
  | _, [] => []
  | memory, d :: rest =>
      let (next, msgs) := pp.produce memory d.packet d.args
      d.expanded exporterIP (msgs.getD []) ++ feed pp exporterIP next rest

def reference (pp : ProtoProducer Packet) (exporterIP : Addr)
    (datagrams : List (Datagram Packet)) : List Expanded :=
  match pp.create with
  | none => []
  | some memory => feed pp exporterIP memory datagrams

def rateAfter (items : Packet → Option (List Item)) (sampler : Addr)
    (datagrams : List (Datagram Packet)) : UInt32 :=
  lastAnnounced 0
    ((datagrams.filter (·.args.samplerAddress = sampler)).flatMap fun d =>
      (items d.packet).getD [])

def SelfContained (items : Packet → Option (List Item)) (datagrams : List (Datagram Packet)) :
    Prop :=
  ∀ front d back, datagrams = front ++ d :: back →
    awaitsRate ((items d.packet).getD []) = true → rateAfter items d.args.samplerAddress front = 0

def Narrow (items : List Item) : Prop :=
  ∀ m, .flow m ∈ items → m.samplingRate.toNat < 2 ^ 32

theorem lastAnnounced_append (rate : UInt32) (first second : List Item) :
    lastAnnounced rate (first ++ second) = lastAnnounced (lastAnnounced rate first) second := by
  simp only [lastAnnounced, announcedRates, List.filterMap_append, List.getLast?_append]
  cases (announcedRates second).getLast? <;> simp

theorem narrow_cons {item : Item} {rest : List Item} :
    Narrow (item :: rest) ↔ (∀ m, item = .flow m → m.samplingRate.toNat < 2 ^ 32) ∧ Narrow rest := by
  constructor
  · intro narrow
    exact ⟨fun m here => narrow m (here ▸ List.mem_cons_self),
      fun m later => narrow m (List.mem_cons_of_mem _ later)⟩
  · rintro ⟨here, later⟩ m member
    rcases List.mem_cons.mp member with head | tail
    · exact here m head.symm
    · exact later m tail

theorem toUInt32_toUInt64_eq_iff {rate : UInt64} :
    rate.toUInt32.toUInt64 = rate ↔ rate.toNat < 2 ^ 32 := by
  rw [← UInt64.toNat_inj, UInt32.toNat_toUInt64, UInt64.toNat_toUInt32]
  exact Nat.mod_eq_iff_lt (by decide)

def Message.narrow (m : Message) : Message :=
  { m with samplingRate := m.samplingRate.toUInt32.toUInt64 }

/-- The rates of the records show which rate was remembered where one needs it, and that none was
too wide. -/
theorem fits_of_stamp_rates (remembered rate : UInt32) (items : List Item)
    (same : (stamp remembered items).map (·.samplingRate.toUInt32.toUInt64) =
      (stamp rate items).map (·.samplingRate)) :
    (awaitsRate items = true → remembered = rate) ∧ Narrow items := by
  induction items generalizing remembered rate with
  | nil => exact ⟨fun awaiting => by contradiction, fun _ member => nomatch member⟩
  | cons item rest ih =>
      cases item with
      | announce announced =>
          obtain ⟨-, narrow⟩ := ih announced announced same
          refine ⟨fun awaiting => by contradiction, narrow_cons.mpr ⟨?_, narrow⟩⟩
          exact fun _ flow => Item.noConfusion flow
      | flow m =>
          simp only [stamp, List.map_cons, List.cons.injEq] at same
          obtain ⟨unneeded, narrow⟩ := ih remembered rate same.2
          have head := same.1
          by_cases unrated : m.samplingRate = 0
          · rw [if_pos unrated, if_pos unrated] at head
            rw [UInt32.toUInt32_toUInt64, UInt32.toUInt64_inj] at head
            refine ⟨fun _ => head, narrow_cons.mpr ⟨?_, narrow⟩⟩
            rintro _ ⟨⟩
            rw [unrated]
            decide
          · rw [if_neg unrated, if_neg unrated] at head
            refine ⟨fun awaiting => unneeded ?_, narrow_cons.mpr ⟨?_, narrow⟩⟩
            · simpa [awaitsRate, unrated] using awaiting
            · rintro _ ⟨⟩
              exact toUInt32_toUInt64_eq_iff.mp head

theorem narrow_stamp (remembered rate : UInt32) (items : List Item)
    (unneeded : awaitsRate items = true → remembered = rate) (narrow : Narrow items) :
    (stamp remembered items).map Message.narrow = stamp rate items := by
  induction items generalizing remembered rate with
  | nil => rfl
  | cons item rest ih =>
      obtain ⟨here, later⟩ := narrow_cons.mp narrow
      cases item with
      | announce announced => exact ih announced announced (fun _ => rfl) later
      | flow m =>
          have tail : (stamp remembered rest).map Message.narrow = stamp rate rest :=
            ih remembered rate (fun awaiting => unneeded (by simp [awaitsRate, awaiting])) later
          rw [stamp, stamp, List.map_cons, tail]
          by_cases unrated : m.samplingRate = 0
          · rw [if_pos unrated, if_pos unrated, unneeded (by simp [awaitsRate, unrated])]
            simp [Message.narrow]
          · rw [if_neg unrated, if_neg unrated, Message.narrow,
              toUInt32_toUInt64_eq_iff.mpr (here m rfl)]

theorem stamp_length (rate other : UInt32) (items : List Item) :
    (stamp rate items).length = (stamp other items).length := by
  induction items generalizing rate other with
  | nil => rfl
  | cons item rest ih =>
      cases item with
      | announce announced => rfl
      | flow m => simp only [stamp, List.length_cons, ih rate other]

theorem factor_narrow (m : Message) : m.narrow.factor =
    if m.samplingRate.toUInt32 > 1 then m.samplingRate.toUInt32.toUInt64 else 1 := by
  have cut : m.narrow.samplingRate = m.samplingRate.toUInt32.toUInt64 := rfl
  rw [Message.factor, cut]
  generalize m.samplingRate.toUInt32 = rate
  by_cases none : rate = 0
  · rw [none]
    rfl
  · by_cases single : rate = 1
    · rw [single]
      rfl
    · have sampled : rate > 1 := by
        rw [gt_iff_lt, UInt32.lt_iff_toNat_lt]
        rw [← UInt32.toNat_inj] at none single
        simp only [UInt32.toNat_zero, UInt32.toNat_one] at none single ⊢
        omega
      have some : rate.toUInt64 ≠ 0 := fun zero => none (UInt32.toUInt64_inj.mp zero)
      rw [if_pos sampled, if_neg some]

theorem ofRecord_expand {exp : Exporter} (override : exp.sampleRateOverride = 0) (m : Message)
    (received now : Time) :
    Expanded.ofRecord (expand exp (extractRecord m exp.sourceIP received now)) =
      m.narrow.expanded exp.sourceIP received now := by
  have announced : ¬ exp.sampleRateOverride > 0 := by
    rw [override]
    decide
  have factor := factor_narrow m
  have rate : (extractRecord m exp.sourceIP received now).sampleRate = m.samplingRate.toUInt32 := rfl
  rw [expand, if_neg announced, rate, Message.expanded]
  by_cases sampled : m.samplingRate.toUInt32 > 1
  · rw [if_pos sampled] at factor
    rw [if_pos sampled, factor]
    rfl
  · rw [if_neg sampled] at factor
    rw [if_neg sampled, factor, UInt64.mul_one, UInt64.mul_one]
    rfl

theorem ofRecord_extractAll {exp : Exporter} (override : exp.sampleRateOverride = 0)
    (d : Datagram Packet) (msgs : List Message) :
    ((extractAll exp d.args d.clock msgs).map (expand exp)).map Expanded.ofRecord =
      d.expanded exp.sourceIP (msgs.map Message.narrow) := by
  apply List.ext_getElem
  · simp [extractAll, Datagram.expanded]
  · intro index _ _
    simp [extractAll, Datagram.expanded, ofRecord_expand override]

theorem rates_expanded (d : Datagram Packet) (exporterIP : Addr) (msgs : List Message) :
    (d.expanded exporterIP msgs).map Expanded.rate = msgs.map Message.samplingRate := by
  apply List.ext_getElem
  · simp [Datagram.expanded]
  · intro index _ _
    simp [Datagram.expanded, Message.expanded]

/-- One packet under a producer that remembers `rate` and under one that remembers nothing. -/
theorem stamped_records_iff (d : Datagram Packet) (exporterIP : Addr) (rate : UInt32)
    (items : List Item) :
    d.expanded exporterIP ((stamp 0 items).map Message.narrow) =
        d.expanded exporterIP (stamp rate items) ↔
      (awaitsRate items = true → rate = 0) ∧ Narrow items := by
  constructor
  · intro same
    have rates := congrArg (List.map Expanded.rate) same
    rw [rates_expanded, rates_expanded, List.map_map] at rates
    obtain ⟨unneeded, narrow⟩ := fits_of_stamp_rates 0 rate items rates
    exact ⟨fun awaiting => (unneeded awaiting).symm, narrow⟩
  · rintro ⟨unneeded, narrow⟩
    rw [narrow_stamp 0 rate items (fun awaiting => (unneeded awaiting).symm) narrow]

def learn (pp : ProtoProducer Packet) : pp.Memory → List (Datagram Packet) → pp.Memory
  | memory, [] => memory
  | memory, d :: rest => learn pp (pp.produce memory d.packet d.args).1 rest

theorem append_eq_iff_of_length {α : Type*} {first second third fourth : List α}
    (same : first.length = third.length) :
    first ++ second = third ++ fourth ↔ first = third ∧ second = fourth := by
  constructor
  · exact fun equal => List.append_inj equal same
  · rintro ⟨rfl, rfl⟩
    rfl

theorem forall_split_cons {α : Type*} (P : List α → α → Prop) (head : α) (tail : List α) :
    (∀ front x back, head :: tail = front ++ x :: back → P front x) ↔
      P [] head ∧ ∀ front x back, tail = front ++ x :: back → P (head :: front) x := by
  constructor
  · intro every
    refine ⟨every [] head tail rfl, ?_⟩
    intro front x back split
    exact every (head :: front) x back (by rw [split]; rfl)
  · rintro ⟨here, later⟩ front x back split
    cases front with
    | nil =>
        cases split
        exact here
    | cons first front =>
        cases split
        exact later front x back rfl

section Remembering

variable {pp : ProtoProducer Packet} {items : Packet → Option (List Item)}
  {rate : pp.Memory → Addr → UInt32} (remembering : RemembersRates pp items rate)

include remembering

theorem rate_learn (memory : pp.Memory) (sampler : Addr) (datagrams : List (Datagram Packet)) :
    rate (learn pp memory datagrams) sampler =
      lastAnnounced (rate memory sampler)
        ((datagrams.filter (·.args.samplerAddress = sampler)).flatMap fun d =>
          (items d.packet).getD []) := by
  induction datagrams generalizing memory with
  | nil => rfl
  | cons d rest ih =>
      rw [learn, ih]
      by_cases own : d.args.samplerAddress = sampler
      · subst own
        rw [remembering.remembers]
        simp [lastAnnounced_append]
      · rw [remembering.keeps _ _ _ _ (Ne.symm own)]
        simp [own]

theorem offers_raw {inv : Inventory} {exp : Exporter} (d : Datagram Packet)
    (valid : d.args.samplerAddress.isValid = true)
    (known : inv.lookup d.args.samplerAddress = some exp) :
    offers pp inv (.raw d.packet) (some d.args) d.clock =
      (extractAll exp d.args d.clock (stamp 0 ((items d.packet).getD []))).map (expand exp) := by
  obtain ⟨memory, created, unheard⟩ := remembering.created
  simp only [offers, valid, if_true, known, decode, created, remembering.stamps, unheard]
  cases items d.packet <;> rfl

theorem feed_cons (exporterIP : Addr) (memory : pp.Memory) (d : Datagram Packet)
    (rest : List (Datagram Packet)) :
    feed pp exporterIP memory (d :: rest) =
      d.expanded exporterIP
          (stamp (rate memory d.args.samplerAddress) ((items d.packet).getD [])) ++
        feed pp exporterIP (pp.produce memory d.packet d.args).1 rest := by
  simp only [feed, remembering.stamps]
  cases items d.packet <;> rfl

/-- Per-call decoding and the single producer agree on the packets of an exporter exactly when
the producer remembers no rate at each packet with a record that awaits one, and no rate is too
wide. -/
theorem offers_eq_feed_iff {inv : Inventory} {exp : Exporter} (memory : pp.Memory)
    (datagrams : List (Datagram Packet)) (override : exp.sampleRateOverride = 0)
    (valid : ∀ d ∈ datagrams, d.args.samplerAddress.isValid = true)
    (known : ∀ d ∈ datagrams, inv.lookup d.args.samplerAddress = some exp) :
    (datagrams.flatMap fun d => offers pp inv (.raw d.packet) (some d.args) d.clock).map
          Expanded.ofRecord = feed pp exp.sourceIP memory datagrams ↔
      (∀ front d back, datagrams = front ++ d :: back →
        awaitsRate ((items d.packet).getD []) = true →
          rate (learn pp memory front) d.args.samplerAddress = 0) ∧
        ∀ d ∈ datagrams, Narrow ((items d.packet).getD []) := by
  induction datagrams generalizing memory with
  | nil => simp [feed]
  | cons d rest ih =>
      have here := stamped_records_iff d exp.sourceIP (rate memory d.args.samplerAddress)
        ((items d.packet).getD [])
      have later := ih (pp.produce memory d.packet d.args).1
        (fun other member => valid other (List.mem_cons_of_mem _ member))
        (fun other member => known other (List.mem_cons_of_mem _ member))
      have split := forall_split_cons (fun front other =>
        awaitsRate ((items other.packet).getD []) = true →
          rate (learn pp memory front) other.args.samplerAddress = 0) d rest
      rw [List.flatMap_cons, List.map_append, offers_raw remembering d
        (valid d (List.mem_cons_self ..)) (known d (List.mem_cons_self ..)),
        ofRecord_extractAll override, feed_cons remembering, append_eq_iff_of_length
          (by simp [Datagram.expanded, stamp_length 0 (rate memory d.args.samplerAddress)]),
        here, later, split, List.forall_mem_cons]
      exact and_and_and_comm

end Remembering

def Action.asCall : Action Packet → Option (Call Packet)
  | .call c => some c
  | _ => none

def callsOf (trace : ServeTrace Packet) : List (Call Packet) :=
  Run.collect (fun entry => entry.action.asCall) trace

def sentIn (trace : ServeTrace Packet) : List Record :=
  (sent trace).map Selection.r

def Roomy (trace : ServeTrace Packet) : Prop :=
  ∀ entry ∈ trace, entry.action = .offer → entry.before.waiting = true ∨
    entry.before.pipe.producer.out.buffer.length < entry.before.pipe.producer.out.capacity

section Serving

variable {pp : ProtoProducer Packet}

theorem serve_call {s next : Served} {call : Call Packet} {outcome : Outcome}
    (moved : serve pp s (.call call) = some (next, outcome)) :
    s.pipe.pending.records = [] ∧ next.pipe.producer.inv = s.pipe.producer.inv ∧
      next.pipe.pending.records = offers pp s.pipe.producer.inv call.msg call.args call.clock ∧
      outcome.selection = none := by
  simp only [serve] at moved
  split at moved
  · contradiction
  · next empty =>
      cases moved
      exact ⟨empty, rfl, rfl, rfl⟩

theorem serve_offer {s next : Served} {outcome : Outcome}
    (moved : serve pp s .offer = some (next, outcome)) :
    ∃ r fate, s.pipe.pending.records = r :: next.pipe.pending.records ∧
      next.pipe.producer.inv = s.pipe.producer.inv ∧
      outcome.selection = some ⟨s.pipe.pending.sampler, r, fate⟩ ∧
      (fate = .full ↔ ¬ (s.waiting = true ∨
        s.pipe.producer.out.buffer.length < s.pipe.producer.out.capacity)) := by
  simp only [serve] at moved
  split at moved
  · contradiction
  · next r rest held =>
      split at moved
      · contradiction
      · next producer fate selected =>
          cases moved
          obtain ⟨kept, full⟩ := ChannelProducer.select_fate selected
          exact ⟨r, fate, held, kept, rfl, full⟩

theorem serve_receive {s next : Served} {outcome : Outcome}
    (moved : serve pp s .receive = some (next, outcome)) :
    next.pipe.pending = s.pipe.pending ∧ next.pipe.producer.inv = s.pipe.producer.inv ∧
      outcome.selection = none := by
  simp only [serve] at moved
  split at moved
  · contradiction
  · split at moved <;> cases moved <;> exact ⟨rfl, rfl, rfl⟩

/-- The calls of a run have come to the `select` in their order, up to those still to come, and
were all sent exactly when there was room for each of them. -/
theorem selected_run {start final : Served} {trace : ServeTrace Packet}
    (run : Run (serve pp) start trace final) (idle : start.pipe.pending.records = []) :
    final.pipe.producer.inv = start.pipe.producer.inv ∧
      (selections trace).map Selection.r ++ final.pipe.pending.records =
        (callsOf trace).flatMap
          (fun c => offers pp start.pipe.producer.inv c.msg c.args c.clock) ∧
      ((∀ selection ∈ selections trace, selection.fate ≠ .full) ↔ Roomy trace) := by
  induction run with
  | start => exact ⟨rfl, idle, by simp [selections, Run.collect, Roomy]⟩
  | @step trace s next action outcome past moved ih =>
      obtain ⟨sameInv, accounted, roomy⟩ := ih
      have calls : callsOf (⟨s, action, outcome⟩ :: trace) = callsOf trace ++ action.asCall.toList :=
        Run.collect_cons _ _ trace
      cases action with
      | call call =>
          obtain ⟨empty, kept, pending, none⟩ := serve_call moved
          rw [empty, List.append_nil] at accounted
          refine ⟨kept.trans sameInv, ?_, ?_⟩
          · rw [selections_cons, none, calls, pending, sameInv]
            simpa [Action.asCall] using accounted
          · rw [selections_cons, none]
            simpa [Roomy] using roomy
      | offer =>
          obtain ⟨r, fate, held, kept, selection, full⟩ := serve_offer moved
          rw [held] at accounted
          refine ⟨kept.trans sameInv, ?_, ?_⟩
          · rw [selections_cons, selection, calls]
            simpa [Action.asCall] using accounted
          · rw [selections_cons, selection]
            simp only [Roomy, List.forall_mem_cons, forall_const] at roomy ⊢
            rw [← roomy]
            simp only [Option.toList_some, List.mem_append, List.mem_singleton, or_imp,
              forall_and, forall_eq, ne_eq, full, not_not]
            exact and_comm
      | receive =>
          obtain ⟨samePending, kept, none⟩ := serve_receive moved
          refine ⟨kept.trans sameInv, ?_, ?_⟩
          · rw [selections_cons, none, calls, samePending]
            simpa [Action.asCall] using accounted
          · rw [selections_cons, none]
            simpa [Roomy] using roomy

theorem sent_eq_selections_iff (trace : ServeTrace Packet) :
    (sent trace).length = (selections trace).length ↔
      ∀ selection ∈ selections trace, selection.fate ≠ .full := by
  rw [sent, List.length_filter_eq_length_iff]
  simp

end Serving

theorem length_feed {pp : ProtoProducer Packet} {items : Packet → Option (List Item)}
    {rate : pp.Memory → Addr → UInt32} (remembering : RemembersRates pp items rate)
    {inv : Inventory} {exp : Exporter} (memory : pp.Memory) (datagrams : List (Datagram Packet))
    (valid : ∀ d ∈ datagrams, d.args.samplerAddress.isValid = true)
    (known : ∀ d ∈ datagrams, inv.lookup d.args.samplerAddress = some exp) :
    (feed pp exp.sourceIP memory datagrams).length =
      (datagrams.flatMap fun d => offers pp inv (.raw d.packet) (some d.args) d.clock).length := by
  induction datagrams generalizing memory with
  | nil => rfl
  | cons d rest ih =>
      have later := ih (pp.produce memory d.packet d.args).1
        (fun other member => valid other (List.mem_cons_of_mem _ member))
        (fun other member => known other (List.mem_cons_of_mem _ member))
      rw [feed_cons remembering, List.flatMap_cons, List.length_append, List.length_append, later,
        offers_raw remembering d (valid d (List.mem_cons_self ..))
          (known d (List.mem_cons_self ..))]
      simp [Datagram.expanded, extractAll, stamp_length 0 (rate memory d.args.samplerAddress)]

/-- The records of the packets of one exporter without an override go to the channel as those of
one proto producer exactly when no packet depends on a rate announced in an earlier one, no rate is
wider than 32 bits, and there is room for each of them. -/
theorem sends_reference_iff {pp : ProtoProducer Packet} {items : Packet → Option (List Item)}
    {rate : pp.Memory → Addr → UInt32} (remembering : RemembersRates pp items rate)
    {start final : Served} {trace : ServeTrace Packet} {exp : Exporter}
    {datagrams : List (Datagram Packet)} (run : Run (serve pp) start trace final)
    (idle : start.pipe.pending.records = []) (finished : final.pipe.pending.records = [])
    (fed : callsOf trace = datagrams.map Datagram.call)
    (valid : ∀ d ∈ datagrams, d.args.samplerAddress.isValid = true)
    (known : ∀ d ∈ datagrams, start.pipe.producer.inv.lookup d.args.samplerAddress = some exp)
    (override : exp.sampleRateOverride = 0) :
    (sentIn trace).map Expanded.ofRecord = reference pp exp.sourceIP datagrams ↔
      SelfContained items datagrams ∧
        (∀ d ∈ datagrams, Narrow ((items d.packet).getD [])) ∧ Roomy trace := by
  obtain ⟨memory, created, unheard⟩ := remembering.created
  obtain ⟨-, selected, roomy⟩ := selected_run run idle
  rw [finished, List.append_nil, fed, List.flatMap_map] at selected
  have exact_iff := offers_eq_feed_iff remembering memory datagrams override valid known
  have lengths := length_feed remembering memory datagrams valid known
  have contained : SelfContained items datagrams ↔ ∀ front d back, datagrams = front ++ d :: back →
      awaitsRate ((items d.packet).getD []) = true →
        rate (learn pp memory front) d.args.samplerAddress = 0 := by
    simp only [SelfContained, rateAfter, rate_learn remembering, unheard]
  have referred : reference pp exp.sourceIP datagrams = feed pp exp.sourceIP memory datagrams := by
    rw [reference, created]
  rw [referred, contained, ← and_assoc, ← exact_iff, ← roomy]
  have offered : (selections trace).map Selection.r =
      datagrams.flatMap fun d => offers pp start.pipe.producer.inv (.raw d.packet) (some d.args)
        d.clock := selected
  rw [← offered]
  constructor
  · intro same
    have whole : (sent trace).length = (selections trace).length := by
      calc (sent trace).length = ((sentIn trace).map Expanded.ofRecord).length := by simp [sentIn]
        _ = (selections trace).length := by rw [same, lengths, ← offered, List.length_map]
    have kept := (sent_eq_selections_iff trace).mp whole
    refine ⟨?_, kept⟩
    rw [← same, sentIn, sent, List.filter_eq_self.mpr (by simpa using kept)]
  · rintro ⟨same, kept⟩
    rw [← same, sentIn, sent, List.filter_eq_self.mpr (by simpa using kept)]

def sampleProducer : ProtoProducer (List Item) where
  Memory := Addr → UInt32
  create := some fun _ => 0
  produce memory packet args :=
    (fun sampler => if sampler = args.samplerAddress then lastAnnounced (memory sampler) packet
      else memory sampler,
      some (stamp (memory args.samplerAddress) packet))

theorem sampleProducer_remembers :
    RemembersRates sampleProducer some fun memory sampler => memory sampler where
  created := ⟨_, rfl, fun _ => rfl⟩
  stamps _ _ _ := rfl
  remembers _ _ _ := if_pos rfl
  keeps _ _ _ _ other := if_neg other

def sampleExporter : Exporter := ⟨.v4 0x0a000002, 0⟩

def sampleServed : Served :=
  .start ⟨AList.insert sampleExporter.sourceIP sampleExporter ∅⟩ 8192

def sampleDatagram (packet : List Item) : Datagram (List Item) where
  packet := packet
  args :=
    { src := ⟨sampleExporter.sourceIP, 49152⟩
      dst := ⟨.v4 0x0a000001, 4739⟩
      samplerAddress := sampleExporter.sourceIP
      timeReceived := Time.ofUnix 100 }
  clock _ := Time.ofUnix 100

def sampleMessage : Message where
  proto := 17
  bytes := 100
  packets := 1
  samplingRate := 0
  srcAddr := [198, 51, 100, 7]
  dstAddr := [192, 0, 2, 1]

theorem sends_reference_iff_sample :
    let datagram := sampleDatagram [.announce 1000, .flow sampleMessage]
    ∃ (trace : ServeTrace (List Item)) (final : Served),
      Run (serve sampleProducer) sampleServed trace final ∧
        callsOf trace = [datagram.call, datagram.call] ∧
        (sentIn trace).map Expanded.ofRecord =
          reference sampleProducer sampleExporter.sourceIP [datagram, datagram] := by
  intro datagram
  have executed : Run.replay (serve sampleProducer) [] sampleServed
    [.call datagram.call, .offer, .receive, .call datagram.call, .offer] = some (_, _) := rfl
  have run := Run.of_replay .start executed
  have own : ∀ d ∈ [datagram, datagram], d = datagram := by simp
  have known : ∀ d ∈ [datagram, datagram],
      sampleServed.pipe.producer.inv.lookup d.args.samplerAddress = some sampleExporter := by
    decide
  refine ⟨_, _, run, rfl, (sends_reference_iff sampleProducer_remembers run rfl rfl rfl ?_ known
    rfl).mpr ⟨?_, ?_, (selected_run run rfl).2.2.mp ?_⟩⟩
  · decide
  · intro front d back split awaiting
    have ready : d = datagram := own d (by rw [split]; simp)
    rw [ready] at awaiting
    contradiction
  · intro d member m listed
    rw [own d member] at listed
    have only : m = sampleMessage := by simpa [datagram, sampleDatagram] using listed
    rw [only]
    decide
  · decide +kernel

/-- The rate announced in one packet is not applied to the data of the next one. -/
theorem announced_rate_lost :
    RemembersRates sampleProducer some (fun memory sampler => memory sampler) ∧
    ∃ (trace : ServeTrace (List Item)) (final : Served),
      Run (serve sampleProducer) sampleServed trace final ∧ final.pipe.pending.records = [] ∧
        callsOf trace = [(sampleDatagram [.announce 1000]).call,
          (sampleDatagram [.flow sampleMessage]).call] ∧
        (sentIn trace).map (fun r => (r.packets, r.bytes, r.sampleRate)) = [(1, 100, 0)] ∧
        (reference sampleProducer sampleExporter.sourceIP [sampleDatagram [.announce 1000],
          sampleDatagram [.flow sampleMessage]]).map (fun r => (r.packets, r.bytes, r.rate)) =
          [(1000, 100000, 1000)] := by
  have executed : Run.replay (serve sampleProducer) [] sampleServed
    [.call (sampleDatagram [.announce 1000]).call,
      .call (sampleDatagram [.flow sampleMessage]).call, .offer] = some (_, _) := rfl
  exact ⟨sampleProducer_remembers, _, _, Run.of_replay .start executed, rfl, rfl,
    by decide +kernel, by decide +kernel⟩

end Mitigador.Ingest
