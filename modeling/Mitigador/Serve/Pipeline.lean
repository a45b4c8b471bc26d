import Mitigador.Alert.FanOut
import Mitigador.Detect.EngineRun
import Mitigador.Incident.Consistency
import Mitigador.Incident.Drain
import Mitigador.Ingest.Expansion

/-! The goroutines between a datagram and the tables (cmd/mitigador/serve.go): three listeners, the
writer, the engine, the bus and the recorder, one step of any of them at a time. A tick is taken
apart, so that the writer may run between the evaluations of two hosts.

`store.Tick` and `store.ActiveHosts` lock one shard after the other and are one step each. A record
counted in between concerns one host, and the lock of its shard puts it before the call or behind
it; put there, it passes only records of other hosts, and updates of different hosts commute. So
the order of the steps is the program's for each host, and nothing below compares the records of
two hosts by their order. -/

namespace Mitigador.Serve

open Go Mitigador.Flow Lib Aggregate Detect

inductive Writer
  | selecting
  | holding (r : Record)
  | returned

/-- `Engine.Run`: at its `select`, after `store.Tick`, or in the loop over the active hosts. -/
inductive Loop
  | selecting
  | ticked (now : Time)
  | evaluating (now : Time) (hosts : List HostInfo)
  | returned

/-- The bus holds the channels that it shares with the engine and with the recorder. -/
structure Pipeline (ρ : Type*) where
  producer : Ingest.ChannelProducer
  calls : Fin 3 → Ingest.Pending
  writer : Writer
  engine : Engine ρ
  loop : Loop
  bus : Alert.Bus
  recorder : Incident.Recorder
  db : Incident.Database

namespace Pipeline

inductive Action (Packet : Type)
  | call (n : Fin 3) (call : Ingest.Call Packet)
  | offer (n : Fin 3)
  | take
  | update
  | writerDone
  | tick (now : Time)
  | activeHosts (hosts : List HostInfo)
  | evalHost
  | engineDone
  | bus (action : Alert.Action)
  | recorder (action : Incident.Action)
  | store (fault : Incident.Fault) (now : Time)
  | cancel

inductive Seen
  | nothing
  | called (records : List Record)
  | counted (r : Record)
  | ticked (sec : Int)
  | evaluated (ip : Addr) (now : Time) (ev : Option AttackEvent)
  | stored (ev : AttackEvent)

def Seen.emittedEvent : Seen → Option AttackEvent
  | .evaluated _ _ ev => ev
  | _ => none

def Seen.storedEvent : Seen → Option AttackEvent
  | .stored ev => some ev
  | _ => none

def incSub : Nat := 3

def ofBus : Alert.Action → Bool
  | .done | .consume | .offer | .close => true
  | .receive c => c != incSub
  | .publish _ | .closeInput | .cancel => false

def ofRecorder : Incident.Action → Bool
  | .done | .take | .expire | .drainDone | .drainTake | .drainDefault => true
  | .publish _ | .closeInput | .cancel | .finish _ => false

def start {ρ : Type*} (inv : Ingest.Inventory) (defaultNumShards numCPU : Int) (catalog : Catalog)
    (rnd : ρ) (db : Incident.Database) : Pipeline ρ where
  producer := ⟨inv, Ingest.HealthTracker.new, Chan.make 8192, 0⟩
  calls _ := ⟨.invalid, []⟩
  writer := .selecting
  engine := Engine.new (Store.new defaultNumShards numCPU) catalog (Chan.make 256) rnd
  loop := .selecting
  bus := Alert.Bus.start (Chan.make 256) 256 ["telegram", "email", "sse", "incident"]
  recorder := Incident.Recorder.new (Chan.make 256)
  db := db

variable {ρ : Type*} {Packet : Type} (newULID : ρ → Time → String × ρ)
  (pp : Ingest.ProtoProducer Packet)

def step (s : Pipeline ρ) : Action Packet → Option (Pipeline ρ × Seen)
  | .call n call =>
      match Ingest.step pp ⟨s.producer, s.calls n⟩ (.call call) with
      | none => none
      | some (pipe, _) =>
          some ({ s with calls := Function.update s.calls n pipe.pending },
            .called pipe.pending.records)
  | .offer n =>
      match Ingest.step pp ⟨s.producer, s.calls n⟩ .offer with
      | none => none
      | some (pipe, _) =>
          some ({ s with
            producer := pipe.producer
            calls := Function.update s.calls n pipe.pending }, .nothing)
  | .take =>
      match s.writer, s.producer.out.receive with
      | .selecting, some (some r, out) =>
          some ({ s with producer := { s.producer with out := out }, writer := .holding r },
            .nothing)
      | .selecting, some (none, _) => some ({ s with writer := .returned }, .nothing)
      | _, _ => none
  | .update =>
      match s.writer with
      | .holding r =>
          some ({ s with
            writer := .selecting
            engine := { s.engine with
              store := s.engine.store.update r.dstIP r.received.unix r } }, .counted r)
      | _ => none
  | .writerDone =>
      match s.writer with
      | .selecting => if s.bus.canceled then some ({ s with writer := .returned }, .nothing) else none
      | _ => none
  | .tick now =>
      match s.loop with
      | .selecting =>
          some ({ s with
            loop := .ticked now
            engine := { s.engine with store := s.engine.store.tick now.unix } }, .ticked now.unix)
      | _ => none
  | .activeHosts hosts =>
      match s.loop with
      | .ticked now =>
          if hosts.Perm (s.engine.store.activeHosts now.unix) then
            some ({ s with loop := .evaluating now hosts }, .nothing)
          else none
      | _ => none
  | .evalHost =>
      match s.loop with
      | .evaluating now (h :: rest) =>
          match Engine.evalHost newULID now.unix now { s.engine with out := s.bus.input } h.ip with
          | none => none
          | some (engine, ev) =>
              some ({ s with
                engine := engine
                bus := { s.bus with input := engine.out }
                loop := .evaluating now rest }, .evaluated h.ip now ev)
      | .evaluating _ [] => some ({ s with loop := .selecting }, .nothing)
      | _ => none
  | .engineDone =>
      match s.loop with
      | .selecting => if s.bus.canceled then some ({ s with loop := .returned }, .nothing) else none
      | _ => none
  | .bus action =>
      if ofBus action then
        match s.bus.step action with
        | none => none
        | some (bus, _) => some ({ s with bus := bus }, .nothing)
      else none
  | .recorder action =>
      if ofRecorder action then
        match ({ s.recorder with input := s.bus.chans incSub }).step action with
        | none => none
        | some (recorder, _) =>
            some ({ s with
              recorder := recorder
              bus := { s.bus with chans := Function.update s.bus.chans incSub recorder.input } },
              .nothing)
      else none
  | .store fault now =>
      match s.recorder.run with
      | .handling pass =>
          -- a call with a canceled context fails at its start
          if !pass.live && fault != .begin then none
          else
            match s.recorder.step (.finish (fault == .none)) with
            | none => none
            | some (recorder, _) =>
                some ({ s with
                  recorder := recorder
                  db := Incident.Store.handle fault now pass.ev s.db }, .stored pass.ev)
      | _ => none
  | .cancel =>
      some ({ s with
        bus := { s.bus with canceled := true }
        recorder := { s.recorder with canceled := true } }, .nothing)

variable {newULID pp}

inductive Moved (newULID : ρ → Time → String × ρ) (pp : Ingest.ProtoProducer Packet)
    (s : Pipeline ρ) : Action Packet → Pipeline ρ → Seen → Prop
  | call {n call pipe output}
      (called : Ingest.step pp ⟨s.producer, s.calls n⟩ (.call call) = some (pipe, output)) :
      Moved newULID pp s (.call n call)
        { s with calls := Function.update s.calls n pipe.pending } (.called pipe.pending.records)
  | offer {n pipe output}
      (offered : Ingest.step pp ⟨s.producer, s.calls n⟩ .offer = some (pipe, output)) :
      Moved newULID pp s (.offer n)
        { s with producer := pipe.producer, calls := Function.update s.calls n pipe.pending }
        .nothing
  | take {r out} (selecting : s.writer = .selecting)
      (received : s.producer.out.receive = some (some r, out)) :
      Moved newULID pp s .take
        { s with producer := { s.producer with out := out }, writer := .holding r } .nothing
  | leave {action} (selecting : s.writer = .selecting) :
      Moved newULID pp s action { s with writer := .returned } .nothing
  | update {r} (holding : s.writer = .holding r) :
      Moved newULID pp s .update
        { s with
          writer := .selecting
          engine := { s.engine with
            store := s.engine.store.update r.dstIP r.received.unix r } } (.counted r)
  | tick {now} (selecting : s.loop = .selecting) :
      Moved newULID pp s (.tick now)
        { s with
          loop := .ticked now
          engine := { s.engine with store := s.engine.store.tick now.unix } } (.ticked now.unix)
  | activeHosts {now hosts} (ticked : s.loop = .ticked now)
      (order : hosts.Perm (s.engine.store.activeHosts now.unix)) :
      Moved newULID pp s (.activeHosts hosts) { s with loop := .evaluating now hosts } .nothing
  | rest {action loop} (between : (∃ now, s.loop = .evaluating now []) ∨ s.loop = .selecting)
      (idle : loop = .selecting ∨ loop = .returned) :
      Moved newULID pp s action { s with loop := loop } .nothing
  | evalHost {now h rest engine ev} (evaluating : s.loop = .evaluating now (h :: rest))
      (evaluated : Engine.evalHost newULID now.unix now { s.engine with out := s.bus.input } h.ip =
        some (engine, ev)) :
      Moved newULID pp s .evalHost
        { s with
          engine := engine
          bus := { s.bus with input := engine.out }
          loop := .evaluating now rest } (.evaluated h.ip now ev)
  | bus {action bus seen} (own : ofBus action = true)
      (stepped : s.bus.step action = some (bus, seen)) :
      Moved newULID pp s (.bus action) { s with bus := bus } .nothing
  | recorder {action recorder pass} (own : ofRecorder action = true)
      (stepped : ({ s.recorder with input := s.bus.chans incSub }).step action =
        some (recorder, pass)) :
      Moved newULID pp s (.recorder action)
        { s with
          recorder := recorder
          bus := { s.bus with chans := Function.update s.bus.chans incSub recorder.input } }
        .nothing
  | store {fault now pass recorder} (handling : s.recorder.run = .handling pass)
      (finished : s.recorder.step (.finish (fault == .none)) = some (recorder, none)) :
      Moved newULID pp s (.store fault now)
        { s with recorder := recorder, db := Incident.Store.handle fault now pass.ev s.db }
        (.stored pass.ev)
  | cancel :
      Moved newULID pp s .cancel
        { s with
          bus := { s.bus with canceled := true }
          recorder := { s.recorder with canceled := true } } .nothing

theorem step_cases {s next : Pipeline ρ} {action : Action Packet} {seen : Seen}
    (stepped : s.step newULID pp action = some (next, seen)) :
    Moved newULID pp s action next seen := by
  cases action with
  | call n call =>
      simp only [step] at stepped
      split at stepped
      · contradiction
      · next called =>
          cases stepped
          exact .call called
  | offer n =>
      simp only [step] at stepped
      split at stepped
      · contradiction
      · next offered =>
          cases stepped
          exact .offer offered
  | take =>
      simp only [step] at stepped
      split at stepped
      · next selecting received =>
          cases stepped
          exact .take selecting received
      · next selecting ended =>
          cases stepped
          exact .leave selecting
      · contradiction
  | update =>
      simp only [step] at stepped
      split at stepped
      · next holding =>
          cases stepped
          exact .update holding
      · contradiction
  | writerDone =>
      simp only [step] at stepped
      split at stepped
      · next selecting =>
          split at stepped
          · cases stepped
            exact .leave selecting
          · contradiction
      · contradiction
  | tick now =>
      simp only [step] at stepped
      split at stepped
      · next selecting =>
          cases stepped
          exact .tick selecting
      · contradiction
  | activeHosts hosts =>
      simp only [step] at stepped
      split at stepped
      · next ticked =>
          split at stepped
          · next order =>
              cases stepped
              exact .activeHosts ticked order
          · contradiction
      · contradiction
  | evalHost =>
      simp only [step] at stepped
      split at stepped
      · next evaluating =>
          split at stepped
          · contradiction
          · next evaluated =>
              cases stepped
              exact .evalHost evaluating evaluated
      · next now evaluating =>
          cases stepped
          exact .rest (.inl ⟨now, evaluating⟩) (.inl rfl)
      · contradiction
  | engineDone =>
      simp only [step] at stepped
      split at stepped
      · next selecting =>
          split at stepped
          · cases stepped
            exact .rest (.inr selecting) (.inr rfl)
          · contradiction
      · contradiction
  | bus action =>
      simp only [step] at stepped
      split at stepped
      · next own =>
          split at stepped
          · contradiction
          · next moved =>
              cases stepped
              exact .bus own moved
      · contradiction
  | recorder action =>
      simp only [step] at stepped
      split at stepped
      · next own =>
          split at stepped
          · contradiction
          · next moved =>
              cases stepped
              exact .recorder own moved
      · contradiction
  | store fault now =>
      simp only [step] at stepped
      split at stepped
      · next pass handling =>
          split at stepped
          · contradiction
          · split at stepped
            · contradiction
            · next recorder output finished =>
                cases stepped
                cases Incident.Recorder.step_cases finished with
                | finish same => exact .store handling finished
                | empty picked => rcases picked with impossible | impossible <;> contradiction
      · contradiction
  | cancel =>
      cases stepped
      exact .cancel

abbrev Trace (ρ : Type*) (Packet : Type) := List (Entry (Pipeline ρ) (Action Packet) Seen)

def emitted : Trace ρ Packet → List AttackEvent :=
  Run.collect fun entry => entry.output.emittedEvent

def stored : Trace ρ Packet → List AttackEvent := Run.collect fun entry => entry.output.storedEvent

theorem emitted_cons (entry : Entry (Pipeline ρ) (Action Packet) Seen) (trace : Trace ρ Packet) :
    emitted (entry :: trace) = emitted trace ++ entry.output.emittedEvent.toList :=
  Run.collect_cons ..

theorem stored_cons (entry : Entry (Pipeline ρ) (Action Packet) Seen) (trace : Trace ρ Packet) :
    stored (entry :: trace) = stored trace ++ entry.output.storedEvent.toList :=
  Run.collect_cons ..

def floodCall : Ingest.Call Empty where
  msg := .decoded ⟨17, 200, 5000, 0, [198, 51, 100, 1], [192, 0, 2, 1]⟩
  args := some Ingest.samplerArgs
  clock := fun _ => Time.zero

def samplePipeline : Pipeline Nat :=
  start Ingest.sampleInventory 1 1
    ⟨[sampleThreshold 1000 800 1 1], List.pairwise_singleton _ _⟩ 0 Incident.Process.emptyDatabase

def sampleActions : List (Action Empty) :=
  [.call 0 floodCall, .offer 0, .take, .update, .tick (Time.ofUnix 100),
    .activeHosts [⟨sampleHost, 100⟩], .evalHost, .bus .consume, .bus .offer, .bus .offer,
    .bus .offer, .bus .offer, .recorder .take, .store .none (Time.ofUnix 101)]

theorem sample_run : ∃ (trace : Trace Nat Empty) (final : Pipeline Nat) (row : Incident.IncidentRow),
    Run (step countingULID Ingest.decodedProducer) samplePipeline trace final ∧
      final.db.incidents.lookup "0" = some row := by
  have executed : ((Run.replay (step countingULID Ingest.decodedProducer) [] samplePipeline
      sampleActions).map fun made => (made.2.db.incidents.lookup "0").isSome) = some true := by
    decide +kernel
  obtain ⟨⟨trace, final⟩, replayed, recorded⟩ := Option.map_eq_some_iff.mp executed
  obtain ⟨row, found⟩ := Option.isSome_iff_exists.mp recorded
  exact ⟨trace, final, row, Run.of_replay .start replayed, found⟩

end Pipeline

end Mitigador.Serve
