import Mathlib.Logic.Function.Basic
import Mitigador.Detect.Event
import Mitigador.Go.Chan
import Mitigador.Lib.KeyedMap
import Mitigador.Lib.Run

/-! The broker of the event stream and its HTTP handlers (internal/api/sse.go). Each handler is
known by its own channel, so a client is named by the number of its handler. -/

namespace Mitigador.Api

open Go Detect Lib

structure SsePayload where
  id : String
  type : String
  data : String
  deriving DecidableEq, Repr

/-- The zero payload tells a handler to write a heartbeat. -/
def SsePayload.heartbeat : SsePayload := ⟨"", "", ""⟩

def SsePayload.text (p : SsePayload) : String :=
  if p.id = "" ∧ p.type = "" then ": heartbeat\n\n"
  else "id: " ++ p.id ++ "\nevent: " ++ p.type ++ "\ndata: " ++ p.data ++ "\n\n"

/-- The dynamic types of the values in `eventToMap`. -/
inductive Value
  | text (s : String)
  | count (n : UInt64)
  | ratio (x : Float)
  | time (t : Time)

def eventToMap (ev : AttackEvent) : List (String × Value) :=
  [("incident_id", .text ev.incidentID),
    ("state", .text ev.state.text),
    ("host_ip", .text ev.hostIP.text),
    ("vector", .text ev.vector.text),
    ("hostgroup", .text ev.hostgroup),
    ("pps", .count ev.pps),
    ("bps", .count ev.bps),
    ("peak_pps", .count ev.peakPps),
    ("peak_bps", .count ev.peakBps),
    ("confidence", .ratio ev.confidence),
    ("started_at", .time ev.startedAt),
    ("ended_at", .time ev.endedAt),
    ("now", .time ev.now)]

/-- Where a `Handler` call stands: at its send on `subscribe`, in its loop, at the deferred send
on `unsubscribe`. -/
inductive Phase
  | absent
  | subscribing
  | streaming
  | unsubscribing
  | returned
  deriving DecidableEq, Repr

structure Client where
  phase : Phase
  done : Bool
  ch : Chan SsePayload

/-- How `Broker.Run` stands; `canceled` tells whether it returned the error of its context. -/
inductive RunState
  | running
  | returned (canceled : Bool)
  | panicked
  deriving DecidableEq, Repr

structure Broker where
  input : Chan AttackEvent
  subscribe : Chan Nat
  unsubscribe : Chan Nat
  canceled : Bool
  clients : KeyedMap Nat Unit
  handlers : Nat → Client
  run : RunState

namespace Broker

def new (input : Chan AttackEvent) : Broker where
  input := input
  subscribe := Chan.make 4
  unsubscribe := Chan.make 4
  canceled := false
  clients := ∅
  handlers _ := ⟨.absent, false, Chan.make 16⟩
  run := .running

/-- The loop that sends to each client without waiting. The flag is false where a send panics;
the channels are distinct, so the order of the clients matters to nothing else. -/
def fanOut (p : SsePayload) : List Nat → (Nat → Client) → (Nat → Client) × Bool
  | [], handlers => (handlers, true)
  | c :: rest, handlers =>
      match (handlers c).ch.offer p with
      | none => (handlers, false)
      | some (ch, _) => fanOut p rest (Function.update handlers c { handlers c with ch := ch })

def closeAll : List Nat → (Nat → Client) → (Nat → Client) × Bool
  | [], handlers => (handlers, true)
  | c :: rest, handlers =>
      match (handlers c).ch.close with
      | none => (handlers, false)
      | some ch => closeAll rest (Function.update handlers c { handlers c with ch := ch })

inductive Case
  | done
  | subscribe
  | unsubscribe
  | input
  | tick
  deriving DecidableEq, Repr

def send (s : Broker) (p : SsePayload) : Broker :=
  let (handlers, finished) := fanOut p s.clients.keys s.handlers
  { s with handlers := handlers, run := if finished then .running else .panicked }

def shutdown (s : Broker) (canceled : Bool) : Broker :=
  let (handlers, finished) := closeAll s.clients.keys s.handlers
  { s with handlers := handlers, run := if finished then .returned canceled else .panicked }

/-- One turn of the loop of `Run` that picks the given case, which has to be ready. `marshal`
is the JSON encoding of a map. -/
def turn (marshal : List (String × Value) → Option String) (s : Broker) : Case → Option Broker
  | .done => if s.canceled then some (s.shutdown true) else none
  | .subscribe =>
      match s.subscribe.receive with
      | some (some c, subscribe) =>
          some { s with subscribe := subscribe, clients := s.clients.insert c () }
      | _ => none
  | .unsubscribe =>
      match s.unsubscribe.receive with
      | some (some c, unsubscribe) =>
          let s := { s with unsubscribe := unsubscribe, clients := s.clients.erase c }
          match (s.handlers c).ch.close with
          | none => some { s with run := .panicked }
          | some ch =>
              some { s with
                handlers := Function.update s.handlers c { s.handlers c with ch := ch } }
      | _ => none
  | .input =>
      match s.input.receive with
      | none => none
      | some (none, _) => some (s.shutdown false)
      | some (some ev, input) =>
          let s := { s with input := input }
          let evType := "attack." ++ ev.state.text
          match marshal (eventToMap ev) with
          | none => some s
          | some payload => some (s.send ⟨ev.incidentID, evType, payload⟩)
  | .tick => some (s.send .heartbeat)

inductive Move
  | subscribe
  | receive
  | leave
  | unsubscribe
  deriving DecidableEq, Repr

def move (s : Broker) (c : Nat) (client : Client) : Option (Broker × Option String) :=
  some ({ s with handlers := Function.update s.handlers c client }, none)

/-- `Handler` for a writer that can flush; any other call answers 500 and uses no channel. The
text is what the step writes to the client. -/
def handler (s : Broker) (c : Nat) : Move → Option (Broker × Option String)
  | .subscribe =>
      if (s.handlers c).phase = .subscribing then
        match s.subscribe.offer c with
        | some (subscribe, true) =>
            { s with subscribe := subscribe }.move c { s.handlers c with phase := .streaming }
        | _ => none
      else none
  | .receive =>
      if (s.handlers c).phase = .streaming then
        match (s.handlers c).ch.receive with
        | none => none
        | some (none, _) => s.move c { s.handlers c with phase := .unsubscribing }
        | some (some p, ch) =>
            some ({ s with
              handlers := Function.update s.handlers c { s.handlers c with ch := ch } },
              some p.text)
      else none
  | .leave =>
      if (s.handlers c).phase = .streaming ∧ (s.handlers c).done then
        s.move c { s.handlers c with phase := .unsubscribing }
      else none
  | .unsubscribe =>
      if (s.handlers c).phase = .unsubscribing then
        match s.unsubscribe.offer c with
        | some (unsubscribe, true) =>
            { s with unsubscribe := unsubscribe }.move c { s.handlers c with phase := .returned }
        | _ => none
      else none

inductive Action
  | connect (c : Nat)
  | disconnect (c : Nat)
  | handler (c : Nat) (m : Move)
  | publish (ev : AttackEvent)
  | closeInput
  | cancel
  | turn (case : Case)

/-- Any handler, the request contexts, the bus that feeds `input`, the context of `Run` and
`Run` itself take turns in any order. -/
def step (marshal : List (String × Value) → Option String) (s : Broker) :
    Action → Option (Broker × Option String)
  | .connect c =>
      if (s.handlers c).phase = .absent then
        s.move c ⟨.subscribing, false, Chan.make 16⟩
      else none
  | .disconnect c =>
      if (s.handlers c).phase ≠ .absent then s.move c { s.handlers c with done := true }
      else none
  | .handler c m => s.handler c m
  | .publish ev =>
      match s.input.offer ev with
      | none => none
      | some (input, _) => some ({ s with input := input }, none)
  | .closeInput =>
      match s.input.close with
      | none => none
      | some input => some ({ s with input := input }, none)
  | .cancel => some ({ s with canceled := true }, none)
  | .turn picked =>
      if s.run = .running then (s.turn marshal picked).map (·, none) else none

theorem turn_of_step {marshal : List (String × Value) → Option String} {s next : Broker}
    {picked : Case} {text : Option String}
    (moved : s.step marshal (.turn picked) = some (next, text)) :
    s.run = .running ∧ s.turn marshal picked = some next ∧ text = none := by
  by_cases running : s.run = .running
  · rw [step, if_pos running, Option.map_eq_some_iff] at moved
    obtain ⟨after, turned, same⟩ := moved
    cases same
    exact ⟨running, turned, rfl⟩
  · rw [step, if_neg running] at moved
    contradiction

end Broker

end Mitigador.Api
