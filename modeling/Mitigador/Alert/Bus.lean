import Mathlib.Logic.Function.Basic
import Mitigador.Detect.Event
import Mitigador.Go.Chan
import Mitigador.Lib.Run

/-! The alert bus (internal/alert/bus.go). Sends to the subscribers are single steps, so that
receives may fall between them. -/

namespace Mitigador.Alert

open Go Detect Lib

structure Subscriber where
  name : String
  ch : Nat
  deriving DecidableEq, Repr

/-- How `Run` stands: at its `select`, in the loop that offers an event to the channels left, in
the deferred loop that closes them; `canceled` tells whether it returns the error of its context. -/
inductive RunState
  | selecting
  | offering (ev : AttackEvent) (rest : List Nat)
  | closing (canceled : Bool) (rest : List Nat)
  | returned (canceled : Bool)
  | panicked

structure Bus where
  input : Chan AttackEvent
  perSinkBuffer : Nat
  subs : List Subscriber
  chans : Nat → Chan AttackEvent
  canceled : Bool
  run : RunState

inductive Action
  | publish (ev : AttackEvent)
  | closeInput
  | cancel
  | receive (c : Nat)
  | done
  | consume
  | offer
  | close

inductive Seen
  | nothing
  | published (ev : AttackEvent)
  | consumed (ev : AttackEvent)
  | offered (c : Nat) (ev : AttackEvent) (sent : Bool)
  | received (c : Nat) (ev : AttackEvent)

namespace Bus

def new (input : Chan AttackEvent) (perSinkBuffer : Int) : Bus where
  input := input
  perSinkBuffer := if perSinkBuffer < 1 then 256 else perSinkBuffer.toNat
  subs := []
  chans _ := Chan.make 0
  canceled := false
  run := .selecting

def subscribe (b : Bus) (name : String) : Bus :=
  { b with
    subs := b.subs ++ [⟨name, b.subs.length⟩]
    chans := Function.update b.chans b.subs.length (Chan.make b.perSinkBuffer) }

def start (input : Chan AttackEvent) (perSinkBuffer : Int) (names : List String) : Bus :=
  names.foldl subscribe (new input perSinkBuffer)

def sinks (b : Bus) : List Nat := b.subs.map Subscriber.ch

/-- One step of `Run`, of the producer, of the context or of a subscriber. A subscriber that
finds its channel closed and empty sees nothing. -/
def step (b : Bus) : Action → Option (Bus × Seen)
  | .publish ev =>
      match b.input.offer ev with
      | none => none
      | some (input, sent) =>
          some ({ b with input := input }, if sent then .published ev else .nothing)
  | .closeInput =>
      match b.input.close with
      | none => none
      | some input => some ({ b with input := input }, .nothing)
  | .cancel => some ({ b with canceled := true }, .nothing)
  | .receive c =>
      match (b.chans c).receive with
      | none => none
      | some (none, _) => some (b, .nothing)
      | some (some ev, ch) =>
          some ({ b with chans := Function.update b.chans c ch }, .received c ev)
  | .done =>
      match b.run with
      | .selecting =>
          if b.canceled then some ({ b with run := .closing true b.sinks }, .nothing) else none
      | _ => none
  | .consume =>
      match b.run with
      | .selecting =>
          match b.input.receive with
          | none => none
          | some (none, _) => some ({ b with run := .closing false b.sinks }, .nothing)
          | some (some ev, input) =>
              some ({ b with input := input, run := .offering ev b.sinks }, .consumed ev)
      | _ => none
  | .offer =>
      match b.run with
      | .offering ev (c :: rest) =>
          match (b.chans c).offer ev with
          | none => some ({ b with run := .panicked }, .nothing)
          | some (ch, sent) =>
              some ({ b with
                chans := Function.update b.chans c ch
                run := .offering ev rest }, .offered c ev sent)
      | .offering _ [] => some ({ b with run := .selecting }, .nothing)
      | _ => none
  | .close =>
      match b.run with
      | .closing canceled (c :: rest) =>
          match (b.chans c).close with
          | none => some ({ b with run := .panicked }, .nothing)
          | some ch =>
              some ({ b with
                chans := Function.update b.chans c ch
                run := .closing canceled rest }, .nothing)
      | .closing canceled [] => some ({ b with subs := [], run := .returned canceled }, .nothing)
      | _ => none

end Bus

abbrev Trace := List (Entry Bus Action Seen)

def Seen.publishedEvent : Seen → Option AttackEvent
  | .published ev => some ev
  | _ => none

def Seen.consumedEvent : Seen → Option AttackEvent
  | .consumed ev => some ev
  | _ => none

def Seen.offeredTo (c : Nat) : Seen → Option (AttackEvent × Bool)
  | .offered d ev sent => if d = c then some (ev, sent) else none
  | _ => none

def Seen.receivedBy (c : Nat) : Seen → Option AttackEvent
  | .received d ev => if d = c then some ev else none
  | _ => none

def publishedIn : Trace → List AttackEvent := Run.collect fun entry => entry.output.publishedEvent

def consumedIn : Trace → List AttackEvent := Run.collect fun entry => entry.output.consumedEvent

def offeredTo (c : Nat) : Trace → List (AttackEvent × Bool) :=
  Run.collect fun entry => entry.output.offeredTo c

def receivedBy (c : Nat) : Trace → List AttackEvent :=
  Run.collect fun entry => entry.output.receivedBy c

end Mitigador.Alert
