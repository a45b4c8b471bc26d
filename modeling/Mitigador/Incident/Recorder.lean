import Mitigador.Detect.Event
import Mitigador.Go.Chan
import Mitigador.Lib.Run

/-! The goroutine that persists the events (internal/incident/recorder.go), as the loop around the
calls of the store. A call whose context is canceled fails. -/

namespace Mitigador.Incident

open Go Detect Lib

/-- The contexts that `handle` is called with: that of `Run` and the one of `drain`. -/
inductive Context
  | run
  | drain
  deriving DecidableEq, Repr

structure Pass where
  ev : AttackEvent
  ctx : Context
  live : Bool

/-- Where `Run` stands: at its `select`, at the `select` of `drain`, in a call of the store. -/
inductive RunState
  | selecting
  | draining
  | handling (pass : Pass)
  | returned

structure Recorder where
  input : Chan AttackEvent
  canceled : Bool
  expired : Bool
  persisted : List AttackEvent
  run : RunState

/-- `expire` is the deadline of the drain context; `finish` is the return of a store call. -/
inductive Action
  | publish (ev : AttackEvent)
  | closeInput
  | cancel
  | expire
  | done
  | take
  | drainDone
  | drainTake
  | drainDefault
  | finish (persisted : Bool)

namespace Recorder

def new (input : Chan AttackEvent) : Recorder := ⟨input, false, false, [], .selecting⟩

def pass (r : Recorder) (ev : AttackEvent) : Context → Pass
  | .run => ⟨ev, .run, !r.canceled⟩
  | .drain => ⟨ev, .drain, !r.expired⟩

def handle (r : Recorder) (ctx : Context) (ev : AttackEvent) : Recorder × Option Pass :=
  ({ r with run := .handling (r.pass ev ctx) }, some (r.pass ev ctx))

/-- One step of `Run`, of the bus, of the contexts or of the store. Two ready cases of a `select`
are two actions; the default of `drain` needs that neither of its cases is ready. -/
def step (r : Recorder) : Action → Option (Recorder × Option Pass)
  | .publish ev =>
      match r.input.offer ev with
      | none => none
      | some (input, _) => some ({ r with input := input }, none)
  | .closeInput =>
      match r.input.close with
      | none => none
      | some input => some ({ r with input := input }, none)
  | .cancel => some ({ r with canceled := true }, none)
  | .expire =>
      match r.run with
      | .draining | .handling ⟨_, .drain, _⟩ => some ({ r with expired := true }, none)
      | _ => none
  | .done =>
      match r.run with
      | .selecting => if r.canceled then some ({ r with run := .draining }, none) else none
      | _ => none
  | .take =>
      match r.run with
      | .selecting =>
          match r.input.receive with
          | none => none
          -- the zero event of a closed channel has no known state and reaches no call
          | some (none, _) => some (r, none)
          | some (some ev, input) => some ({ r with input := input }.handle .run ev)
      | _ => none
  | .drainDone =>
      match r.run with
      | .draining => if r.expired then some ({ r with run := .returned }, none) else none
      | _ => none
  | .drainTake =>
      match r.run with
      | .draining =>
          match r.input.receive with
          | none => none
          | some (none, _) => some ({ r with run := .returned }, none)
          | some (some ev, input) => some ({ r with input := input }.handle .drain ev)
      | _ => none
  | .drainDefault =>
      match r.run, r.input.receive with
      | .draining, none => if r.expired then none else some ({ r with run := .returned }, none)
      | _, _ => none
  | .finish persisted =>
      match r.run with
      | .handling pass =>
          if persisted && !pass.live then none
          else
            some ({ r with
              persisted := if persisted then r.persisted ++ [pass.ev] else r.persisted
              run := match pass.ctx with | .run => .selecting | .drain => .draining }, none)
      | _ => none

end Recorder

abbrev Trace := List (Entry Recorder Action (Option Pass))

/-- What the input held at the moment at which the context of `Run` was canceled. -/
def buffered : Trace → List AttackEvent
  | [] => []
  | ⟨before, .cancel, _⟩ :: back =>
      if before.canceled then buffered back else before.input.buffer
  | _ :: back => buffered back

def passedSince : Trace → List Pass :=
  Run.collect fun entry => if entry.before.canceled then entry.output else none

end Mitigador.Incident
