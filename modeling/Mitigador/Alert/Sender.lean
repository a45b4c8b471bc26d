import Mitigador.Detect.Event
import Mitigador.Go.Chan
import Mitigador.Lib.Retry
import Mitigador.Lib.Run

/-! The Telegram sender (internal/alert/telegram/sender.go): `Run` and its worker with the queue
between them. The token buckets only delay a call, or refuse it once the context is done; the texts
of `Format` and the replies of the API are parameters. -/

namespace Mitigador.Alert.Telegram

open Go Detect Lib

def queueSize : Nat := 1000
def maxRetries : Nat := 3

/-- A message for one chat, with the number of its event and the place of its chat in the list; the
code tells messages apart by neither. -/
structure Message where
  chatID : Int64
  text : String
  event : Nat
  place : Nat
  deriving DecidableEq, Repr

structure Outbound extends Message where
  attempts : Nat
  deriving DecidableEq, Repr

/-- Where `Run` stands: at its `select`, or with the messages of an event still to queue. -/
inductive Running
  | selecting
  | queueing (rest : List Message)
  | returned
  deriving DecidableEq, Repr

/-- Where the worker stands: at its `select`, in `send` before the call, or after a 429. -/
inductive Worker
  | selecting
  | sending (out : Outbound)
  | backingOff (out : Outbound)
  | returned
  deriving DecidableEq, Repr

structure Sender where
  chatIDs : List Int64
  queue : Chan Outbound
  events : Nat
  run : Running
  worker : Worker
  canceled : Bool

def Sender.start (chatIDs : List Int64) : Sender :=
  ⟨chatIDs, Chan.make queueSize, 0, .selecting, .selecting, false⟩

inductive Reply
  | ok
  | tooManyRequests
  | failed
  deriving DecidableEq, Repr

inductive Action
  | cancel
  | event (ev : AttackEvent)
  | inputClosed
  | runDone
  | enqueue
  | workerDone
  | take
  | refuse
  | call (reply : Reply)
  | backOffDone
  | retry

inductive Outcome
  | quiet
  | formatted (messages : List Message)
  | called (message : Message) (reply : Reply)
  | requeued (message : Message) (passed : List Message)
  deriving DecidableEq, Repr

def messagesFor (chatIDs : List Int64) (text : String) (event : Nat) : List Message :=
  chatIDs.zipIdx.map fun (chatID, place) => ⟨chatID, text, event, place⟩

variable (format : AttackEvent → String)

def step (s : Sender) : Action → Option (Sender × Outcome)
  | .cancel => some ({ s with canceled := true }, .quiet)
  | .event ev =>
      match s.run with
      | .selecting =>
          if format ev = "" then some ({ s with events := s.events + 1 }, .quiet)
          else
            let messages := messagesFor s.chatIDs (format ev) s.events
            some ({ s with events := s.events + 1, run := .queueing messages }, .formatted messages)
      | _ => none
  | .inputClosed =>
      match s.run with
      | .selecting => some ({ s with run := .returned }, .quiet)
      | _ => none
  | .runDone =>
      match s.run, s.canceled with
      | .selecting, true => some ({ s with run := .returned }, .quiet)
      | _, _ => none
  | .enqueue =>
      match s.run with
      | .queueing [] => some ({ s with run := .selecting }, .quiet)
      | .queueing (message :: rest) =>
          -- a full queue drops the message
          match s.queue.offer ⟨message, 0⟩ with
          | none => none
          | some (queue, _) => some ({ s with queue := queue, run := .queueing rest }, .quiet)
      | _ => none
  | .workerDone =>
      match s.worker, s.canceled with
      | .selecting, true => some ({ s with worker := .returned }, .quiet)
      | _, _ => none
  | .take =>
      match s.worker, s.queue.receive with
      | .selecting, some (some out, queue) =>
          some ({ s with queue := queue, worker := .sending out }, .quiet)
      | _, _ => none
  | .refuse =>
      match s.worker, s.canceled with
      | .sending _, true => some ({ s with worker := .selecting }, .quiet)
      | _, _ => none
  | .call reply =>
      match s.worker with
      | .sending out =>
          match reply with
          | .tooManyRequests =>
              some ({ s with worker := .backingOff out }, .called out.toMessage reply)
          | .ok | .failed => some ({ s with worker := .selecting }, .called out.toMessage reply)
      | _ => none
  | .backOffDone =>
      match s.worker, s.canceled with
      | .backingOff _, true => some ({ s with worker := .selecting }, .quiet)
      | _, _ => none
  | .retry =>
      match s.worker with
      | .backingOff out =>
          if out.attempts + 1 ≥ maxRetries then some ({ s with worker := .selecting }, .quiet)
          else
            match s.queue.offer { out with attempts := out.attempts + 1 } with
            | none => none
            | some (queue, true) =>
                some ({ s with queue := queue, worker := .selecting },
                  .requeued out.toMessage (s.queue.buffer.map Outbound.toMessage))
            | some (_, false) => some ({ s with worker := .selecting }, .quiet)
      | _ => none

end Mitigador.Alert.Telegram
