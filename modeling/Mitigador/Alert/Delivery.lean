import Mitigador.Alert.Sender

/-! What the sender delivers: its worker, its queue and the messages still to queue are one line. -/

namespace Mitigador.Alert.Telegram

open Go Detect Lib

def Worker.held : Worker → List (Message × Nat)
  | .sending out => [(out.toMessage, out.attempts)]
  | .backingOff out => [(out.toMessage, out.attempts + 1)]
  | .selecting | .returned => []

def Worker.outbound : Worker → Option Outbound
  | .sending out | .backingOff out => some out
  | .selecting | .returned => none

def Running.coming : Running → List Message
  | .queueing rest => rest
  | .selecting | .returned => []

def Outbound.queued (out : Outbound) : Message × Nat := (out.toMessage, out.attempts)

def Sender.line (s : Sender) : List (Message × Nat) :=
  s.worker.held ++ (s.queue.buffer.map Outbound.queued ++ s.run.coming.map fun m => (m, 0))

def Outcome.effect : Outcome → Effect Message
  | .quiet => .lost
  | .formatted messages => .joined messages
  | .called message .ok => .tried message true
  | .called message .tooManyRequests | .called message .failed => .tried message false
  | .requeued message passed => .requeued message passed

structure Sender.Few (s : Sender) : Prop where
  queue : ∀ out ∈ s.queue.buffer, out.attempts < maxRetries
  held : ∀ out, s.worker.outbound = some out → out.attempts < maxRetries

theorem Sender.few_start (chatIDs : List Int64) : (Sender.start chatIDs).Few where
  queue := fun _ member => nomatch member
  held := fun _ impossible => nomatch impossible

def Action.reads : Action → List AttackEvent
  | .event ev => [ev]
  | _ => []

/-- What a step may tell of messages: those of the event it reads, a call, or that the message of
the worker comes back behind all that is in the queue. -/
inductive Told (format : AttackEvent → String) (s : Sender) : Action → Outcome → Prop
  | quiet (action : Action) : Told format s action .quiet
  | formatted (ev : AttackEvent) :
      Told format s (.event ev) (.formatted (messagesFor s.chatIDs (format ev) s.events))
  | called (message : Message) (reply : Reply) : Told format s (.call reply) (.called message reply)
  | requeued (out : Outbound) (held : s.worker = .backingOff out)
      (more : out.attempts + 1 < maxRetries) :
      Told format s .retry
        (.requeued out.toMessage (s.queue.buffer.map Outbound.toMessage))

variable {format : AttackEvent → String}

theorem Told.news {s : Sender} {action : Action} {outcome : Outcome}
    (told : Told format s action outcome) : outcome.effect.news = [] ∨
      ∃ ev, action = .event ev ∧
        outcome.effect.news = messagesFor s.chatIDs (format ev) s.events := by
  cases told with
  | quiet | requeued => exact .inl rfl
  | called _ reply =>
      left
      cases reply <;> rfl
  | formatted ev => exact .inr ⟨ev, rfl, rfl⟩

section Step

variable {s next : Sender} {outcome : Outcome}

theorem event_move {ev : AttackEvent} (few : s.Few)
    (moved : step format s (.event ev) = some (next, outcome)) :
    Move maxRetries s.line outcome.effect next.line ∧ next.Few := by
  obtain ⟨chatIDs, queue, events, run, worker, canceled⟩ := s
  obtain ⟨inQueue, holding⟩ := few
  cases run with
  | queueing | returned => contradiction
  | selecting =>
      simp only [step] at moved
      split at moved
      · cases moved
        exact ⟨.lose (.refl _), inQueue, holding⟩
      · cases moved
        refine ⟨?_, inQueue, holding⟩
        have joins : Move maxRetries _ _ _ := .join
          (worker.held ++ (queue.buffer.map Outbound.queued ++ []))
          (messagesFor chatIDs (format ev) events)
        rw [List.append_nil, List.append_assoc] at joins
        simpa [Sender.line, Running.coming, Outcome.effect] using joins

theorem enqueue_move (few : s.Few) (moved : step format s .enqueue = some (next, outcome)) :
    Move maxRetries s.line outcome.effect next.line ∧ next.Few := by
  obtain ⟨chatIDs, queue, events, run, worker, canceled⟩ := s
  obtain ⟨inQueue, holding⟩ := few
  cases run with
  | selecting | returned => contradiction
  | queueing rest =>
      cases rest with
      | nil =>
          cases moved
          exact ⟨.lose (.refl _), inQueue, holding⟩
      | cons message rest =>
          simp only [step] at moved
          split at moved
          · contradiction
          · next after sent offered =>
              cases moved
              obtain ⟨-, -, buffer, -⟩ := Chan.offer_spec offered
              have kept : (worker.held ++ (after.buffer.map Outbound.queued ++
                  rest.map fun m => (m, 0))).Sublist
                  (worker.held ++ (queue.buffer.map Outbound.queued ++
                    (message :: rest).map fun m => (m, 0))) := by
                apply List.Sublist.append_left
                rw [buffer]
                cases sent with
                | true => simp [Outbound.queued]
                | false => simp
              refine ⟨.lose kept, fun out member => ?_, holding⟩
              rw [buffer] at member
              rcases List.mem_append.mp member with before | new
              · exact inQueue out before
              · cases sent with
                | true =>
                    rw [List.mem_singleton.mp new]
                    exact Nat.succ_pos 2
                | false => contradiction

theorem take_move (few : s.Few) (moved : step format s .take = some (next, outcome)) :
    Move maxRetries s.line outcome.effect next.line ∧ next.Few := by
  obtain ⟨chatIDs, queue, events, run, worker, canceled⟩ := s
  obtain ⟨inQueue, holding⟩ := few
  simp only [step] at moved
  split at moved
  · next out after received =>
      cases moved
      have buffer : queue.buffer = out :: after.buffer := Chan.receive_value received
      have same : Sender.line ⟨chatIDs, queue, events, run, .selecting, canceled⟩ =
          Sender.line ⟨chatIDs, after, events, run, .sending out, canceled⟩ := by
        simp [Sender.line, Worker.held, Outbound.queued, buffer]
      rw [same]
      rw [buffer] at inQueue
      refine ⟨.lose (.refl _), fun other member => inQueue other (List.mem_cons_of_mem _ member),
        fun other held => ?_⟩
      cases held
      exact inQueue out List.mem_cons_self
  · contradiction

theorem call_move {reply : Reply} (few : s.Few)
    (moved : step format s (.call reply) = some (next, outcome)) :
    Move maxRetries s.line outcome.effect next.line ∧ next.Few := by
  obtain ⟨chatIDs, queue, events, run, worker, canceled⟩ := s
  obtain ⟨inQueue, holding⟩ := few
  cases worker with
  | selecting | backingOff | returned => contradiction
  | sending out =>
      have more : out.attempts < maxRetries := holding out rfl
      cases reply with
      | tooManyRequests =>
          cases moved
          exact ⟨.stay _ _ _ more, inQueue, holding⟩
      | ok | failed =>
          cases moved
          exact ⟨.leave _ _ _ _ more, inQueue, fun _ impossible => nomatch impossible⟩

theorem retry_move (few : s.Few) (moved : step format s .retry = some (next, outcome)) :
    Move maxRetries s.line outcome.effect next.line ∧ next.Few := by
  obtain ⟨chatIDs, queue, events, run, worker, canceled⟩ := s
  obtain ⟨inQueue, holding⟩ := few
  cases worker with
  | selecting | sending | returned => contradiction
  | backingOff out =>
      have dropped : Move maxRetries
          (Sender.line ⟨chatIDs, queue, events, run, .backingOff out, canceled⟩) .lost
          (Sender.line ⟨chatIDs, queue, events, run, .selecting, canceled⟩) :=
        .lose (List.sublist_cons_self _ _)
      simp only [step] at moved
      split at moved
      · cases moved
        exact ⟨dropped, inQueue, fun _ impossible => nomatch impossible⟩
      · next more =>
          split at moved
          · contradiction
          · next after offered =>
              cases moved
              have buffer := Chan.offer_sent offered
              refine ⟨?_, fun other member => ?_, fun _ impossible => nomatch impossible⟩
              · have again : Move maxRetries _ _ _ := .requeue out.toMessage (out.attempts + 1)
                  (queue.buffer.map Outbound.queued) (run.coming.map fun m => (m, 0))
                simpa [Sender.line, Worker.held, Outcome.effect, Outbound.queued, buffer,
                  Function.comp_def] using again
              · rw [buffer] at member
                rcases List.mem_append.mp member with before | new
                · exact inQueue other before
                · rw [List.mem_singleton.mp new]
                  exact Nat.not_le.mp more
          · cases moved
            exact ⟨dropped, inQueue, fun _ impossible => nomatch impossible⟩

theorem step_move {action : Action} (few : s.Few)
    (moved : step format s action = some (next, outcome)) :
    Move maxRetries s.line outcome.effect next.line ∧ next.Few := by
  cases action with
  | event ev => exact event_move few moved
  | enqueue => exact enqueue_move few moved
  | take => exact take_move few moved
  | call reply => exact call_move few moved
  | retry => exact retry_move few moved
  | cancel =>
      cases moved
      exact ⟨.lose (.refl _), few.queue, few.held⟩
  | inputClosed | runDone =>
      simp only [step] at moved
      split at moved
      · cases moved
        have same : ({ s with run := .returned } : Sender).line = s.line := by
          simp [Sender.line, Running.coming, *]
        rw [← same]
        exact ⟨.lose (.refl _), few.queue, few.held⟩
      · contradiction
  | workerDone | refuse | backOffDone =>
      simp only [step] at moved
      split at moved
      · cases moved
        refine ⟨.lose ?_, few.queue, fun _ impossible => nomatch impossible⟩
        exact List.sublist_append_right _ _
      · contradiction

theorem step_told {action : Action} (moved : step format s action = some (next, outcome)) :
    next.chatIDs = s.chatIDs ∧ next.events = s.events + action.reads.length ∧
      Told format s action outcome := by
  cases action with
  | cancel =>
      cases moved
      exact ⟨rfl, rfl, .quiet _⟩
  | event ev =>
      simp only [step] at moved
      split at moved
      · split at moved
        · cases moved
          exact ⟨rfl, rfl, .quiet _⟩
        · cases moved
          exact ⟨rfl, rfl, .formatted ev⟩
      · contradiction
  | inputClosed | runDone | workerDone | refuse | backOffDone | take =>
      simp only [step] at moved
      split at moved
      · cases moved
        exact ⟨rfl, rfl, .quiet _⟩
      · contradiction
  | enqueue =>
      simp only [step] at moved
      split at moved
      · cases moved
        exact ⟨rfl, rfl, .quiet _⟩
      · split at moved
        · contradiction
        · cases moved
          exact ⟨rfl, rfl, .quiet _⟩
      · contradiction
  | call reply =>
      simp only [step] at moved
      split at moved
      · cases reply <;> cases moved <;> exact ⟨rfl, rfl, .called _ _⟩
      · contradiction
  | retry =>
      simp only [step] at moved
      split at moved
      · next out held =>
          split at moved
          · cases moved
            exact ⟨rfl, rfl, .quiet _⟩
          · next more =>
              split at moved
              · contradiction
              · cases moved
                exact ⟨rfl, rfl, .requeued out held (Nat.not_le.mp more)⟩
              · cases moved
                exact ⟨rfl, rfl, .quiet _⟩
      · contradiction

end Step

section Messages

variable {chatIDs : List Int64} {text : String} {event : Nat}

theorem mem_messagesFor {m : Message} (member : m ∈ messagesFor chatIDs text event) :
    m.event = event ∧ m.text = text ∧ chatIDs[m.place]? = some m.chatID := by
  obtain ⟨⟨chatID, place⟩, listed, rfl⟩ := List.mem_map.mp member
  exact ⟨rfl, rfl, List.mem_zipIdx_iff_getElem?.mp listed⟩

theorem nodup_messagesFor : (messagesFor chatIDs text event).Nodup := by
  have places : (messagesFor chatIDs text event).map Message.place =
      List.range' 0 chatIDs.length := by
    rw [messagesFor, List.map_map, ← List.zipIdx_map_snd]
    rfl
  have distinct : ((messagesFor chatIDs text event).map Message.place).Nodup := by
    rw [places]
    exact List.nodup_range'
  exact distinct.of_map

end Messages

abbrev Trace := List (Entry Sender Action Outcome)

def effects (trace : Trace) : List (Effect Message) := trace.map fun entry => entry.output.effect

def emitted (trace : Trace) : List AttackEvent :=
  Run.collect (fun entry => match entry.action with
    | .event ev => some ev
    | _ => none) trace

theorem emitted_cons (entry : Entry Sender Action Outcome) (trace : Trace) :
    emitted (entry :: trace) = emitted trace ++ entry.action.reads := by
  rw [emitted, Run.collect_cons]
  cases entry.action <;> rfl

def delivered (trace : Trace) : List Message := accepted (effects trace)

def calls (trace : Trace) (message : Message) : Nat := (tries (effects trace)).count message

section Run

variable {chatIDs : List Int64} {trace : Trace} {final : Sender}

theorem moves (run : Run (step format) (Sender.start chatIDs) trace final) :
    Moves maxRetries (effects trace) final.line ∧ final.Few := by
  induction run with
  | start => exact ⟨.start, Sender.few_start chatIDs⟩
  | step past moved ih =>
      obtain ⟨move, few⟩ := step_move ih.2 moved
      exact ⟨.step ih.1 move, few⟩

structure Formed (format : AttackEvent → String) (chatIDs : List Int64) (trace : Trace)
    (s : Sender) : Prop where
  chats : s.chatIDs = chatIDs
  events : s.events = (emitted trace).length
  genuine : ∀ m ∈ joined (effects trace), ∃ ev, (emitted trace)[m.event]? = some ev ∧
    m.text = format ev ∧ chatIDs[m.place]? = some m.chatID
  distinct : (joined (effects trace)).Nodup
  sorted : (joined (effects trace)).Pairwise fun a b => a.event ≤ b.event

theorem formed (run : Run (step format) (Sender.start chatIDs) trace final) :
    Formed format chatIDs trace final := by
  induction run with
  | start => exact ⟨rfl, rfl, fun _ member => (by contradiction), .nil, .nil⟩
  | @step trace s next action outcome past moved ih =>
      obtain ⟨sameIDs, events, told⟩ := step_told moved
      have emits := emitted_cons ⟨s, action, outcome⟩ trace
      have joins : joined (effects (⟨s, action, outcome⟩ :: trace)) =
          joined (effects trace) ++ outcome.effect.news := joined_cons _ _
      have older : ∀ m ∈ joined (effects trace), m.event < (emitted trace).length := by
        intro m member
        obtain ⟨ev, found, -⟩ := ih.genuine m member
        exact (List.getElem?_eq_some_iff.mp found).1
      have genuine : ∀ m ∈ joined (effects trace), ∃ ev,
          (emitted (⟨s, action, outcome⟩ :: trace))[m.event]? = some ev ∧ m.text = format ev ∧
            chatIDs[m.place]? = some m.chatID := by
        intro m member
        obtain ⟨ev, found, rest⟩ := ih.genuine m member
        exact ⟨ev, by rw [emits, List.getElem?_append_left (older m member), found], rest⟩
      have number : next.events = (emitted (⟨s, action, outcome⟩ :: trace)).length := by
        rw [events, ih.events, emits, List.length_append]
      rcases told.news with none | ⟨ev, rfl, made⟩
      · rw [none, List.append_nil] at joins
        exact ⟨sameIDs.trans ih.chats, number, joins ▸ genuine, joins ▸ ih.distinct,
          joins ▸ ih.sorted⟩
      · rw [made, ih.chats, ih.events] at joins
        have fresh : ∀ m ∈ messagesFor chatIDs (format ev) (emitted trace).length,
            m.event = (emitted trace).length ∧ m.text = format ev ∧
              chatIDs[m.place]? = some m.chatID := fun m => mem_messagesFor
        refine ⟨sameIDs.trans ih.chats, number, fun m member => ?_, ?_, ?_⟩
        · rw [joins] at member
          rcases List.mem_append.mp member with before | new
          · exact genuine m before
          · obtain ⟨place, rest⟩ := fresh m new
            refine ⟨ev, ?_, rest⟩
            rw [emits, place]
            exact List.getElem?_concat_length
        · rw [joins]
          refine List.nodup_append.mpr ⟨ih.distinct, nodup_messagesFor, fun m before n new same => ?_⟩
          have early := older m before
          rw [same, (fresh n new).1] at early
          omega
        · rw [joins]
          refine List.pairwise_append.mpr ⟨ih.sorted, ?_, fun m before n new => ?_⟩
          · refine List.pairwise_of_forall_mem_list fun m one n two => ?_
            rw [(fresh m one).1, (fresh n two).1]
          · rw [(fresh n new).1]
            exact (older m before).le

end Run

/-- After a 429, a message is put back while another one is in the queue. -/
def PutBackBehind (trace : Trace) (message other : Message) : Prop :=
  ∃ entry ∈ trace, entry.action = .retry ∧
    (∃ out, entry.before.worker = .backingOff out ∧ out.toMessage = message ∧
      out.attempts + 1 < maxRetries) ∧
    other ∈ entry.before.queue.buffer.map Outbound.toMessage

theorem putBackBehind {trace : Trace} {final : Sender} {chatIDs : List Int64}
    {message other : Message} (run : Run (step format) (Sender.start chatIDs) trace final)
    (behind : Behind (effects trace) message other) : PutBackBehind trace message other := by
  obtain ⟨passed, member, among⟩ := behind
  obtain ⟨⟨before, action, outcome⟩, listed, same⟩ := List.mem_map.mp member
  obtain ⟨front, back, rfl⟩ := List.append_of_mem listed
  obtain ⟨-, next, moved, -⟩ := run.cut
  have told : Told format before action outcome := (step_told moved).2.2
  cases told with
  | quiet | formatted => contradiction
  | called _ reply => cases reply <;> contradiction
  | requeued out held more =>
      cases same
      exact ⟨_, listed, rfl, ⟨out, held, rfl, more⟩, among⟩

/-- Of any events, chats, replies and interleavings: what the API accepts are messages of the
events, each of them once and after at most three calls. A chat gets them in the order of the
events, except for those that are put back behind a message of a later event. -/
theorem delivery (format : AttackEvent → String) (chatIDs : List Int64) {trace : Trace}
    {final : Sender} (run : Run (step format) (Sender.start chatIDs) trace final) :
    (∀ m ∈ delivered trace, ∃ ev, (emitted trace)[m.event]? = some ev ∧ m.text = format ev ∧
        chatIDs[m.place]? = some m.chatID) ∧
      (delivered trace).Nodup ∧ (∀ m, calls trace m ≤ 3) ∧
      (delivered trace).Pairwise fun a b => a.chatID = b.chatID →
        a.event ≤ b.event ∨ PutBackBehind trace b a := by
  obtain ⟨moves, -⟩ := moves run
  have formed := formed run
  refine ⟨fun m member => ?_, ?_, (moves.counted formed.distinct).1, ?_⟩
  · exact formed.genuine m (moves.subperm.subset (List.mem_append_left _ member))
  · exact (List.nodup_append.mp (moves.distinct formed.distinct)).1
  · have ordered := moves.ordered Message.event formed.sorted
    refine (List.pairwise_append.mp ordered).1.imp ?_
    intro a b either _
    exact either.imp_right (putBackBehind run)

def sampleText (ev : AttackEvent) : String := ev.incidentID

theorem delivery_sample : ∃ (trace : Trace) (final : Sender),
    Run (step sampleText) (Sender.start [1, 2]) trace final ∧
      (delivered trace).map (fun m => (m.chatID, m.event)) = [(2, 0), (1, 0), (1, 1)] ∧
      (delivered trace).Nodup ∧ (∀ m, calls trace m ≤ 3) ∧
      (delivered trace).Pairwise fun a b => a.chatID = b.chatID →
        a.event ≤ b.event ∨ PutBackBehind trace b a := by
  have executed : (Run.replay (step sampleText) [] (Sender.start [1, 2])
      [.event (sampleEvent "a" .started), .enqueue, .enqueue, .enqueue, .take,
        .call .tooManyRequests, .retry, .take, .call .ok, .event (sampleEvent "a" .ended), .enqueue,
        .take, .call .ok, .take, .call .ok]).map
        (fun made => (delivered made.1).map fun m => (m.chatID, m.event)) =
      some [(2, 0), (1, 0), (1, 1)] := by
    decide +kernel
  obtain ⟨⟨trace, final⟩, replayed, observed⟩ := Option.map_eq_some_iff.mp executed
  have run := Run.of_replay .start replayed
  obtain ⟨-, once, few, ordered⟩ := delivery sampleText [1, 2] run
  exact ⟨trace, final, run, observed, once, few, ordered⟩

/-- The end of an incident is queued while its start waits to be sent again, and arrives first. -/
theorem ended_before_started : ∃ (trace : Trace) (final : Sender),
    Run (step sampleText) (Sender.start [1]) trace final ∧
      (∀ entry ∈ trace, entry.before.queue.buffer.length < queueSize) ∧
      (emitted trace).map AttackEvent.state = [.started, .ended] ∧
      (delivered trace).map (fun m => (m.chatID, m.event)) = [(1, 1), (1, 0)] ∧
      ¬ (delivered trace).Pairwise fun a b => a.chatID = b.chatID → a.event ≤ b.event := by
  have executed : (Run.replay (step sampleText) [] (Sender.start [1])
      [.event (sampleEvent "a" .started), .enqueue, .enqueue, .take, .call .tooManyRequests,
        .event (sampleEvent "a" .ended), .enqueue, .retry, .take, .call .ok, .take,
        .call .ok]).map
        (fun made => (made.1.all fun entry => entry.before.queue.buffer.length < queueSize,
          (emitted made.1).map AttackEvent.state,
          (delivered made.1).map (fun m => (m.chatID, m.event)),
          decide ((delivered made.1).Pairwise fun a b => a.chatID = b.chatID → a.event ≤ b.event))) =
      some (true, [.started, .ended], [(1, 1), (1, 0)], false) := by
    decide +kernel
  obtain ⟨⟨trace, final⟩, replayed, observed⟩ := Option.map_eq_some_iff.mp executed
  simp only [Prod.mk.injEq] at observed
  obtain ⟨room, states, order, broken⟩ := observed
  refine ⟨trace, final, Run.of_replay .start replayed, fun entry member => ?_, states, order,
    of_decide_eq_false broken⟩
  exact of_decide_eq_true (List.all_eq_true.mp room entry member)

end Mitigador.Alert.Telegram
