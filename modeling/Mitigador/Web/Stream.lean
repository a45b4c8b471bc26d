import Mitigador.Api.Listening
import Mitigador.Web.Incidents

/-! The event stream of one client. All that a step of the broker can do to it is told once, by
what waits in the channel and at the input. -/

namespace Mitigador.Web

open Go Detect Api Api.Broker

variable {marshal : List (String × Value) → Option String} {s next : Broker} {c : Nat}

def pending (c : Nat) (s : Broker) : List SsePayload :=
  if (s.handlers c).phase = .streaming then (s.handlers c).ch.buffer else []

theorem pending_of_looping (looping : (s.handlers c).phase = .streaming) :
    pending c s = (s.handlers c).ch.buffer := if_pos looping

theorem pending_of_away (away : (s.handlers c).phase ≠ .streaming) : pending c s = [] := if_neg away

def Fresh (c : Nat) (s : Broker) : Prop :=
  c ∉ s.clients ∧ (s.handlers c).phase ≠ .unsubscribing ∧ (s.handlers c).phase ≠ .returned

inductive Followed (marshal : List (String × Value) → Option String) (c : Nat)
    (s next : Broker) : Broker.Action → Prop
  | wrote (p : SsePayload) (looping : (s.handlers c).phase = .streaming)
      (queued : pending c s = p :: pending c next)
      (input : next.input.buffer = s.input.buffer) (attached : Attached c next → Attached c s)
      (fresh : ¬ Fresh c next) : Followed marshal c s next (.handler c .receive)
  | quiet {action : Broker.Action} (silent : written c s action = none)
      (queued : pending c next = pending c s ∨ pending c next = pending c s ++ [.heartbeat] ∨
        (next.handlers c).phase ≠ .streaming)
      (input : next.input.buffer = s.input.buffer) (attached : Attached c next → Attached c s)
      (fresh : Fresh c next → Fresh c s) : Followed marshal c s next action
  | taken (ev : AttackEvent) (input : s.input.buffer = ev :: next.input.buffer)
      (queued : pending c next = pending c s ∨
        Attached c s ∧ pending c next = pending c s ++ (fanned marshal ev).toList)
      (attached : Attached c next → Attached c s ∧
        ((s.handlers c).ch.buffer.length < (s.handlers c).ch.capacity →
          pending c next = pending c s ++ (fanned marshal ev).toList))
      (fresh : Fresh c next → Fresh c s) : Followed marshal c s next (.turn .input)
  | joined (waiting : s.subscribe.buffer.head? = some c) (fresh : Fresh c s)
      (looping : (s.handlers c).phase = .streaming) (before : pending c s = [])
      (after : pending c next = []) (input : next.input.buffer = s.input.buffer) :
      Followed marshal c s next (.turn .subscribe)

theorem pending_congr (same : next.handlers c = s.handlers c) : pending c next = pending c s := by
  rw [pending, pending, same]

theorem followed_of_same {action : Broker.Action} (silent : written c s action = none)
    (handlers : next.handlers c = s.handlers c) (clients : c ∈ next.clients ↔ c ∈ s.clients)
    (run : next.run = .running → s.run = .running)
    (input : next.input.buffer = s.input.buffer) : Followed marshal c s next action := by
  refine .quiet silent (.inl (pending_congr handlers)) input ?_ ?_
  · rintro ⟨running, client, looping⟩
    rw [handlers] at looping
    exact ⟨run running, clients.mp client, looping⟩
  · rintro ⟨outside, here⟩
    rw [handlers] at here
    exact ⟨fun client => outside (clients.mpr client), here⟩

theorem followed_of_stopped {action : Broker.Action} (silent : written c s action = none)
    (phase : (next.handlers c).phase = (s.handlers c).phase)
    (buffer : (next.handlers c).ch.buffer = (s.handlers c).ch.buffer)
    (run : next.run ≠ .running) (input : next.input.buffer = s.input.buffer)
    (fresh : Fresh c next → Fresh c s) : Followed marshal c s next action := by
  refine .quiet silent (.inl ?_) input (fun attached => absurd attached.1 run) fresh
  rw [pending, pending, phase, buffer]

theorem run_shutdown (s : Broker) (canceled : Bool) : (s.shutdown canceled).run ≠ .running := by
  simp only [shutdown]
  split
  · simp
  · simp

theorem pending_send (p : SsePayload) (c : Nat) (s : Broker) :
    (pending c (s.send p) = pending c s ∨ (c ∈ s.clients ∧ (s.handlers c).phase = .streaming) ∧
      pending c (s.send p) = pending c s ++ [p]) ∧
      (Attached c (s.send p) → (c ∈ s.clients ∧ (s.handlers c).phase = .streaming) ∧
        ((s.handlers c).ch.buffer.length < (s.handlers c).ch.capacity →
          pending c (s.send p) = pending c s ++ [p])) := by
  have phase : ((s.send p).handlers c).phase = (s.handlers c).phase := fanOut_phase ..
  by_cases looping : (s.handlers c).phase = .streaming
  · rw [pending_of_looping looping, pending_of_looping (phase.trans looping)]
    by_cases client : c ∈ s.clients
    · obtain ⟨either, full⟩ := fanOut_own p s.clients.keys_nodup client s.handlers
      refine ⟨either.imp_right fun added => ⟨⟨client, looping⟩, added⟩, ?_⟩
      rintro ⟨running, -, -⟩
      refine ⟨⟨client, looping⟩, full ?_⟩
      simp only [send] at running
      split at running
      · assumption
      · contradiction
    · have other : (s.send p).handlers c = s.handlers c := fanOut_other client s.handlers
      refine ⟨.inl (by rw [other]), ?_⟩
      rintro ⟨-, member, -⟩
      exact absurd member client
  · rw [pending_of_away looping, pending_of_away (by rwa [phase])]
    refine ⟨.inl rfl, ?_⟩
    rintro ⟨-, -, now⟩
    exact absurd (phase.symm.trans now) looping

theorem fresh_of_frame (phase : (next.handlers c).phase = (s.handlers c).phase)
    (clients : c ∈ s.clients → (s.handlers c).phase ≠ .returned → c ∈ next.clients)
    (fresh : Fresh c next) : Fresh c s := by
  obtain ⟨outside, here⟩ := fresh
  rw [phase] at here
  exact ⟨fun client => outside (clients client here.2), here⟩

theorem followed_shutdown (c : Nat) (s : Broker) {input : Chan AttackEvent} (canceled : Bool)
    {picked : Case} (same : input.buffer = s.input.buffer) :
    Followed marshal c s ({ s with input := input }.shutdown canceled) (.turn picked) :=
  followed_of_stopped rfl (closeAll_phase _ _ c) (closeAll_buffer _ _ c) (run_shutdown _ canceled)
    same (fresh_of_frame (closeAll_phase _ _ c) fun client _ => client)

theorem followed_input {ev : AttackEvent} {input : Chan AttackEvent} (running : s.run = .running)
    (queued : s.input.buffer = ev :: input.buffer) :
    Followed marshal c s ((fanned marshal ev).elim { s with input := input }
      fun p => { s with input := input }.send p) (.turn .input) := by
  cases encoded : fanned marshal ev with
  | none =>
      refine .taken ev queued (.inl rfl) (fun attached => ⟨attached, fun _ => ?_⟩) id
      rw [encoded]
      exact (List.append_nil _).symm
  | some p =>
      obtain ⟨either, full⟩ := pending_send p c { s with input := input }
      refine .taken ev queued ?_ (fun attached => ?_)
        (fresh_of_frame (fanOut_phase ..) fun client _ => client)
      · rw [encoded]
        exact either.imp_right fun ⟨here, added⟩ => ⟨⟨running, here⟩, added⟩
      · obtain ⟨here, added⟩ := full attached
        rw [encoded]
        exact ⟨⟨running, here⟩, added⟩

theorem followed_turn (tidy : Tidy s) {picked : Case} (running : s.run = .running)
    (turned : s.turn marshal picked = some next) : Followed marshal c s next (.turn picked) := by
  cases picked with
  | done =>
      simp only [turn] at turned
      split at turned
      · cases turned
        exact followed_shutdown c s true rfl
      · contradiction
  | subscribe =>
      simp only [turn] at turned
      split at turned
      · next d subscribe received =>
          have queued := Chan.receive_value received
          cases turned
          by_cases joining : d = c ∧ c ∉ s.clients ∧ (s.handlers c).phase = .streaming
          · obtain ⟨rfl, outside, looping⟩ := joining
            have empty := tidy.empty d outside (.inr looping)
            refine .joined (by rw [queued]; rfl) ⟨outside, by simp [looping]⟩ looping ?_ ?_ rfl
            · rw [pending_of_looping looping, empty]
            · exact (pending_of_looping looping).trans empty
          · refine .quiet rfl (.inl rfl) rfl ?_ (fresh_of_frame rfl fun client _ =>
              (AList.mem_insert _).mpr (.inr client))
            rintro ⟨-, member, looping⟩
            refine ⟨running, ?_, looping⟩
            rcases (AList.mem_insert _).mp member with rfl | client
            · by_contra outside
              exact joining ⟨rfl, outside, looping⟩
            · exact client
      · contradiction
  | unsubscribe =>
      simp only [turn] at turned
      split at turned
      · next d unsubscribe received =>
          have queued := Chan.receive_value received
          have returned : (s.handlers d).phase = .returned :=
            tidy.left d (by rw [queued]; exact List.mem_cons_self)
          split at turned
          · cases turned
            refine followed_of_stopped rfl rfl rfl (by simp) rfl
              (fresh_of_frame rfl fun client present => AList.mem_erase.mpr ⟨?_, client⟩)
            rintro rfl
            exact present returned
          · next ch closed =>
              cases turned
              by_cases own : c = d
              · subst own
                refine .quiet rfl (.inr (.inr ?_)) rfl ?_ ?_
                · simp [returned]
                · rintro ⟨-, -, looping⟩
                  simp [returned] at looping
                · rintro ⟨-, -, present⟩
                  simp [returned] at present
              · refine followed_of_same rfl (Function.update_of_ne own ..) ?_ (fun _ => running) rfl
                exact AList.mem_erase.trans (and_iff_right own)
      · contradiction
  | input =>
      cases received : s.input.receive with
      | none =>
          simp only [turn, received] at turned
          contradiction
      | some taken =>
          obtain ⟨value, input⟩ := taken
          cases value with
          | none =>
              simp only [turn, received, Option.some.injEq] at turned
              rw [← turned]
              exact followed_shutdown c s false rfl
          | some ev =>
              rw [turn_input received, Option.some.injEq] at turned
              rw [← turned]
              exact followed_input running (Chan.receive_value received)
  | tick =>
      cases turned
      obtain ⟨either, full⟩ := pending_send .heartbeat c s
      refine .quiet rfl ?_ rfl (fun attached => ⟨running, (full attached).1⟩)
        (fresh_of_frame (fanOut_phase ..) fun client _ => client)
      exact either.imp_right fun added => .inl added.2

theorem followed_of_handler {action : Broker.Action} (silent : written c s action = none) {d : Nat}
    {client : Client} (handlers : next.handlers = Function.update s.handlers d client)
    (away : d = c → client.phase = .unsubscribing ∨ client.phase = .returned ∨
      client.phase = .subscribing ∧ (s.handlers c).phase = .absent)
    (clients : next.clients = s.clients) (run : next.run = s.run) (input : next.input = s.input) :
    Followed marshal c s next action := by
  by_cases own : c = d
  · subst own
    have phase : (next.handlers c).phase = client.phase := by rw [handlers, Function.update_self]
    have gone : (next.handlers c).phase ≠ .streaming := by
      rw [phase]
      rcases away rfl with left | left | ⟨left, -⟩ <;> simp [left]
    refine .quiet silent (.inr (.inr gone)) (by rw [input])
      (fun attached => absurd attached.2.2 gone) ?_
    rintro ⟨outside, staying, present⟩
    rw [phase] at staying present
    obtain ⟨-, absent⟩ := ((away rfl).resolve_left staying).resolve_left present
    rw [clients] at outside
    exact ⟨outside, by simp [absent]⟩
  · refine followed_of_same silent ?_ (by rw [clients])
      (fun running => by rwa [run] at running) (by rw [input])
    rw [handlers, Function.update_of_ne own]

theorem followed_handler (tidy : Tidy s) {d : Nat} {m : Move} {text : Option String}
    (moved : s.handler d m = some (next, text)) :
    Followed marshal c s next (.handler d m) := by
  cases m with
  | subscribe =>
      simp only [handler] at moved
      split at moved
      · next waiting =>
          split at moved
          · next subscribe offered =>
              cases moved
              by_cases own : c = d
              · subst own
                have outside : c ∉ s.clients := fun client =>
                  (tidy.known c (.inl client)).2 waiting
                refine .quiet rfl (.inl ?_) rfl (fun attached => absurd attached.2.1 outside)
                  fun _ => ⟨outside, by simp [waiting]⟩
                have empty := tidy.empty c outside (.inl waiting)
                have silent : pending c s = [] := pending_of_away (by simp [waiting])
                rw [silent, pending]
                simp [empty]
              · exact followed_of_same rfl (Function.update_of_ne own ..) Iff.rfl id rfl
          · contradiction
      · contradiction
  | receive =>
      simp only [handler] at moved
      split at moved
      · next looping =>
          split at moved
          · contradiction
          · next ended =>
              have empty := Chan.receive_ended ended
              cases moved
              refine followed_of_handler ?_ rfl (fun _ => .inl rfl) rfl rfl rfl
              simp only [written]
              split
              · next own => rw [← own, empty]; rfl
              · rfl
          · next p ch received =>
              have queued := Chan.receive_value received
              cases moved
              by_cases own : c = d
              · subst own
                refine .wrote p looping ?_ rfl ?_ ?_
                · rw [pending_of_looping looping, queued, pending_of_looping (by simp [looping])]
                  simp
                · rintro ⟨running, client, -⟩
                  exact ⟨running, client, looping⟩
                · rintro ⟨outside, -⟩
                  rw [tidy.empty c outside (.inr looping)] at queued
                  contradiction
              · refine followed_of_same ?_ (Function.update_of_ne own ..) Iff.rfl id rfl
                simp [written, Ne.symm own]
      · contradiction
  | leave =>
      simp only [handler] at moved
      split at moved
      · cases moved
        exact followed_of_handler rfl rfl (fun _ => .inl rfl) rfl rfl rfl
      · contradiction
  | unsubscribe =>
      simp only [handler] at moved
      split at moved
      · split at moved
        · cases moved
          exact followed_of_handler rfl rfl (fun _ => .inr (.inl rfl)) rfl rfl rfl
        · contradiction
      · contradiction

theorem followed_step (c : Nat) (tidy : Tidy s) {action : Broker.Action} {text : Option String}
    (unpublished : ∀ ev, action ≠ .publish ev)
    (moved : s.step marshal action = some (next, text)) : Followed marshal c s next action := by
  cases action with
  | connect d =>
      simp only [step] at moved
      split at moved
      · next absent =>
          cases moved
          refine followed_of_handler rfl rfl (fun own => ?_) rfl rfl rfl
          exact .inr (.inr ⟨rfl, by rwa [← own]⟩)
      · contradiction
  | disconnect d =>
      simp only [step] at moved
      split at moved
      · cases moved
        by_cases own : c = d
        · subst own
          refine .quiet rfl (.inl (by simp [pending])) rfl ?_
            (fresh_of_frame (by simp) fun client _ => client)
          rintro ⟨running, client, looping⟩
          exact ⟨running, client, by simpa using looping⟩
        · exact followed_of_same rfl (Function.update_of_ne own ..) Iff.rfl id rfl
      · contradiction
  | handler d m => exact followed_handler tidy moved
  | publish ev => exact absurd rfl (unpublished ev)
  | closeInput =>
      simp only [step] at moved
      split at moved
      · contradiction
      · next input closed =>
          cases moved
          refine followed_of_same rfl rfl Iff.rfl id ?_
          rw [(Chan.close_spec closed).2]
  | cancel =>
      cases moved
      exact followed_of_same rfl rfl Iff.rfl id rfl
  | turn picked =>
      obtain ⟨running, turned, rfl⟩ := turn_of_step moved
      exact followed_turn tidy running turned

theorem connect_spec {text : Option String}
    (connected : s.step marshal (.connect c) = some (next, text)) :
    next.input = s.input ∧ (next.handlers c).phase = .subscribing := by
  simp only [step] at connected
  split at connected
  · cases connected
    exact ⟨rfl, by simp⟩
  · contradiction

theorem Followed.input {action : Broker.Action} (followed : Followed marshal c s next action) :
    next.input.buffer = s.input.buffer ∨ ∃ ev, s.input.buffer = ev :: next.input.buffer := by
  cases followed with
  | wrote _ _ _ input | quiet _ _ input | joined _ _ _ _ _ input => exact .inl input
  | taken ev input => exact .inr ⟨ev, input⟩

end Mitigador.Web
