import Mitigador.Api.Shutdown

/-! One client of the broker: what a step of the broker, of its handlers or of `Run` does to the
channel of this client, for as long as its handler loops. -/

namespace Mitigador.Api.Broker

open Go Detect Lib

def Attached (c : Nat) (s : Broker) : Prop :=
  s.run = .running ∧ c ∈ s.clients ∧ (s.handlers c).phase = .streaming

instance (c : Nat) (s : Broker) : Decidable (Attached c s) :=
  inferInstanceAs (Decidable (_ ∧ _ ∧ _))

/-- `Run` knows no client whose handler has yet to register, and sends nothing before it does. -/
structure Tidy (s : Broker) : Prop where
  known : ∀ c, c ∈ s.clients ∨ c ∈ s.subscribe.buffer →
    (s.handlers c).phase ≠ .absent ∧ (s.handlers c).phase ≠ .subscribing
  left : ∀ c ∈ s.unsubscribe.buffer, (s.handlers c).phase = .returned
  empty : ∀ c, c ∉ s.clients → (s.handlers c).phase = .subscribing ∨
    (s.handlers c).phase = .streaming → (s.handlers c).ch.buffer = []

def written (c : Nat) (s : Broker) : Action → Option SsePayload
  | .handler d .receive => if d = c then (s.handlers c).ch.buffer.head? else none
  | _ => none

theorem fanOut_other {p : SsePayload} {clients : List Nat} {c : Nat} (absent : c ∉ clients)
    (handlers : Nat → Client) : (fanOut p clients handlers).1 c = handlers c := by
  induction clients generalizing handlers with
  | nil => rfl
  | cons head tail ih =>
      rw [List.mem_cons, not_or] at absent
      simp only [fanOut]
      split
      · rfl
      · rw [ih absent.2, Function.update_of_ne absent.1]

theorem fanOut_own (p : SsePayload) {clients : List Nat} (distinct : clients.Nodup) {c : Nat}
    (client : c ∈ clients) (handlers : Nat → Client) :
    (((fanOut p clients handlers).1 c).ch.buffer = (handlers c).ch.buffer ∨
      ((fanOut p clients handlers).1 c).ch.buffer = (handlers c).ch.buffer ++ [p]) ∧
      ((fanOut p clients handlers).2 = true →
        (handlers c).ch.buffer.length < (handlers c).ch.capacity →
        ((fanOut p clients handlers).1 c).ch.buffer = (handlers c).ch.buffer ++ [p]) := by
  induction clients generalizing handlers with
  | nil => simp at client
  | cons head tail ih =>
      rw [List.nodup_cons] at distinct
      simp only [fanOut]
      split
      · exact ⟨.inl rfl, fun finished => by contradiction⟩
      · next ch sent offered =>
          rcases List.mem_cons.mp client with rfl | later
          · rw [fanOut_other distinct.1, Function.update_self]
            obtain ⟨-, -, queued, full⟩ := Chan.offer_spec offered
            cases sent with
            | true => exact ⟨.inr queued, fun _ _ => queued⟩
            | false =>
                refine ⟨.inl (by simpa using queued), fun _ room => ?_⟩
                exact absurd (full.mp rfl) room.ne
          · have apart : c ≠ head := by
              rintro rfl
              exact distinct.1 later
            have rested := ih distinct.2 later (Function.update handlers head { handlers head with
              ch := ch })
            rw [Function.update_of_ne apart] at rested
            exact rested

theorem closeAll_buffer (clients : List Nat) (handlers : Nat → Client) (c : Nat) :
    ((closeAll clients handlers).1 c).ch.buffer = (handlers c).ch.buffer := by
  induction clients generalizing handlers with
  | nil => rfl
  | cons head tail ih =>
      unfold closeAll
      split
      · rfl
      · next ch closed =>
          rw [ih]
          by_cases own : c = head
          · rw [own, Function.update_self, (Chan.close_spec closed).2]
          · rw [Function.update_of_ne own]

theorem new_tidy (input : Chan AttackEvent) : Tidy (new input) where
  known c listed := by
    rcases listed with client | waiting
    · exact absurd client (AList.notMem_empty c)
    · exact absurd waiting (List.not_mem_nil)
  left c waiting := absurd waiting List.not_mem_nil
  empty _ _ _ := rfl

namespace Tidy

variable {s next : Broker}

theorem of_turn (tidy : Tidy s) (phase : ∀ c, (next.handlers c).phase = (s.handlers c).phase)
    (known : ∀ c, c ∈ next.clients ∨ c ∈ next.subscribe.buffer →
      c ∈ s.clients ∨ c ∈ s.subscribe.buffer)
    (left : ∀ c ∈ next.unsubscribe.buffer, c ∈ s.unsubscribe.buffer)
    (empty : ∀ c, c ∉ next.clients → (s.handlers c).phase ≠ .returned →
      c ∉ s.clients ∧ (next.handlers c).ch.buffer = (s.handlers c).ch.buffer) : Tidy next where
  known c listed := by
    rw [phase]
    exact tidy.known c (known c listed)
  left c waiting := by
    rw [phase]
    exact tidy.left c (left c waiting)
  empty c absent present := by
    rw [phase] at present
    have here : (s.handlers c).phase ≠ .returned := by
      rintro returned
      rcases present with waiting | looping
      · exact absurd (returned.symm.trans waiting) (by decide)
      · exact absurd (returned.symm.trans looping) (by decide)
    obtain ⟨outside, same⟩ := empty c absent here
    rw [same]
    exact tidy.empty c outside present

theorem send (tidy : Tidy s) (p : SsePayload) : Tidy (s.send p) :=
  tidy.of_turn (fanOut_phase _ _ _) (fun _ listed => listed) (fun _ waiting => waiting)
    fun c absent _ => ⟨absent, by
      have other : ((fanOut p s.clients.keys s.handlers).1 c) = s.handlers c :=
        fanOut_other absent s.handlers
      simp only [Broker.send, other]⟩

theorem shutdown (tidy : Tidy s) (canceled : Bool) : Tidy (s.shutdown canceled) :=
  tidy.of_turn (closeAll_phase _ _) (fun _ listed => listed) (fun _ waiting => waiting)
    fun c absent _ => ⟨absent, closeAll_buffer _ _ c⟩

variable {marshal : List (String × Value) → Option String}

theorem turn (tidy : Tidy s) {picked : Case} (turned : s.turn marshal picked = some next) :
    Tidy next := by
  cases picked with
  | done =>
      simp only [Broker.turn] at turned
      split at turned
      · cases turned
        exact tidy.shutdown true
      · contradiction
  | subscribe =>
      simp only [Broker.turn] at turned
      split at turned
      · next c subscribe received =>
          have queued := Chan.receive_value received
          cases turned
          refine tidy.of_turn (fun _ => rfl) (fun d listed => ?_) (fun _ waiting => waiting)
            fun d absent _ => ⟨fun client => absent ((AList.mem_insert _).mpr (.inr client)), rfl⟩
          rw [queued, List.mem_cons]
          rcases listed with client | waiting
          · rcases (AList.mem_insert _).mp client with rfl | earlier
            · exact .inr (.inl rfl)
            · exact .inl earlier
          · exact .inr (.inr waiting)
      · contradiction
  | unsubscribe =>
      simp only [Broker.turn] at turned
      split at turned
      · next c unsubscribe received =>
          have queued := Chan.receive_value received
          have returned : (s.handlers c).phase = .returned :=
            tidy.left c (by rw [queued]; exact List.mem_cons_self)
          have settled : Tidy { s with
              unsubscribe := unsubscribe, clients := s.clients.erase c } :=
            tidy.of_turn (fun _ => rfl)
              (fun d listed => listed.imp_left fun client => (AList.mem_erase.mp client).2)
              (fun d waiting => by
                rw [queued]
                exact List.mem_cons_of_mem _ waiting)
              fun d absent present => by
                refine ⟨fun client => absent (AList.mem_erase.mpr ⟨?_, client⟩), rfl⟩
                rintro rfl
                exact present returned
          split at turned
          · cases turned
            exact ⟨settled.known, settled.left, settled.empty⟩
          · next ch closed =>
              cases turned
              refine settled.of_turn (fun d => ?_) (fun _ listed => listed)
                (fun _ waiting => waiting) fun d absent _ => ⟨absent, ?_⟩
              · by_cases own : d = c
                · simp [own]
                · simp [own]
              · by_cases own : d = c
                · simp [own, (Chan.close_spec closed).2]
                · simp [own]
      · contradiction
  | input =>
      simp only [Broker.turn] at turned
      split at turned
      · contradiction
      · cases turned
        exact tidy.shutdown false
      · next ev input received =>
          have settled : Tidy { s with input := input } :=
            ⟨tidy.known, tidy.left, tidy.empty⟩
          split at turned
          · cases turned
            exact settled
          · cases turned
            exact settled.send _
  | tick =>
      cases turned
      exact tidy.send .heartbeat

theorem of_handler (tidy : Tidy s) (c : Nat) (client : Client) {subscribe unsubscribe : Chan Nat}
    (known : c ∈ s.clients ∨ c ∈ subscribe.buffer →
      client.phase ≠ .absent ∧ client.phase ≠ .subscribing)
    (joins : ∀ d ∈ subscribe.buffer, d ∈ s.subscribe.buffer ∨ d = c)
    (leaves : ∀ d ∈ unsubscribe.buffer, d ∈ s.unsubscribe.buffer ∨ d = c)
    (left : c ∈ unsubscribe.buffer → client.phase = .returned)
    (empty : c ∉ s.clients → client.phase = .subscribing ∨ client.phase = .streaming →
      client.ch.buffer = []) :
    Tidy { s with
      subscribe := subscribe
      unsubscribe := unsubscribe
      handlers := Function.update s.handlers c client } where
  known d listed := by
    by_cases own : d = c
    · subst own
      simpa using known listed
    · simp only [Function.update_of_ne own]
      refine tidy.known d (listed.imp_right fun waiting => ?_)
      exact (joins d waiting).resolve_right own
  left d waiting := by
    by_cases own : d = c
    · subst own
      simpa using left waiting
    · simp only [Function.update_of_ne own]
      exact tidy.left d ((leaves d waiting).resolve_right own)
  empty d absent present := by
    by_cases own : d = c
    · subst own
      simp only [Function.update_self] at present ⊢
      exact empty absent present
    · simp only [Function.update_of_ne own] at present ⊢
      exact tidy.empty d absent present

theorem handler (tidy : Tidy s) {c : Nat} {m : Move} {text : Option String}
    (moved : s.handler c m = some (next, text)) : Tidy next := by
  have unqueued : ∀ {phase : Phase}, (s.handlers c).phase = phase → phase ≠ .returned →
      c ∉ s.unsubscribe.buffer := by
    rintro _ rfl here waiting
    exact here (tidy.left c waiting)
  cases m with
  | subscribe =>
      simp only [Broker.handler] at moved
      split at moved
      · next waiting =>
          split at moved
          · next subscribe offered =>
              have queued := Chan.offer_sent offered
              cases moved
              refine tidy.of_handler c _ (fun _ => by simp) (fun d listed => ?_)
                (fun _ listed => .inl listed) (fun listed => ?_)
                fun absent _ => tidy.empty c absent (.inl waiting)
              · rw [queued, List.mem_append, List.mem_singleton] at listed
                exact listed
              · exact absurd listed (unqueued waiting (by simp))
          · contradiction
      · contradiction
  | receive =>
      simp only [Broker.handler] at moved
      split at moved
      · next looping =>
          split at moved
          · contradiction
          · cases moved
            refine tidy.of_handler c _ (fun _ => by simp) (fun _ listed => .inl listed)
              (fun _ listed => .inl listed) (fun listed => ?_) fun _ present => by simp at present
            exact absurd listed (unqueued looping (by simp))
          · next p ch received =>
              have queued := Chan.receive_value received
              cases moved
              refine tidy.of_handler c _ (fun _ => by simp [looping])
                (fun _ listed => .inl listed) (fun _ listed => .inl listed) (fun listed => ?_)
                fun absent _ => ?_
              · exact absurd listed (unqueued looping (by simp))
              · rw [tidy.empty c absent (.inr looping)] at queued
                contradiction
      · contradiction
  | leave =>
      simp only [Broker.handler] at moved
      split at moved
      · next leaving =>
          cases moved
          refine tidy.of_handler c _ (fun _ => by simp) (fun _ listed => .inl listed)
            (fun _ listed => .inl listed) (fun listed => ?_) fun _ present => by simp at present
          exact absurd listed (unqueued leaving.1 (by simp))
      · contradiction
  | unsubscribe =>
      simp only [Broker.handler] at moved
      split at moved
      · next waiting =>
          split at moved
          · next unsubscribe offered =>
              have queued := Chan.offer_sent offered
              cases moved
              refine tidy.of_handler c _ (fun _ => by simp) (fun _ listed => .inl listed)
                (fun d listed => ?_) (fun _ => rfl) fun _ present => by simp at present
              rw [queued, List.mem_append, List.mem_singleton] at listed
              exact listed
          · contradiction
      · contradiction

theorem step (tidy : Tidy s) {action : Action} {text : Option String}
    (moved : s.step marshal action = some (next, text)) : Tidy next := by
  cases action with
  | connect c =>
      simp only [Broker.step] at moved
      split at moved
      · next fresh =>
          cases moved
          refine tidy.of_handler c _ (fun listed => ?_) (fun _ listed => .inl listed)
            (fun _ listed => .inl listed) (fun listed => ?_) fun _ _ => rfl
          · exact absurd fresh (tidy.known c listed).1
          · rw [tidy.left c listed] at fresh
            contradiction
      · contradiction
  | disconnect c =>
      simp only [Broker.step] at moved
      split at moved
      · cases moved
        exact tidy.of_handler c _ (tidy.known c) (fun _ listed => .inl listed)
          (fun _ listed => .inl listed) (tidy.left c) (tidy.empty c)
      · contradiction
  | handler c m => exact tidy.handler moved
  | publish ev =>
      simp only [Broker.step] at moved
      split at moved
      · contradiction
      · cases moved
        exact ⟨tidy.known, tidy.left, tidy.empty⟩
  | closeInput =>
      simp only [Broker.step] at moved
      split at moved
      · contradiction
      · cases moved
        exact ⟨tidy.known, tidy.left, tidy.empty⟩
  | cancel =>
      cases moved
      exact ⟨tidy.known, tidy.left, tidy.empty⟩
  | turn picked =>
      exact tidy.turn (turn_of_step moved).2.1

end Tidy

end Mitigador.Api.Broker
