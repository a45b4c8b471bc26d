import Mitigador.Api.Sse

/-! Which channels `Broker.Run` may still use. A handler registers and leaves over two channels,
so `Run` may see that a client has left before it has seen it come. -/

namespace Mitigador.Api.Broker

open Go Detect Lib

/-- While `Run` loops, a closed channel belongs to a handler that has returned, and no place
from which `Run` takes a channel holds it. -/
structure Live (s : Broker) : Prop where
  retired : ∀ c, (s.handlers c).ch.closed = true →
    (s.handlers c).phase = .returned ∧ c ∉ s.clients ∧ c ∉ s.subscribe.buffer ∧
      c ∉ s.unsubscribe.buffer
  once : s.unsubscribe.buffer.Nodup
  left : ∀ c ∈ s.unsubscribe.buffer, (s.handlers c).phase = .returned

structure Sound (s : Broker) : Prop where
  calm : s.run ≠ .panicked
  live : s.run = .running → Live s

/-- The client that `Run` takes from `unsubscribe` is no longer waiting in `subscribe`. -/
def Registered (s : Broker) : Action → Prop
  | .turn .unsubscribe => ∀ c ∈ s.unsubscribe.buffer.head?, c ∉ s.subscribe.buffer
  | _ => True

instance (s : Broker) (action : Action) : Decidable (Registered s action) :=
  match action with
  | .turn .unsubscribe =>
      inferInstanceAs (Decidable (∀ c ∈ s.unsubscribe.buffer.head?, c ∉ s.subscribe.buffer))
  | .turn .done | .turn .subscribe | .turn .input | .turn .tick => isTrue trivial
  | .connect _ | .disconnect _ | .handler _ _ | .publish _ | .closeInput | .cancel =>
      isTrue trivial

theorem Live.open_of_client {s : Broker} (live : Live s) {c : Nat} (client : c ∈ s.clients) :
    (s.handlers c).ch.closed = false := by
  rw [← Bool.not_eq_true]
  intro closed
  exact (live.retired c closed).2.1 client

theorem Live.of_frame {s next : Broker} (live : Live s)
    (closed : ∀ c, (next.handlers c).ch.closed = true → (s.handlers c).ch.closed = true)
    (phase : ∀ c, (s.handlers c).phase = .returned → (next.handlers c).phase = .returned)
    (clients : ∀ c ∈ next.clients, c ∈ s.clients ∨ c ∈ s.subscribe.buffer)
    (subscribe : ∀ c ∈ next.subscribe.buffer,
      c ∈ s.subscribe.buffer ∨ (s.handlers c).phase ≠ .returned)
    (unsubscribe : next.unsubscribe.buffer = s.unsubscribe.buffer) : Live next where
  retired c shut := by
    obtain ⟨returned, outside, unqueued, settled⟩ := live.retired c (closed c shut)
    refine ⟨phase c returned, ?_, ?_, by rwa [unsubscribe]⟩
    · intro member
      exact (clients c member).elim outside unqueued
    · intro member
      exact (subscribe c member).elim unqueued fun away => away returned
  once := by
    rw [unsubscribe]
    exact live.once
  left c member := phase c (live.left c (by rwa [unsubscribe] at member))

theorem Live.move {s : Broker} (live : Live s) (c : Nat) (client : Client)
    (present : (s.handlers c).phase ≠ .returned ∨ client.phase = .returned)
    (kept : client.ch.closed = true → (s.handlers c).ch.closed = true) :
    Live { s with handlers := Function.update s.handlers c client } := by
  apply live.of_frame
  · intro other shut
    by_cases own : other = c
    · subst own
      exact kept (by simpa using shut)
    · simpa [own] using shut
  · intro other returned
    by_cases own : other = c
    · subst own
      simpa using present.resolve_left (not_not.mpr returned)
    · simpa [own] using returned
  · exact fun other member => Or.inl member
  · exact fun other member => Or.inl member
  · rfl

theorem fanOut_open (p : SsePayload) (clients : List Nat) (handlers : Nat → Client)
    (opened : ∀ c ∈ clients, (handlers c).ch.closed = false) :
    (fanOut p clients handlers).2 = true ∧
      ∀ c, ((fanOut p clients handlers).1 c).phase = (handlers c).phase ∧
        ((fanOut p clients handlers).1 c).ch.closed = (handlers c).ch.closed := by
  induction clients generalizing handlers with
  | nil => exact ⟨rfl, fun _ => ⟨rfl, rfl⟩⟩
  | cons head tail ih =>
      obtain ⟨ch, sent, offered, unshut, -⟩ :=
        Chan.offer_open p (opened head (List.mem_cons_self ..))
      have same : ∀ c, ((Function.update handlers head { handlers head with ch := ch }) c).phase =
            (handlers c).phase ∧
          ((Function.update handlers head { handlers head with ch := ch }) c).ch.closed =
            (handlers c).ch.closed := by
        intro c
        by_cases own : c = head
        · subst own
          simp [unshut, opened c (List.mem_cons_self ..)]
        · simp [own]
      simp only [fanOut, offered]
      obtain ⟨finished, kept⟩ := ih _ fun c member => by
        rw [(same c).2]
        exact opened c (List.mem_cons_of_mem _ member)
      exact ⟨finished, fun c => ⟨(kept c).1.trans (same c).1, (kept c).2.trans (same c).2⟩⟩

theorem closeAll_open (clients : List Nat) (handlers : Nat → Client) (distinct : clients.Nodup)
    (opened : ∀ c ∈ clients, (handlers c).ch.closed = false) :
    (closeAll clients handlers).2 = true := by
  induction clients generalizing handlers with
  | nil => rfl
  | cons head tail ih =>
      rw [List.nodup_cons] at distinct
      simp only [closeAll, Chan.close_open (opened head (List.mem_cons_self ..))]
      apply ih _ distinct.2
      intro c member
      have apart : c ≠ head := by
        rintro rfl
        exact distinct.1 member
      simpa [apart] using opened c (List.mem_cons_of_mem _ member)

theorem Live.send_sound {s : Broker} (live : Live s) (p : SsePayload) : Sound (s.send p) := by
  obtain ⟨finished, kept⟩ := fanOut_open p s.clients.keys s.handlers
    fun c member => live.open_of_client (AList.mem_keys.mpr member)
  refine ⟨by simp [send, finished], fun _ => live.of_frame ?_ ?_ ?_ ?_ rfl⟩
  · exact fun c shut => (kept c).2.symm.trans shut
  · exact fun c returned => (kept c).1.trans returned
  · exact fun c member => Or.inl member
  · exact fun c member => Or.inl member

theorem Live.shutdown_sound {s : Broker} (live : Live s) (canceled : Bool) :
    Sound (s.shutdown canceled) := by
  have finished := closeAll_open s.clients.keys s.handlers s.clients.keys_nodup
    fun c member => live.open_of_client (AList.mem_keys.mpr member)
  constructor <;> simp [shutdown, finished]

/-- Closing the channel of the client that left: it was in the queue once, and by the guard it
is not waiting to be registered. -/
theorem Live.unsubscribe_sound {s : Broker} (live : Live s) (running : s.run = .running) {c : Nat}
    {unsubscribe : Chan Nat} (taken : s.unsubscribe.buffer = c :: unsubscribe.buffer)
    (registered : c ∉ s.subscribe.buffer) :
    ∃ ch, (s.handlers c).ch.close = some ch ∧
      Sound { s with
        unsubscribe := unsubscribe
        clients := s.clients.erase c
        handlers := Function.update s.handlers c { s.handlers c with ch := ch } } := by
  have queued : c ∈ s.unsubscribe.buffer := by
    rw [taken]
    exact List.mem_cons_self ..
  have opened : (s.handlers c).ch.closed = false := by
    rw [← Bool.not_eq_true]
    exact fun closed => (live.retired c closed).2.2.2 queued
  have once := live.once
  rw [taken, List.nodup_cons] at once
  refine ⟨_, Chan.close_open opened, by simp [running], fun _ => ⟨?_, once.2, ?_⟩⟩
  · intro other shut
    by_cases own : other = c
    · subst own
      simpa [registered, once.1] using live.left other queued
    · have earlier := live.retired other (by simpa [own] using shut)
      rw [taken, List.mem_cons, not_or] at earlier
      simpa [own] using ⟨earlier.1, earlier.2.1, earlier.2.2.1, earlier.2.2.2.2⟩
  · intro other member
    have returned := live.left other (by rw [taken]; exact List.mem_cons_of_mem _ member)
    by_cases own : other = c
    · subst own
      simpa using returned
    · simpa [own] using returned

section Steps

variable {marshal : List (String × Value) → Option String}

theorem turn_sound {s next : Broker} {picked : Case} (live : Live s) (running : s.run = .running)
    (registered : Registered s (.turn picked)) (turned : s.turn marshal picked = some next) :
    Sound next := by
  cases picked with
  | done =>
      simp only [turn] at turned
      split at turned
      · cases turned
        exact live.shutdown_sound true
      · contradiction
  | subscribe =>
      simp only [turn] at turned
      split at turned
      · next c subscribe received =>
          cases turned
          have taken := Chan.receive_value received
          refine ⟨by simp [running], fun _ => live.of_frame (fun _ shut => shut)
            (fun _ returned => returned) ?_ ?_ rfl⟩
          · intro other member
            rw [AList.mem_insert] at member
            rcases member with rfl | earlier
            · exact Or.inr (by rw [taken]; exact List.mem_cons_self ..)
            · exact Or.inl earlier
          · intro other member
            exact Or.inl (by rw [taken]; exact List.mem_cons_of_mem _ member)
      · contradiction
  | unsubscribe =>
      simp only [turn] at turned
      split at turned
      · next c unsubscribe received =>
          have taken := Chan.receive_value received
          have away : c ∉ s.subscribe.buffer := registered c (by rw [taken]; rfl)
          obtain ⟨ch, closed, sound⟩ := live.unsubscribe_sound running taken away
          rw [closed] at turned
          cases turned
          exact sound
      · contradiction
  | input =>
      simp only [turn] at turned
      split at turned
      · contradiction
      · cases turned
        exact live.shutdown_sound false
      · next ev input received =>
          have fed : Live { s with input := input } := live.of_frame (fun _ shut => shut)
            (fun _ returned => returned) (fun _ member => Or.inl member)
            (fun _ member => Or.inl member) rfl
          split at turned
          · cases turned
            exact ⟨by simp [running], fun _ => fed⟩
          · cases turned
            exact fed.send_sound _
  | tick =>
      cases turned
      exact live.send_sound .heartbeat

theorem handler_run {s next : Broker} {c : Nat} {m : Move} {text : Option String}
    (moved : s.handler c m = some (next, text)) : next.run = s.run := by
  unfold handler move at moved
  grind

theorem Live.subscribed {s : Broker} (live : Live s) {c : Nat} {subscribe : Chan Nat}
    (waiting : (s.handlers c).phase = .subscribing)
    (queued : subscribe.buffer = s.subscribe.buffer ++ [c]) :
    Live { s with
      subscribe := subscribe
      handlers := Function.update s.handlers c { s.handlers c with phase := .streaming } } := by
  have settled := live.move c { s.handlers c with phase := .streaming }
    (Or.inl (by simp [waiting])) id
  refine settled.of_frame (fun _ shut => shut) (fun _ returned => returned)
    (fun _ member => Or.inl member) ?_ rfl
  intro other member
  rw [queued, List.mem_append, List.mem_singleton] at member
  rcases member with earlier | rfl
  · exact Or.inl earlier
  · exact Or.inr (by simp)

theorem Live.unsubscribed {s : Broker} (live : Live s) {c : Nat} {unsubscribe : Chan Nat}
    (waiting : (s.handlers c).phase = .unsubscribing)
    (queued : unsubscribe.buffer = s.unsubscribe.buffer ++ [c]) :
    Live { s with
      unsubscribe := unsubscribe
      handlers := Function.update s.handlers c { s.handlers c with phase := .returned } } := by
  have settled := live.move c { s.handlers c with phase := .returned } (Or.inr rfl) id
  have present : (s.handlers c).phase ≠ .returned := by simp [waiting]
  refine ⟨?_, ?_, ?_⟩
  · intro other shut
    obtain ⟨returned, outside, unqueued, absent⟩ := settled.retired other shut
    have apart : other ≠ c := by
      rintro rfl
      exact present (live.retired other (by simpa using shut)).1
    refine ⟨returned, outside, unqueued, ?_⟩
    rw [queued, List.mem_append, List.mem_singleton, not_or]
    exact ⟨absent, apart⟩
  · rw [queued]
    exact List.nodup_append_comm.mp
      (List.nodup_cons.mpr ⟨fun member => present (live.left c member), live.once⟩)
  · intro other member
    rw [queued, List.mem_append, List.mem_singleton] at member
    rcases member with earlier | rfl
    · exact settled.left other earlier
    · simp

theorem handler_live {s next : Broker} {c : Nat} {m : Move} {text : Option String}
    (live : Live s) (moved : s.handler c m = some (next, text)) : Live next := by
  cases m with
  | subscribe =>
      simp only [handler] at moved
      split at moved
      · next waiting =>
          split at moved
          · next subscribe offered =>
              cases moved
              exact live.subscribed waiting (Chan.offer_sent offered)
          · contradiction
      · contradiction
  | receive =>
      simp only [handler] at moved
      split at moved
      · next looping =>
          have present : (s.handlers c).phase ≠ .returned := by simp [looping]
          split at moved
          · contradiction
          · cases moved
            exact live.move _ _ (Or.inl present) id
          · next p ch received =>
              cases moved
              exact live.move _ _ (Or.inl present) fun shut =>
                (Chan.receive_closed received).symm.trans shut
      · contradiction
  | leave =>
      simp only [handler] at moved
      split at moved
      · next leaving =>
          cases moved
          exact live.move _ _ (Or.inl (by simp [leaving.1])) id
      · contradiction
  | unsubscribe =>
      simp only [handler] at moved
      split at moved
      · next waiting =>
          split at moved
          · next unsubscribe offered =>
              cases moved
              exact live.unsubscribed waiting (Chan.offer_sent offered)
          · contradiction
      · contradiction

theorem step_sound {s next : Broker} {action : Action} {text : Option String} (sound : Sound s)
    (registered : Registered s action) (moved : s.step marshal action = some (next, text)) :
    Sound next := by
  cases action with
  | connect c =>
      simp only [step] at moved
      split at moved
      · next fresh =>
          cases moved
          exact ⟨sound.calm, fun running => (sound.live running).move _ _
            (Or.inl (by simp [fresh])) (by simp [Chan.make])⟩
      · contradiction
  | disconnect c =>
      simp only [step] at moved
      split at moved
      · cases moved
        exact ⟨sound.calm, fun running => (sound.live running).move _ _ (em' _) id⟩
      · contradiction
  | handler c m =>
      have same := handler_run moved
      exact ⟨by rw [same]; exact sound.calm,
        fun running => handler_live (sound.live (same.symm.trans running)) moved⟩
  | publish ev | closeInput =>
      simp only [step] at moved
      split at moved
      · contradiction
      · cases moved
        exact ⟨sound.calm, fun running => ⟨(sound.live running).retired,
          (sound.live running).once, (sound.live running).left⟩⟩
  | cancel =>
      cases moved
      exact ⟨sound.calm, fun running => ⟨(sound.live running).retired,
        (sound.live running).once, (sound.live running).left⟩⟩
  | turn picked =>
      obtain ⟨running, turned, -⟩ := turn_of_step moved
      exact turn_sound (sound.live running) running registered turned

theorem new_sound (input : Chan AttackEvent) : Sound (new input) where
  calm := by simp [new]
  live _ := by
    refine ⟨?_, List.nodup_nil, ?_⟩
    · intro c shut
      simp [new, Chan.make] at shut
    · intro c member
      simp [new, Chan.make] at member

/-- `Run` neither sends on a closed channel nor closes one twice in any run in which it takes no
client from `unsubscribe` that still waits in `subscribe`. -/
theorem never_panics_of_registered {input : Chan AttackEvent} {final : Broker}
    {trace : List (Entry Broker Action (Option String))}
    (run : Run (step marshal) (new input) trace final)
    (registered : ∀ front entry back, trace = front ++ entry :: back →
      Registered entry.before entry.action) : final.run ≠ .panicked := by
  refine (run.invariant (fun _ s action => Registered s action) (fun _ s => Sound s)
    (new_sound input) ?_ registered).calm
  intro _ s action next text _ sound clear moved
  exact step_sound sound clear moved

end Steps

theorem never_panics_of_registered_sample :
    ∃ (trace : List (Entry Broker Action (Option String))) (final : Broker),
      Run (step fun _ => none) (new (Chan.make 256)) trace final ∧ trace.length = 13 ∧
        final.run ≠ .panicked := by
  have executed : (Run.replay (step fun _ => none) [] (new (Chan.make 256))
      [.connect 0, .handler 0 .subscribe, .connect 1, .handler 1 .subscribe, .turn .subscribe,
        .turn .subscribe, .turn .tick, .handler 0 .receive, .disconnect 0, .handler 0 .leave,
        .handler 0 .unsubscribe, .turn .unsubscribe, .turn .tick]).map
        (fun made => (made.1.length, made.1.all fun entry =>
          decide (Registered entry.before entry.action))) = some (13, true) := by
    decide +kernel
  obtain ⟨⟨trace, final⟩, replayed, observed⟩ := Option.map_eq_some_iff.mp executed
  simp only [Prod.mk.injEq] at observed
  obtain ⟨long, clear⟩ := observed
  have run := Run.of_replay .start replayed
  refine ⟨trace, final, run, long, never_panics_of_registered run ?_⟩
  rintro front entry back rfl
  simpa using List.all_eq_true.mp clear entry (by simp)

/-- A client that is gone at once is let go before it is registered; the next heartbeat is a
send on its closed channel. -/
theorem heartbeat_to_closed_channel :
    ∃ (trace : List (Entry Broker Action (Option String))) (final : Broker),
      Run (step fun _ => none) (new (Chan.make 256)) trace final ∧ final.run = .panicked := by
  have executed : (Run.replay (step fun _ => none) [] (new (Chan.make 256))
      [.connect 0, .handler 0 .subscribe, .disconnect 0, .handler 0 .leave,
        .handler 0 .unsubscribe, .turn .unsubscribe, .turn .subscribe, .turn .tick]).map
        (fun made => made.2.run) = some .panicked := by
    decide +kernel
  obtain ⟨⟨trace, final⟩, replayed, panicked⟩ := Option.map_eq_some_iff.mp executed
  exact ⟨trace, final, Run.of_replay .start replayed, panicked⟩

end Mitigador.Api.Broker
