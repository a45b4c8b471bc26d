import Mitigador.Api.Channels

/-! Leaving after the broker has stopped. Nobody receives from `subscribe` and `unsubscribe` any
more, so every handler that is still in its call needs a free place in their buffers. -/

namespace Mitigador.Api.Broker

open Go Detect Lib

abbrev Trace := List (Entry Broker Action (Option String))

def callers : Trace → List Nat
  | [] => []
  | ⟨_, .connect c, _⟩ :: back => c :: callers back
  | _ :: back => callers back

def inCall : Phase → Bool
  | .subscribing | .streaming | .unsubscribing => true
  | .absent | .returned => false

def entering (calls : List Nat) (s : Broker) : Nat :=
  calls.countP (fun c => (s.handlers c).phase = .subscribing) + s.subscribe.buffer.length

def leaving (calls : List Nat) (s : Broker) : Nat :=
  calls.countP (fun c => inCall (s.handlers c).phase) + s.unsubscribe.buffer.length

def Stopped (s : Broker) : Prop := ∃ canceled, s.run = .returned canceled

/-- A handler waits for a place in a buffer. -/
def Stranded (s : Broker) : Prop :=
  ∃ c, (s.handlers c).phase = .subscribing ∧
      s.subscribe.buffer.length = s.subscribe.capacity ∨
    (s.handlers c).phase = .unsubscribing ∧
      s.unsubscribe.buffer.length = s.unsubscribe.capacity

def Room (calls : List Nat) (s : Broker) : Prop := entering calls s ≤ 4 ∧ leaving calls s ≤ 4

/-- The handlers of a run are those that were called, and the two channels are never closed. -/
structure Wired (calls : List Nat) (s : Broker) : Prop where
  listed : ∀ c, (s.handlers c).phase ≠ .absent ↔ c ∈ calls
  distinct : calls.Nodup
  subscribe : s.subscribe.capacity = 4 ∧ s.subscribe.closed = false
  unsubscribe : s.unsubscribe.capacity = 4 ∧ s.unsubscribe.closed = false

theorem fanOut_phase (p : SsePayload) (clients : List Nat) (handlers : Nat → Client) (c : Nat) :
    ((fanOut p clients handlers).1 c).phase = (handlers c).phase := by
  induction clients generalizing handlers with
  | nil => rfl
  | cons head tail ih =>
      unfold fanOut
      split
      · rfl
      · rw [ih]
        by_cases own : c = head
        · rw [own, Function.update_self]
        · rw [Function.update_of_ne own]

theorem closeAll_phase (clients : List Nat) (handlers : Nat → Client) (c : Nat) :
    ((closeAll clients handlers).1 c).phase = (handlers c).phase := by
  induction clients generalizing handlers with
  | nil => rfl
  | cons head tail ih =>
      unfold closeAll
      split
      · rfl
      · rw [ih]
        by_cases own : c = head
        · rw [own, Function.update_self]
        · rw [Function.update_of_ne own]

structure TurnFrame (s next : Broker) : Prop where
  phase : ∀ c, (next.handlers c).phase = (s.handlers c).phase
  subscribe : next.subscribe.capacity = s.subscribe.capacity ∧
    next.subscribe.closed = s.subscribe.closed
  unsubscribe : next.unsubscribe.capacity = s.unsubscribe.capacity ∧
    next.unsubscribe.closed = s.unsubscribe.closed
  queues : Stopped next → next.subscribe = s.subscribe ∧ next.unsubscribe = s.unsubscribe

theorem shutdown_frame (s : Broker) (canceled : Bool) : TurnFrame s (s.shutdown canceled) where
  phase := closeAll_phase _ _
  subscribe := ⟨rfl, rfl⟩
  unsubscribe := ⟨rfl, rfl⟩
  queues _ := ⟨rfl, rfl⟩

theorem send_frame (s : Broker) (p : SsePayload) : TurnFrame s (s.send p) where
  phase := fanOut_phase _ _ _
  subscribe := ⟨rfl, rfl⟩
  unsubscribe := ⟨rfl, rfl⟩
  queues _ := ⟨rfl, rfl⟩

variable {marshal : List (String × Value) → Option String}

theorem turn_frame {s next : Broker} {picked : Case} (running : s.run = .running)
    (turned : s.turn marshal picked = some next) : TurnFrame s next := by
  cases picked with
  | done =>
      simp only [turn] at turned
      split at turned
      · cases turned
        exact shutdown_frame s true
      · contradiction
  | subscribe =>
      simp only [turn] at turned
      split at turned
      · next c subscribe received =>
          cases turned
          refine ⟨fun _ => rfl, ⟨Chan.receive_capacity received, Chan.receive_closed received⟩,
            ⟨rfl, rfl⟩, ?_⟩
          rintro ⟨_, impossible⟩
          exact absurd (running.symm.trans impossible) (by simp)
      · contradiction
  | unsubscribe =>
      simp only [turn] at turned
      split at turned
      · next c unsubscribe received =>
          have kept := And.intro (Chan.receive_capacity received) (Chan.receive_closed received)
          split at turned
          · cases turned
            refine ⟨fun _ => rfl, ⟨rfl, rfl⟩, kept, ?_⟩
            rintro ⟨_, impossible⟩
            contradiction
          · cases turned
            refine ⟨fun d => ?_, ⟨rfl, rfl⟩, kept, ?_⟩
            · by_cases own : d = c
              · simp [own]
              · simp [own]
            · rintro ⟨_, impossible⟩
              exact absurd (running.symm.trans impossible) (by simp)
      · contradiction
  | input =>
      simp only [turn] at turned
      split at turned
      · contradiction
      · cases turned
        exact shutdown_frame s false
      · next ev input received =>
          split at turned
          · cases turned
            exact ⟨fun _ => rfl, ⟨rfl, rfl⟩, ⟨rfl, rfl⟩, fun _ => ⟨rfl, rfl⟩⟩
          · cases turned
            obtain ⟨phase, subscribe, unsubscribe, queues⟩ := send_frame { s with input := input } _
            exact ⟨phase, subscribe, unsubscribe, queues⟩
  | tick =>
      cases turned
      exact send_frame s .heartbeat

theorem sum_update {α : Type*} (weight : α → Nat) (f : Nat → α) (c : Nat) (value : α)
    {calls : List Nat} (distinct : calls.Nodup) (member : c ∈ calls) :
    (calls.map fun d => weight (Function.update f c value d)).sum + weight (f c) =
      (calls.map fun d => weight (f d)).sum + weight value := by
  induction calls with
  | nil => contradiction
  | cons head tail ih =>
      obtain ⟨outside, distinct⟩ := List.nodup_cons.mp distinct
      rw [List.map_cons, List.map_cons, List.sum_cons, List.sum_cons]
      by_cases own : head = c
      · subst own
        have rest : (tail.map fun d => weight (Function.update f head value d)) =
            tail.map fun d => weight (f d) := by
          apply List.map_congr_left
          intro d present
          have apart : d ≠ head := fun same => outside (same ▸ present)
          rw [Function.update_of_ne apart]
        rw [rest, Function.update_self]
        omega
      · have later := ih distinct ((List.mem_cons.mp member).resolve_left (Ne.symm own))
        rw [Function.update_of_ne own]
        omega

theorem countP_eq_sum {α : Type*} (p : α → Bool) (values : List α) :
    values.countP p = (values.map fun value => (p value).toNat).sum := by
  induction values with
  | nil => rfl
  | cons head tail ih =>
      rw [List.countP_cons, List.map_cons, List.sum_cons, ih]
      cases p head <;> simp [Nat.add_comm]

/-- A step of one handler that is there. Where it gives up its place among those that have to
register or to leave, it takes one in the buffer. -/
structure Handed (s next : Broker) (c : Nat) (client : Client) : Prop where
  handlers : next.handlers = Function.update s.handlers c client
  run : next.run = s.run
  present : (s.handlers c).phase ≠ .absent ∧ client.phase ≠ .absent
  subscribe : next.subscribe.capacity = s.subscribe.capacity ∧
    next.subscribe.closed = s.subscribe.closed
  unsubscribe : next.unsubscribe.capacity = s.unsubscribe.capacity ∧
    next.unsubscribe.closed = s.unsubscribe.closed
  entering : next.subscribe.buffer.length + (decide (client.phase = .subscribing)).toNat =
    s.subscribe.buffer.length + (decide ((s.handlers c).phase = .subscribing)).toNat
  leaving : next.unsubscribe.buffer.length + (inCall client.phase).toNat =
    s.unsubscribe.buffer.length + (inCall (s.handlers c).phase).toNat

theorem Handed.of_local {s : Broker} {c : Nat} {client : Client}
    (present : (s.handlers c).phase ≠ .absent ∧ client.phase ≠ .absent)
    (entering : client.phase = .subscribing ↔ (s.handlers c).phase = .subscribing)
    (leaving : inCall client.phase = inCall (s.handlers c).phase) :
    Handed s { s with handlers := Function.update s.handlers c client } c client where
  handlers := rfl
  run := rfl
  present := present
  subscribe := ⟨rfl, rfl⟩
  unsubscribe := ⟨rfl, rfl⟩
  entering := by simp only [entering]
  leaving := by rw [leaving]

theorem handler_handed {s next : Broker} {c : Nat} {m : Move} {text : Option String}
    (moved : s.handler c m = some (next, text)) : ∃ client, Handed s next c client := by
  cases m with
  | subscribe =>
      simp only [handler] at moved
      split at moved
      · next waiting =>
          split at moved
          · next subscribe offered =>
              obtain ⟨closed, capacity, queued, -⟩ := Chan.offer_spec offered
              cases moved
              refine ⟨_, rfl, rfl, ⟨by simp [waiting], by simp⟩, ⟨capacity, closed⟩, ⟨rfl, rfl⟩,
                ?_, ?_⟩
              · simp [queued, waiting]
              · simp [inCall, waiting]
          · contradiction
      · contradiction
  | receive =>
      simp only [handler] at moved
      split at moved
      · next looping =>
          split at moved
          · contradiction
          · cases moved
            exact ⟨_, .of_local (by simp [looping]) (by simp [looping]) (by simp [looping, inCall])⟩
          · cases moved
            exact ⟨_, .of_local (by simp [looping]) (by simp) (by simp)⟩
      · contradiction
  | leave =>
      simp only [handler] at moved
      split at moved
      · next leaving =>
          obtain ⟨looping, -⟩ := leaving
          cases moved
          exact ⟨_, .of_local (by simp [looping]) (by simp [looping]) (by simp [looping, inCall])⟩
      · contradiction
  | unsubscribe =>
      simp only [handler] at moved
      split at moved
      · next waiting =>
          split at moved
          · next unsubscribe offered =>
              obtain ⟨closed, capacity, queued, -⟩ := Chan.offer_spec offered
              cases moved
              refine ⟨_, rfl, rfl, ⟨by simp [waiting], by simp⟩, ⟨rfl, rfl⟩, ⟨capacity, closed⟩,
                ?_, ?_⟩
              · simp [waiting]
              · simp [queued, inCall, waiting]
          · contradiction
      · contradiction

def Other : Action → Prop
  | .connect _ | .turn _ => False
  | _ => True

inductive Moved (marshal : List (String × Value) → Option String) (s : Broker) :
    Action → Broker → Prop
  | connect (c : Nat) (fresh : (s.handlers c).phase = .absent) :
      Moved marshal s (.connect c)
        { s with handlers := Function.update s.handlers c ⟨.subscribing, false, Chan.make 16⟩ }
  | handed {action : Action} {next : Broker} (c : Nat) (client : Client)
      (other : Other action) (handed : Handed s next c client) :
      Moved marshal s action next
  | outside {action : Action} (input : Chan AttackEvent) (canceled : Bool)
      (other : Other action) :
      Moved marshal s action { s with input := input, canceled := canceled }
  | turn {next : Broker} (picked : Case) (running : s.run = .running)
      (turned : s.turn marshal picked = some next) : Moved marshal s (.turn picked) next

theorem step_cases {s next : Broker} {action : Action} {text : Option String}
    (moved : s.step marshal action = some (next, text)) : Moved marshal s action next := by
  cases action with
  | connect c =>
      simp only [step] at moved
      split at moved
      · next fresh =>
          cases moved
          exact .connect c fresh
      · contradiction
  | disconnect c =>
      simp only [step] at moved
      split at moved
      · next present =>
          cases moved
          exact .handed c _ trivial (.of_local ⟨present, present⟩ Iff.rfl rfl)
      · contradiction
  | handler c m =>
      obtain ⟨client, handed⟩ := handler_handed moved
      exact .handed c client trivial handed
  | publish ev =>
      simp only [step] at moved
      split at moved
      · contradiction
      · cases moved
        exact .outside _ s.canceled trivial
  | closeInput =>
      simp only [step] at moved
      split at moved
      · contradiction
      · cases moved
        exact .outside _ s.canceled trivial
  | cancel =>
      cases moved
      exact .outside s.input true trivial
  | turn picked =>
      obtain ⟨running, turned, rfl⟩ := turn_of_step moved
      exact .turn picked running turned

theorem callers_of_other {s : Broker} {action : Action} {text : Option String} {back : Trace}
    (other : Other action) : callers (⟨s, action, text⟩ :: back) = callers back := by
  cases action with
  | connect c => exact absurd other id
  | disconnect c => rfl
  | handler c m => rfl
  | publish ev => rfl
  | closeInput => rfl
  | cancel => rfl
  | turn picked => exact absurd other id

theorem Wired.connected {calls : List Nat} {s : Broker} {c : Nat} (wired : Wired calls s)
    (fresh : (s.handlers c).phase = .absent) :
    Wired (c :: calls)
      { s with handlers := Function.update s.handlers c ⟨.subscribing, false, Chan.make 16⟩ } where
  listed d := by
    by_cases own : d = c
    · simp [own]
    · simpa [own] using wired.listed d
  distinct := by
    refine List.nodup_cons.mpr ⟨fun member => ?_, wired.distinct⟩
    exact (wired.listed c).mpr member fresh
  subscribe := wired.subscribe
  unsubscribe := wired.unsubscribe

theorem Wired.handed {calls : List Nat} {s next : Broker} {c : Nat} {client : Client}
    (wired : Wired calls s) (handed : Handed s next c client) : Wired calls next where
  listed d := by
    rw [handed.handlers]
    by_cases own : d = c
    · subst own
      simpa [handed.present.2] using (wired.listed d).mp handed.present.1
    · simpa [own] using wired.listed d
  distinct := wired.distinct
  subscribe := by
    rw [handed.subscribe.1, handed.subscribe.2]
    exact wired.subscribe
  unsubscribe := by
    rw [handed.unsubscribe.1, handed.unsubscribe.2]
    exact wired.unsubscribe

theorem Wired.turned {calls : List Nat} {s next : Broker} (wired : Wired calls s)
    (frame : TurnFrame s next) : Wired calls next where
  listed d := by
    rw [frame.phase]
    exact wired.listed d
  distinct := wired.distinct
  subscribe := by
    rw [frame.subscribe.1, frame.subscribe.2]
    exact wired.subscribe
  unsubscribe := by
    rw [frame.unsubscribe.1, frame.unsubscribe.2]
    exact wired.unsubscribe

theorem Wired.moved {s next : Broker} {action : Action} {text : Option String} {back : Trace}
    (wired : Wired (callers back) s) (moved : Moved marshal s action next) :
    Wired (callers (⟨s, action, text⟩ :: back)) next := by
  cases moved with
  | connect c fresh => exact wired.connected fresh
  | handed c client other handed =>
      rw [callers_of_other other]
      exact wired.handed handed
  | outside input canceled other =>
      rw [callers_of_other other]
      exact ⟨wired.listed, wired.distinct, wired.subscribe, wired.unsubscribe⟩
  | turn picked running turned => exact wired.turned (turn_frame running turned)

theorem Wired.conserved {calls : List Nat} {s next : Broker} {c : Nat} {client : Client}
    (wired : Wired calls s) (handed : Handed s next c client) :
    entering calls next = entering calls s ∧ leaving calls next = leaving calls s := by
  have member : c ∈ calls := (wired.listed c).mp handed.present.1
  unfold entering leaving
  rw [handed.handlers]
  simp only [countP_eq_sum]
  constructor
  · have moved := sum_update (fun client => (decide (client.phase = .subscribing)).toNat)
      s.handlers c client wired.distinct member
    have queued := handed.entering
    omega
  · have moved := sum_update (fun client => (inCall client.phase).toNat) s.handlers c client
      wired.distinct member
    have queued := handed.leaving
    omega

theorem Wired.crowded {calls : List Nat} {s : Broker} {c : Nat} (wired : Wired calls s)
    (fresh : (s.handlers c).phase = .absent) {next : Broker}
    (called : next =
      { s with handlers := Function.update s.handlers c ⟨.subscribing, false, Chan.make 16⟩ }) :
    entering (c :: calls) next = entering calls s + 1 ∧
      leaving (c :: calls) next = leaving calls s + 1 := by
  have outside : c ∉ calls := fun member => (wired.listed c).mpr member fresh
  subst called
  have kept : ∀ p : Client → Bool,
      calls.countP (fun d =>
        p (Function.update s.handlers c ⟨.subscribing, false, Chan.make 16⟩ d)) =
        calls.countP fun d => p (s.handlers d) := by
    intro p
    apply List.countP_congr
    intro d member
    have apart : d ≠ c := fun same => outside (same ▸ member)
    rw [Function.update_of_ne apart]
  have registering := kept fun client => decide (client.phase = .subscribing)
  have staying := kept fun client => inCall client.phase
  unfold entering leaving
  rw [List.countP_cons, List.countP_cons]
  simp only [Function.update_self, inCall, decide_true, if_true]
  simp only [inCall] at staying
  omega

theorem Wired.settled {calls : List Nat} {s later : Broker} {newer : Trace}
    (wired : Wired calls s) (stopped : Stopped s) (more : Run (step marshal) s newer later)
    (alone : callers newer = []) :
    Wired calls later ∧ Stopped later ∧ entering calls later = entering calls s ∧
      leaving calls later = leaving calls s := by
  induction more with
  | start => exact ⟨wired, stopped, rfl, rfl⟩
  | @step trace state next action output past moved ih =>
      cases step_cases moved with
      | connect c fresh => contradiction
      | handed c client other handed =>
          rw [callers_of_other other] at alone
          obtain ⟨wired, stopped, entering, leaving⟩ := ih alone
          obtain ⟨registering, staying⟩ := wired.conserved handed
          refine ⟨wired.handed handed, ?_, registering.trans entering, staying.trans leaving⟩
          unfold Stopped
          rw [handed.run]
          exact stopped
      | outside input canceled other =>
          rw [callers_of_other other] at alone
          obtain ⟨wired, stopped, entering, leaving⟩ := ih alone
          exact ⟨⟨wired.listed, wired.distinct, wired.subscribe, wired.unsubscribe⟩, stopped,
            entering, leaving⟩
      | turn picked running turned =>
          obtain ⟨-, stopped, -⟩ := ih alone
          obtain ⟨canceled, stopped⟩ := stopped
          rw [running] at stopped
          contradiction

theorem Wired.not_stranded {calls : List Nat} {s : Broker} (wired : Wired calls s)
    (room : Room calls s) : ¬ Stranded s := by
  obtain ⟨registering, staying⟩ := room
  rintro ⟨c, ⟨waiting, full⟩ | ⟨waiting, full⟩⟩
  · have member : c ∈ calls := (wired.listed c).mp (by simp [waiting])
    have counted : 0 < calls.countP fun c => decide ((s.handlers c).phase = .subscribing) :=
      List.countP_pos_iff.mpr ⟨c, member, by simpa using waiting⟩
    have capacity := wired.subscribe.1
    unfold entering at registering
    omega
  · have member : c ∈ calls := (wired.listed c).mp (by simp [waiting])
    have counted : 0 < calls.countP fun c => inCall (s.handlers c).phase :=
      List.countP_pos_iff.mpr ⟨c, member, by simp [waiting, inCall]⟩
    have capacity := wired.unsubscribe.1
    unfold leaving at staying
    omega

def Empty (s : Broker) : Prop := ∀ c, inCall (s.handlers c).phase = false

/-- From here on, without further calls, no handler is ever stranded, and all of them can still
return. -/
def Leaves (marshal : List (String × Value) → Option String) (s : Broker) : Prop :=
  ∀ newer later, Run (step marshal) s newer later → callers newer = [] →
    ¬ Stranded later ∧
      ∃ rest last, Run (step marshal) later rest last ∧ callers rest = [] ∧ Empty last

def ahead : Phase → Nat
  | .subscribing => 3
  | .streaming => 2
  | .unsubscribing => 1
  | .absent | .returned => 0

variable (marshal) in
theorem Wired.advance {calls : List Nat} {s : Broker} (wired : Wired calls s) {c : Nat}
    (present : inCall (s.handlers c).phase = true) (free : ¬ Stranded s) :
    ∃ newer next client, Run (Broker.step marshal) s newer next ∧ callers newer = [] ∧
      next.run = s.run ∧ next.handlers = Function.update s.handlers c client ∧
        ahead client.phase + 1 = ahead (s.handlers c).phase := by
  cases standing : (s.handlers c).phase with
  | absent => simp [standing, inCall] at present
  | returned => simp [standing, inCall] at present
  | subscribing =>
      obtain ⟨subscribe, sent, offered, -⟩ := Chan.offer_open c wired.subscribe.2
      obtain ⟨-, -, -, full⟩ := Chan.offer_spec offered
      cases sent with
      | false => exact absurd ⟨c, Or.inl ⟨standing, full.mp rfl⟩⟩ free
      | true =>
          have moved : s.step marshal (.handler c .subscribe) = some ({ s with
              subscribe := subscribe
              handlers := Function.update s.handlers c
                { s.handlers c with phase := .streaming } }, none) := by
            simp [Broker.step, handler, standing, offered, move]
          exact ⟨_, _, _, .step .start moved, rfl, rfl, rfl, rfl⟩
  | streaming =>
      have gone : s.step marshal (.disconnect c) = some ({ s with
          handlers := Function.update s.handlers c { s.handlers c with done := true } },
          none) := by
        simp [Broker.step, standing, move]
      have left : Broker.step marshal { s with
            handlers := Function.update s.handlers c { s.handlers c with done := true } }
          (.handler c .leave) = some ({ s with
            handlers := Function.update s.handlers c
              { s.handlers c with phase := .unsubscribing, done := true } }, none) := by
        simp [Broker.step, handler, standing, move]
      exact ⟨_, _, _, .step (.step .start gone) left, rfl, rfl, rfl, rfl⟩
  | unsubscribing =>
      obtain ⟨unsubscribe, sent, offered, -⟩ := Chan.offer_open c wired.unsubscribe.2
      obtain ⟨-, -, -, full⟩ := Chan.offer_spec offered
      cases sent with
      | false => exact absurd ⟨c, Or.inr ⟨standing, full.mp rfl⟩⟩ free
      | true =>
          have moved : s.step marshal (.handler c .unsubscribe) = some ({ s with
              unsubscribe := unsubscribe
              handlers := Function.update s.handlers c
                { s.handlers c with phase := .returned } }, none) := by
            simp [Broker.step, handler, standing, offered, move]
          exact ⟨_, _, _, .step .start moved, rfl, rfl, rfl, rfl⟩

theorem callers_append (newer older : Trace) :
    callers (newer ++ older) = callers newer ++ callers older := by
  induction newer with
  | nil => rfl
  | cons entry newer ih =>
      rcases entry with ⟨s, action, text⟩
      cases action with
      | connect c => exact congrArg (c :: ·) ih
      | disconnect c => exact ih
      | handler c m => exact ih
      | publish ev => exact ih
      | closeInput => exact ih
      | cancel => exact ih
      | turn picked => exact ih

variable (marshal) in
theorem Wired.finish {calls : List Nat} {s : Broker} (wired : Wired calls s)
    (stopped : Stopped s) :
    ∃ newer last, Run (Broker.step marshal) s newer last ∧ callers newer = [] ∧
      (Stranded last ∨ Empty last) := by
  induction remaining : (calls.map fun c => ahead (s.handlers c).phase).sum using
    Nat.strongRecOn generalizing s with
  | ind remaining ih =>
      by_cases stranded : Stranded s
      · exact ⟨[], s, .start, rfl, Or.inl stranded⟩
      by_cases empty : Empty s
      · exact ⟨[], s, .start, rfl, Or.inr empty⟩
      obtain ⟨c, present⟩ := not_forall.mp empty
      rw [Bool.not_eq_false] at present
      obtain ⟨newer, next, client, more, alone, -, handlers, advanced⟩ :=
        wired.advance marshal present stranded
      obtain ⟨wired', stopped', -⟩ := wired.settled stopped more alone
      have member : c ∈ calls := by
        refine (wired.listed c).mp fun absent => ?_
        simp [absent, inCall] at present
      have moved := sum_update (fun client => ahead client.phase) s.handlers c client
        wired.distinct member
      rw [← handlers] at moved
      obtain ⟨rest, last, further, quiet, ended⟩ :=
        ih _ (by omega) wired' stopped' rfl
      refine ⟨rest ++ newer, last, more.trans further, ?_, ended⟩
      rw [callers_append, quiet, alone, List.nil_append]

theorem Wired.room_iff_leaves {calls : List Nat} {s : Broker} (wired : Wired calls s)
    (stopped : Stopped s) : Room calls s ↔ Leaves marshal s := by
  constructor
  · intro room newer later more alone
    obtain ⟨wired, stopped, registering, staying⟩ := wired.settled stopped more alone
    have roomy : ∀ {t}, entering calls t = entering calls later →
        leaving calls t = leaving calls later → Room calls t := by
      intro t same alike
      unfold Room
      rw [same, alike, registering, staying]
      exact room
    refine ⟨wired.not_stranded (roomy rfl rfl), ?_⟩
    obtain ⟨rest, last, further, quiet, ended⟩ := wired.finish marshal stopped
    obtain ⟨wired, -, same, alike⟩ := wired.settled stopped further quiet
    have free := wired.not_stranded (roomy same alike)
    exact ⟨rest, last, further, quiet, ended.resolve_left free⟩
  · intro leaves
    obtain ⟨-, newer, last, more, alone, empty⟩ := leaves [] s .start rfl
    obtain ⟨wired, -, registering, staying⟩ := wired.settled stopped more alone
    have gone : (calls.countP fun c => inCall (last.handlers c).phase) = 0 := by
      rw [List.countP_eq_zero]
      intro c _
      rw [empty c]
      decide
    have registered :
        (calls.countP fun c => decide ((last.handlers c).phase = .subscribing)) = 0 := by
      rw [List.countP_eq_zero]
      intro c _ waiting
      have out := empty c
      rw [of_decide_eq_true waiting] at out
      contradiction
    unfold Room
    rw [← registering, ← staying]
    unfold entering leaving
    rw [gone, registered]
    have first := last.subscribe.bounded
    have second := last.unsubscribe.bounded
    rw [wired.subscribe.1] at first
    rw [wired.unsubscribe.1] at second
    omega

def Stopping (s : Broker) (picked : Case) : Prop :=
  (picked = .done ∨ picked = .input ∧ s.input.buffer = []) ∧
    ∀ c ∈ s.clients.keys, (s.handlers c).ch.closed = false

/-- `Run` returns only while there is room for the handlers, and a handler called after that
finds room. -/
def Roomy (back : Trace) (s : Broker) : Action → Prop
  | .turn picked => Stopping s picked → Room (callers back) s
  | .connect _ => Stopped s → entering (callers back) s < 4 ∧ leaving (callers back) s < 4
  | _ => True

instance (s : Broker) : Decidable (Stopped s) :=
  match standing : s.run with
  | .running => isFalse (by simp [Stopped, standing])
  | .panicked => isFalse (by simp [Stopped, standing])
  | .returned canceled => isTrue ⟨canceled, standing⟩

instance (calls : List Nat) (s : Broker) : Decidable (Room calls s) :=
  inferInstanceAs (Decidable (_ ∧ _))

instance (s : Broker) (picked : Case) : Decidable (Stopping s picked) :=
  decidable_of_iff ((picked = .done ∨ picked = .input ∧ s.input.buffer.isEmpty = true) ∧
    ∀ c ∈ s.clients.keys, (s.handlers c).ch.closed = false) (by simp [Stopping])

instance (back : Trace) (s : Broker) (action : Action) : Decidable (Roomy back s action) :=
  match action with
  | .turn picked => inferInstanceAs (Decidable (Stopping s picked → Room (callers back) s))
  | .connect _ => inferInstanceAs (Decidable (Stopped s →
      entering (callers back) s < 4 ∧ leaving (callers back) s < 4))
  | .disconnect _ | .handler _ _ | .publish _ | .closeInput | .cancel => isTrue trivial

theorem closeAll_closes (clients : List Nat) (handlers : Nat → Client)
    (finished : (closeAll clients handlers).2 = true) :
    ∀ c ∈ clients, (handlers c).ch.closed = false := by
  induction clients generalizing handlers with
  | nil => simp
  | cons head tail ih =>
      unfold closeAll at finished
      split at finished
      · contradiction
      · next ch closed =>
          obtain ⟨opened, -⟩ := Chan.close_spec closed
          intro c member
          by_cases own : c = head
          · rw [own]
            exact opened
          · have later := ih _ finished c ((List.mem_cons.mp member).resolve_left own)
            rwa [Function.update_of_ne own] at later

theorem shutdown_stopped (s : Broker) (canceled : Bool) :
    Stopped (s.shutdown canceled) ↔ ∀ c ∈ s.clients.keys, (s.handlers c).ch.closed = false := by
  constructor
  · rintro ⟨_, stopped⟩
    apply closeAll_closes
    simp only [shutdown] at stopped
    split at stopped
    · assumption
    · contradiction
  · intro opened
    have finished := closeAll_open s.clients.keys s.handlers s.clients.keys_nodup opened
    exact ⟨canceled, by simp [shutdown, finished]⟩

theorem turn_stopped {s next : Broker} {picked : Case} (running : s.run = .running)
    (turned : s.turn marshal picked = some next) : Stopped next ↔ Stopping s picked := by
  have going : ¬ Stopped s := by
    rintro ⟨_, stopped⟩
    rw [running] at stopped
    contradiction
  have never : ∀ t : Broker, t.run = .running ∨ t.run = .panicked → ¬ Stopped t := by
    rintro t (run | run) ⟨_, stopped⟩
    · rw [run] at stopped
      contradiction
    · rw [run] at stopped
      contradiction
  unfold Stopping
  cases picked with
  | done =>
      simp only [turn] at turned
      split at turned
      · cases turned
        rw [shutdown_stopped]
        simp
      · contradiction
  | subscribe =>
      simp only [turn] at turned
      split at turned
      · cases turned
        simp only [reduceCtorEq, false_and, or_self, iff_false]
        exact never _ (Or.inl running)
      · contradiction
  | unsubscribe =>
      simp only [turn] at turned
      split at turned
      · simp only [reduceCtorEq, false_and, or_self, iff_false]
        split at turned
        · cases turned
          exact never _ (Or.inr rfl)
        · cases turned
          exact never _ (Or.inl running)
      · contradiction
  | input =>
      simp only [turn] at turned
      split at turned
      · contradiction
      · next received =>
          cases turned
          rw [shutdown_stopped]
          simp [Chan.receive_ended received]
      · next ev input received =>
          have held : s.input.buffer ≠ [] := by
            rw [Chan.receive_value received]
            simp
          simp only [held, and_false, or_self, false_and, iff_false, reduceCtorEq]
          split at turned
          · cases turned
            exact never _ (Or.inl running)
          · cases turned
            apply never
            simp only [send]
            split
            · exact Or.inl rfl
            · exact Or.inr rfl
  | tick =>
      cases turned
      simp only [reduceCtorEq, false_and, or_self, iff_false]
      apply never
      simp only [send]
      split
      · exact Or.inl rfl
      · exact Or.inr rfl

theorem room_of_frame {calls : List Nat} {s next : Broker} (frame : TurnFrame s next)
    (stopped : Stopped next) : Room calls next ↔ Room calls s := by
  obtain ⟨subscribe, unsubscribe⟩ := frame.queues stopped
  unfold Room entering leaving
  rw [subscribe, unsubscribe]
  simp only [frame.phase]

theorem roomy_of_other {s : Broker} {action : Action} {back : Trace} (other : Other action) :
    Roomy back s action := by
  cases action with
  | connect c => exact absurd other id
  | disconnect c => trivial
  | handler c m => trivial
  | publish ev => trivial
  | closeInput => trivial
  | cancel => trivial
  | turn picked => exact absurd other id

theorem new_wired (input : Chan AttackEvent) : Wired [] (new input) where
  listed c := by simp [new]
  distinct := List.nodup_nil
  subscribe := ⟨rfl, rfl⟩
  unsubscribe := ⟨rfl, rfl⟩

theorem wired_of_run {input : Chan AttackEvent} {final : Broker} {trace : Trace}
    (run : Run (step marshal) (new input) trace final) : Wired (callers trace) final := by
  induction run with
  | start => exact new_wired input
  | step past moved ih => exact ih.moved (step_cases moved)

/-- What one step does to the room: it stays, unless `Run` returns or a handler is called. -/
theorem roomy_iff {s next : Broker} {action : Action} {text : Option String} {back : Trace}
    (wired : Wired (callers back) s) (before : Stopped s → Room (callers back) s)
    (moved : Moved marshal s action next) :
    Roomy back s action ↔
      (Stopped next → Room (callers (⟨s, action, text⟩ :: back)) next) := by
  cases moved with
  | connect c fresh =>
      obtain ⟨registering, staying⟩ := wired.crowded fresh rfl
      show (Stopped s → _) ↔ (Stopped s → Room (c :: callers back) _)
      unfold Room
      rw [registering, staying]
      exact Iff.rfl
  | handed c client other handed =>
      rw [callers_of_other other]
      obtain ⟨registering, staying⟩ := wired.conserved handed
      refine ⟨fun _ stopped => ?_, fun _ => roomy_of_other other⟩
      unfold Stopped at stopped
      rw [handed.run] at stopped
      unfold Room
      rw [registering, staying]
      exact before stopped
  | outside input canceled other =>
      rw [callers_of_other other]
      exact ⟨fun _ => before, fun _ => roomy_of_other other⟩
  | turn picked running turned =>
      show (Stopping s picked → Room (callers back) s) ↔ (Stopped next → Room (callers back) next)
      rw [turn_stopped running turned]
      refine forall_congr' fun stopping => (room_of_frame (turn_frame running turned) ?_).symm
      exact (turn_stopped running turned).mpr stopping

theorem room_of_roomy {input : Chan AttackEvent} {final : Broker} {trace : Trace}
    (run : Run (step marshal) (new input) trace final)
    (roomy : ∀ front entry back, trace = front ++ entry :: back →
      Roomy back entry.before entry.action) : Stopped final → Room (callers trace) final := by
  refine run.invariant Roomy (fun trace s => Stopped s → Room (callers trace) s) ?_ ?_ roomy
  · rintro ⟨_, impossible⟩
    contradiction
  · intro trace s action next text past before clear moved
    exact (roomy_iff (wired_of_run past) before (step_cases moved)).mp clear

/-- In every state a run reaches after `Run` has returned, no handler is or can become stranded
and all can leave, if and only if `Run` returned while there was room for the handlers and every
later call found room. -/
theorem never_stranded_iff {input : Chan AttackEvent} {final : Broker} {trace : Trace}
    (run : Run (step marshal) (new input) trace final) :
    (∀ back s, back <:+ trace → Run (step marshal) (new input) back s → Stopped s →
      Leaves marshal s) ↔
      ∀ front entry back, trace = front ++ entry :: back →
        Roomy back entry.before entry.action := by
  constructor
  · intro leaves
    have roomy : ∀ {older : Trace} {s : Broker}, Run (step marshal) (new input) older s →
        older <:+ trace → Stopped s → Room (callers older) s := by
      intro older s past suffix stopped
      have wired := wired_of_run past
      exact (wired.room_iff_leaves stopped).mpr (leaves older s suffix past stopped)
    rintro front entry back rfl
    obtain ⟨past, next, moved, reached⟩ := run.cut
    have earlier : back <:+ front ++ entry :: back := ⟨front ++ [entry], by simp⟩
    have later : entry :: back <:+ front ++ entry :: back := List.suffix_append ..
    exact (roomy_iff (wired_of_run past) (roomy past earlier) (step_cases moved)).mpr
      (roomy reached later)
  · intro roomy back s suffix past stopped
    have clear := Run.guarded_of_suffix (P := fun back entry =>
      Roomy back entry.before entry.action) suffix roomy
    exact ((wired_of_run past).room_iff_leaves stopped).mp (room_of_roomy past clear stopped)

def arrivals (n : Nat) : List Action :=
  (List.range n).flatMap fun c => [.connect c, .handler c .subscribe, .turn .subscribe]

def departures (n : Nat) : List Action :=
  (List.range n).map (.handler · .receive) ++ (List.range n).map (.handler · .unsubscribe)

theorem never_stranded_iff_sample :
    ∃ (trace : Trace) (final : Broker),
      Run (step fun _ => none) (new (Chan.make 256)) trace final ∧ trace.length = 22 ∧
        Stopped final ∧ Leaves (fun _ => none) final := by
  have executed : (Run.replay (step fun _ => none) [] (new (Chan.make 256))
      (arrivals 4 ++ [.cancel, .turn .done] ++ departures 4)).map (fun made =>
        (made.1.length, decide (Stopped made.2), Run.checks (fun back entry =>
          decide (Roomy back entry.before entry.action)) made.1)) = some (22, true, true) := by
    decide +kernel
  obtain ⟨⟨trace, final⟩, replayed, observed⟩ := Option.map_eq_some_iff.mp executed
  simp only [Prod.mk.injEq, decide_eq_true_eq] at observed
  obtain ⟨long, stopped, checked⟩ := observed
  have run := Run.of_replay .start replayed
  have roomy := fun front entry back split =>
    of_decide_eq_true (Run.of_checks checked front entry back split)
  exact ⟨trace, final, run, long, stopped,
    (never_stranded_iff run).mpr roomy trace final List.suffix_rfl run stopped⟩

/-- Of five connected clients the last finds no place for its departure after `Run` has
returned. -/
theorem departure_stranded :
    ∃ (trace : Trace) (final : Broker),
      Run (step fun _ => none) (new (Chan.make 256)) trace final ∧
        Stopped final ∧ Stranded final := by
  have executed : (Run.replay (step fun _ => none) [] (new (Chan.make 256))
      (arrivals 5 ++ [.cancel, .turn .done] ++ (departures 5).dropLast)).map (fun made =>
        (made.2.run, (made.2.handlers 4).phase, made.2.unsubscribe.buffer.length,
          made.2.unsubscribe.capacity)) = some (.returned true, .unsubscribing, 4, 4) := by
    decide +kernel
  obtain ⟨⟨trace, final⟩, replayed, observed⟩ := Option.map_eq_some_iff.mp executed
  simp only [Prod.mk.injEq] at observed
  obtain ⟨stopped, waiting, held, capacity⟩ := observed
  exact ⟨trace, final, Run.of_replay .start replayed, ⟨true, stopped⟩, 4,
    Or.inr ⟨waiting, held.trans capacity.symm⟩⟩

end Mitigador.Api.Broker
