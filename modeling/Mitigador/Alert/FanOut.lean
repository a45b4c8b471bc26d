import Mathlib.Data.List.Nodup
import Mitigador.Alert.Bus

/-! What the bus delivers, whatever the pace of its subscribers. -/

namespace Mitigador.Alert

open Go Detect Lib

def RunState.owed (c : Nat) : RunState → List AttackEvent
  | .offering ev rest => if c ∈ rest then [ev] else []
  | _ => []

def RunState.Clear (n : Nat) (chans : Nat → Chan AttackEvent) : RunState → Prop
  | .selecting => ∀ c < n, (chans c).closed = false
  | .offering _ rest =>
      rest.Nodup ∧ (∀ c ∈ rest, c < n) ∧ ∀ c < n, (chans c).closed = false
  | .closing _ rest => rest.Nodup ∧ ∀ c ∈ rest, (chans c).closed = false
  | .returned _ => True
  | .panicked => False

namespace Bus

structure Sound (n size : Nat) (b : Bus) : Prop where
  sinks : (∀ canceled, b.run ≠ .returned canceled) → b.sinks = List.range n
  clear : b.run.Clear n b.chans
  capacity : ∀ c < n, (b.chans c).capacity = size

theorem clear_update {n c : Nat} {chans : Nat → Chan AttackEvent} {run : RunState}
    (clear : run.Clear n chans) {ch : Chan AttackEvent} (kept : ch.closed = (chans c).closed) :
    run.Clear n (Function.update chans c ch) := by
  have same : ∀ d, (Function.update chans c ch d).closed = (chans d).closed := by
    intro d
    by_cases here : d = c
    · rw [here, Function.update_self, kept]
    · rw [Function.update_of_ne here]
  cases run with
  | selecting | offering | closing => simpa only [RunState.Clear, same] using clear
  | returned => trivial
  | panicked => exact clear

structure Fresh (input : Chan AttackEvent) (n : Nat) (b : Bus) : Prop where
  input : b.input = input
  run : b.run = .selecting
  sinks : b.sinks = List.range n
  made : ∀ c < n, b.chans c = Chan.make b.perSinkBuffer
  empty : ∀ c, (b.chans c).buffer = []

theorem Fresh.subscribe {input : Chan AttackEvent} {n : Nat} {b : Bus} (fresh : Fresh input n b)
    (name : String) : Fresh input (n + 1) (b.subscribe name) := by
  have length : b.subs.length = n := by
    simpa [Bus.sinks] using congrArg List.length fresh.sinks
  refine ⟨fresh.input, fresh.run, ?_, ?_, ?_⟩
  · have earlier : b.subs.map Subscriber.ch = List.range n := fresh.sinks
    simp only [Bus.sinks, Bus.subscribe, List.map_append, List.map_cons, List.map_nil]
    rw [earlier, length, List.range_succ]
  · intro c below
    simp only [Bus.subscribe, length]
    by_cases here : c = n
    · rw [here, Function.update_self]
    · rw [Function.update_of_ne here]
      exact fresh.made c (by omega)
  · intro c
    simp only [Bus.subscribe, length]
    by_cases here : c = n
    · rw [here, Function.update_self]
      rfl
    · rw [Function.update_of_ne here]
      exact fresh.empty c

theorem start_fresh (input : Chan AttackEvent) (perSinkBuffer : Int) (names : List String) :
    Fresh input names.length (start input perSinkBuffer names) := by
  induction names using List.reverseRecOn with
  | nil => exact ⟨rfl, rfl, rfl, fun _ impossible => by contradiction, fun _ => rfl⟩
  | append_singleton names name ih =>
      rw [start, List.foldl_append, List.length_append]
      exact ih.subscribe name

theorem start_perSinkBuffer (input : Chan AttackEvent) (perSinkBuffer : Int)
    (names : List String) : (start input perSinkBuffer names).perSinkBuffer =
      (new input perSinkBuffer).perSinkBuffer := by
  induction names using List.reverseRecOn with
  | nil => rfl
  | append_singleton names name ih =>
      rw [start, List.foldl_append]
      exact ih

theorem start_sound (input : Chan AttackEvent) (perSinkBuffer : Int) (names : List String) :
    Sound names.length (new input perSinkBuffer).perSinkBuffer
      (start input perSinkBuffer names) := by
  have fresh := start_fresh input perSinkBuffer names
  refine ⟨fun _ => fresh.sinks, ?_, ?_⟩
  · rw [fresh.run]
    intro c below
    rw [fresh.made c below]
    rfl
  · intro c below
    rw [fresh.made c below, start_perSinkBuffer]
    rfl

inductive Moved (b : Bus) : Action → Bus → Seen → Prop
  | publish {ev input} (sent : b.input.offer ev = some (input, true)) :
      Moved b (.publish ev) { b with input := input } (.published ev)
  | refuse {ev input} (full : b.input.offer ev = some (input, false)) :
      Moved b (.publish ev) { b with input := input } .nothing
  | closeInput {input} (closed : b.input.close = some input) :
      Moved b .closeInput { b with input := input } .nothing
  | cancel : Moved b .cancel { b with canceled := true } .nothing
  | drained {c ch} (ended : (b.chans c).receive = some (none, ch)) :
      Moved b (.receive c) b .nothing
  | receive {c ev ch} (received : (b.chans c).receive = some (some ev, ch)) :
      Moved b (.receive c) { b with chans := Function.update b.chans c ch } (.received c ev)
  | done (selecting : b.run = .selecting) (canceled : b.canceled = true) :
      Moved b .done { b with run := .closing true b.sinks } .nothing
  | finish {input} (selecting : b.run = .selecting) (ended : b.input.receive = some (none, input)) :
      Moved b .consume { b with run := .closing false b.sinks } .nothing
  | consume {ev input} (selecting : b.run = .selecting)
      (received : b.input.receive = some (some ev, input)) :
      Moved b .consume { b with input := input, run := .offering ev b.sinks } (.consumed ev)
  | offer {ev c rest ch sent} (offering : b.run = .offering ev (c :: rest))
      (offered : (b.chans c).offer ev = some (ch, sent)) :
      Moved b .offer
        { b with chans := Function.update b.chans c ch, run := .offering ev rest }
        (.offered c ev sent)
  | next {ev} (offering : b.run = .offering ev []) :
      Moved b .offer { b with run := .selecting } .nothing
  | close {canceled c rest ch} (closing : b.run = .closing canceled (c :: rest))
      (closed : (b.chans c).close = some ch) :
      Moved b .close
        { b with chans := Function.update b.chans c ch, run := .closing canceled rest } .nothing
  | leave {canceled} (closing : b.run = .closing canceled []) :
      Moved b .close { b with subs := [], run := .returned canceled } .nothing

/-- The steps of a sound bus are the ones above: it neither sends on a closed channel nor closes
one twice. -/
theorem step_cases {n size : Nat} {b next : Bus} {action : Action} {seen : Seen}
    (sound : Sound n size b)
    (stepped : b.step action = some (next, seen)) : Moved b action next seen := by
  have clear := sound.clear
  cases action with
  | publish ev =>
      simp only [step] at stepped
      split at stepped
      · contradiction
      · next input sent offered =>
          cases stepped
          cases sent with
          | true => exact .publish offered
          | false => exact .refuse offered
  | closeInput =>
      simp only [step] at stepped
      split at stepped
      · contradiction
      · next input closed =>
          cases stepped
          exact .closeInput closed
  | cancel =>
      cases stepped
      exact .cancel
  | receive c =>
      simp only [step] at stepped
      split at stepped
      · contradiction
      · next ch ended =>
          cases stepped
          exact .drained ended
      · next ev ch received =>
          cases stepped
          exact .receive received
  | done =>
      simp only [step] at stepped
      split at stepped
      · next selecting =>
          split at stepped
          · next canceled =>
              cases stepped
              exact .done selecting canceled
          · contradiction
      · contradiction
  | consume =>
      simp only [step] at stepped
      split at stepped
      · next selecting =>
          split at stepped
          · contradiction
          · next input ended =>
              cases stepped
              exact .finish selecting ended
          · next ev input received =>
              cases stepped
              exact .consume selecting received
      · contradiction
  | offer =>
      simp only [step] at stepped
      split at stepped
      · next ev c rest offering =>
          rw [offering] at clear
          obtain ⟨ch, sent, offered, -⟩ :=
            Chan.offer_open ev (clear.2.2 c (clear.2.1 c (List.mem_cons_self ..)))
          rw [offered] at stepped
          cases stepped
          exact .offer offering offered
      · next ev offering =>
          cases stepped
          exact .next offering
      · contradiction
  | close =>
      simp only [step] at stepped
      split at stepped
      · next canceled c rest closing =>
          rw [closing] at clear
          have closed := Chan.close_open (clear.2 c (List.mem_cons_self ..))
          rw [closed] at stepped
          cases stepped
          exact .close closing closed
      · next canceled closing =>
          cases stepped
          exact .leave closing
      · contradiction

theorem step_of_moved {b next : Bus} {action : Action} {seen : Seen}
    (moved : Moved b action next seen) : b.step action = some (next, seen) := by
  cases moved with
  | publish sent => simp [step, sent]
  | refuse full => simp [step, full]
  | closeInput closed => simp [step, closed]
  | cancel => rfl
  | drained ended => simp [step, ended]
  | receive received => simp [step, received]
  | done selecting canceled => simp [step, selecting, canceled]
  | finish selecting ended => simp [step, selecting, ended]
  | consume selecting received => simp [step, selecting, received]
  | offer offering offered => simp [step, offering, offered]
  | next offering => simp [step, offering]
  | close closing closed => simp [step, closing, closed]
  | leave closing => simp [step, closing]

theorem Sound.moved {n size : Nat} {b next : Bus} {action : Action} {seen : Seen}
    (sound : Sound n size b)
    (moved : Moved b action next seen) : Sound n size next := by
  obtain ⟨sinks, clear, capacity⟩ := sound
  have kept : ∀ {c : Nat} {ch : Chan AttackEvent}, ch.capacity = (b.chans c).capacity →
      ∀ d < n, (Function.update b.chans c ch d).capacity = size := by
    intro c ch same d below
    by_cases here : d = c
    · rw [here, Function.update_self, same, ← here]
      exact capacity d below
    · rw [Function.update_of_ne here]
      exact capacity d below
  have listed : b.run = .selecting → b.sinks = List.range n := by
    intro selecting
    apply sinks
    rw [selecting]
    simp
  cases moved with
  | publish | refuse | closeInput | cancel | drained => exact ⟨sinks, clear, capacity⟩
  | receive received =>
      exact ⟨sinks, clear_update clear (Chan.receive_closed received),
        kept (Chan.receive_capacity received)⟩
  | done selecting | finish selecting =>
      rw [selecting] at clear
      refine ⟨fun _ => listed selecting, ⟨?_, ?_⟩, capacity⟩
      · rw [listed selecting]
        exact List.nodup_range
      · intro c member
        rw [listed selecting, List.mem_range] at member
        exact clear c member
  | consume selecting received =>
      rw [selecting] at clear
      refine ⟨fun _ => listed selecting, ⟨?_, ?_, clear⟩, capacity⟩
      · rw [listed selecting]
        exact List.nodup_range
      · intro c member
        rw [listed selecting, List.mem_range] at member
        exact member
  | @offer ev c rest ch sent offering offered =>
      obtain ⟨closed, size, -⟩ := Chan.offer_spec offered
      refine ⟨fun _ => sinks (by simp [offering]), ?_, kept size⟩
      rw [offering] at clear
      have shrunk : (RunState.offering ev rest).Clear n b.chans :=
        ⟨(List.nodup_cons.mp clear.1).2,
          fun d member => clear.2.1 d (List.mem_cons_of_mem _ member), clear.2.2⟩
      exact clear_update shrunk closed
  | next offering =>
      refine ⟨fun _ => sinks (by simp [offering]), ?_, capacity⟩
      rw [offering] at clear
      exact clear.2.2
  | @close canceled c rest ch closing closed =>
      obtain ⟨-, rfl⟩ := Chan.close_spec closed
      refine ⟨fun _ => sinks (by simp [closing]), ?_, kept rfl⟩
      rw [closing] at clear
      obtain ⟨fresh, distinct⟩ := List.nodup_cons.mp clear.1
      refine ⟨distinct, fun d member => ?_⟩
      have apart : d ≠ c := by
        rintro rfl
        exact fresh member
      simpa [apart] using clear.2 d (List.mem_cons_of_mem _ member)
  | leave closing => exact ⟨fun impossible => absurd rfl (impossible _), trivial, capacity⟩

theorem sound_run {input : Chan AttackEvent} {perSinkBuffer : Int} {names : List String}
    {trace : Trace} {final : Bus} (run : Run step (start input perSinkBuffer names) trace final) :
    Sound names.length (new input perSinkBuffer).perSinkBuffer final := by
  induction run with
  | start => exact start_sound input perSinkBuffer names
  | step past moved ih => exact ih.moved (step_cases ih moved)

/-- Every event that was put into the input is still there or was taken in order; what was taken
has been offered once to each subscriber, except for the one being offered; what a channel took
was received in order or is still buffered. -/
structure Tally (n : Nat) (input : Chan AttackEvent) (trace : Trace) (b : Bus) : Prop where
  taken : input.buffer ++ publishedIn trace = consumedIn trace ++ b.input.buffer
  offers : ∀ c < n, (offeredTo c trace).map Prod.fst ++ b.run.owed c = consumedIn trace
  delivered : ∀ c, ((offeredTo c trace).filter Prod.snd).map Prod.fst =
    receivedBy c trace ++ (b.chans c).buffer

theorem Tally.cons {n size : Nat} {input : Chan AttackEvent} {trace : Trace} {b next : Bus}
    {action : Action} {seen : Seen} (sound : Sound n size b) (tally : Tally n input trace b)
    (moved : Moved b action next seen) : Tally n input (⟨b, action, seen⟩ :: trace) next := by
  obtain ⟨taken, offers, delivered⟩ := tally
  constructor
  · simp only [publishedIn, consumedIn, Run.collect_cons, Seen.publishedEvent,
      Seen.consumedEvent] at taken ⊢
    cases moved with
    | publish sent =>
        have grown := (Chan.offer_spec sent).2.2.1
        simp [grown, ← List.append_assoc, taken]
    | refuse full =>
        have same := (Chan.offer_spec full).2.2.1
        simpa [same] using taken
    | closeInput closed =>
        obtain ⟨-, rfl⟩ := Chan.close_spec closed
        simpa using taken
    | consume selecting received =>
        have shrunk := Chan.receive_value received
        simpa [shrunk] using taken
    | cancel | drained | receive | done | finish | offer | next | close | leave =>
        simpa using taken
  · intro c below
    have owed := offers c below
    simp only [offeredTo, consumedIn, Run.collect_cons, Seen.offeredTo, Seen.consumedEvent]
      at owed ⊢
    cases moved with
    | publish | refuse | closeInput | cancel | drained | receive => simpa using owed
    | done selecting | finish selecting =>
        rw [selecting] at owed
        simpa [RunState.owed] using owed
    | consume selecting =>
        rw [selecting] at owed
        have listed : c ∈ b.sinks := by
          rw [sound.sinks (by simp [selecting])]
          exact List.mem_range.mpr below
        simpa [RunState.owed, listed] using owed
    | @offer ev d rest ch sent offering =>
        have clear := sound.clear
        rw [offering] at owed clear
        obtain ⟨fresh, -⟩ := List.nodup_cons.mp clear.1
        by_cases here : d = c
        · subst here
          simpa [RunState.owed, fresh] using owed
        · simpa [RunState.owed, here, Ne.symm here] using owed
    | next offering | close offering | leave offering =>
        rw [offering] at owed
        simpa [RunState.owed] using owed
  · intro c
    have sent := delivered c
    simp only [offeredTo, receivedBy, Run.collect_cons, Seen.offeredTo, Seen.receivedBy] at sent ⊢
    cases moved with
    | publish | refuse | closeInput | cancel | drained | done | finish | consume | next | leave =>
        simpa using sent
    | @receive d ev ch received =>
        by_cases here : d = c
        · subst here
          have shrunk := Chan.receive_value received
          simpa [shrunk] using sent
        · simpa [here, Ne.symm here] using sent
    | @offer ev d rest ch took offering offered =>
        by_cases here : d = c
        · subst here
          have grown := (Chan.offer_spec offered).2.2.1
          cases took <;> simp [grown, sent]
        · simpa [here, Ne.symm here] using sent
    | @close canceled d rest ch closing closed =>
        obtain ⟨-, rfl⟩ := Chan.close_spec closed
        by_cases here : d = c
        · subst here
          simpa using sent
        · simpa [Ne.symm here] using sent

theorem tally_run {input : Chan AttackEvent} {perSinkBuffer : Int} {names : List String}
    {trace : Trace} {final : Bus} (run : Run step (start input perSinkBuffer names) trace final) :
    Tally names.length input trace final := by
  induction run with
  | start =>
      have fresh := start_fresh input perSinkBuffer names
      refine ⟨by simp [fresh.input, publishedIn, consumedIn, Run.collect], ?_, ?_⟩
      · intro c below
        simp [fresh.run, RunState.owed, offeredTo, consumedIn, Run.collect]
      · intro c
        simp [fresh.empty c, offeredTo, receivedBy, Run.collect]
  | step past moved ih =>
      have sound := sound_run past
      exact ih.cons sound (step_cases sound moved)

theorem Tally.received_sublist {n : Nat} {input : Chan AttackEvent} {trace : Trace} {b : Bus}
    (tally : Tally n input trace b) {c : Nat} (below : c < n) :
    (receivedBy c trace).Sublist (input.buffer ++ publishedIn trace) := by
  have kept : (receivedBy c trace).Sublist
      (((offeredTo c trace).filter Prod.snd).map Prod.fst) := by
    rw [tally.delivered c]
    exact List.sublist_append_left ..
  have offered : (((offeredTo c trace).filter Prod.snd).map Prod.fst).Sublist
      ((offeredTo c trace).map Prod.fst) := List.filter_sublist.map _
  have consumed : ((offeredTo c trace).map Prod.fst).Sublist (consumedIn trace) := by
    rw [← tally.offers c below]
    exact List.sublist_append_left ..
  rw [tally.taken]
  exact ((kept.trans offered).trans consumed).trans (List.sublist_append_left ..)

def concerns (c : Nat) : Action → Bool
  | .receive d => d = c
  | _ => true

structure Agree (c : Nat) (b other : Bus) : Prop where
  input : other.input = b.input
  subs : other.subs = b.subs
  canceled : other.canceled = b.canceled
  run : other.run = b.run
  chan : other.chans c = b.chans c

theorem Agree.sinks {c : Nat} {b other : Bus} (agree : Agree c b other) :
    other.sinks = b.sinks := by
  rw [Bus.sinks, agree.subs, Bus.sinks]

theorem agree_update {c d : Nat} {chans others : Nat → Chan AttackEvent} {ch alt : Chan AttackEvent}
    (agree : others c = chans c) (same : d = c → alt = ch) :
    Function.update others d alt c = Function.update chans d ch c := by
  by_cases here : d = c
  · rw [here, Function.update_self, Function.update_self, same here]
  · rw [Function.update_of_ne (Ne.symm here), Function.update_of_ne (Ne.symm here), agree]

theorem Agree.unconcerned {c : Nat} {b next other : Bus} {action : Action} {seen : Seen}
    (agree : Agree c b other) (away : concerns c action = false)
    (moved : Moved b action next seen) : Agree c next other ∧ seen.receivedBy c = none := by
  cases moved with
  | drained => exact ⟨agree, rfl⟩
  | @receive d ev ch received =>
      have apart : d ≠ c := by simpa [concerns] using away
      refine ⟨⟨agree.input, agree.subs, agree.canceled, agree.run, ?_⟩, by
        simp [Seen.receivedBy, apart]⟩
      simpa [apart.symm] using agree.chan
  | publish | refuse | closeInput | cancel | done | finish | consume | offer | next | close
  | leave => simp [concerns] at away

theorem Agree.concerned {n size c : Nat} {b next other : Bus} {action : Action} {seen : Seen}
    (agree : Agree c b other) (sound : Sound n size other) (ours : concerns c action = true)
    (moved : Moved b action next seen) : ∃ following alike,
      Moved other action following alike ∧ Agree c next following ∧
        alike.receivedBy c = seen.receivedBy c := by
  have listed := agree.sinks
  obtain ⟨input, subs, canceled, runs, chan⟩ := agree
  have clear := sound.clear
  rw [runs] at clear
  cases moved with
  | publish sent =>
      exact ⟨_, _, .publish (by rw [input]; exact sent), ⟨rfl, subs, canceled, runs, chan⟩, rfl⟩
  | refuse full =>
      exact ⟨_, _, .refuse (by rw [input]; exact full), ⟨rfl, subs, canceled, runs, chan⟩, rfl⟩
  | closeInput closed =>
      exact ⟨_, _, .closeInput (by rw [input]; exact closed), ⟨rfl, subs, canceled, runs, chan⟩,
        rfl⟩
  | cancel => exact ⟨_, _, .cancel, ⟨input, subs, rfl, runs, chan⟩, rfl⟩
  | @drained d ch ended =>
      obtain rfl : d = c := by simpa [concerns] using ours
      exact ⟨_, _, .drained (by rw [chan]; exact ended), ⟨input, subs, canceled, runs, chan⟩, rfl⟩
  | @receive d ev ch received =>
      obtain rfl : d = c := by simpa [concerns] using ours
      exact ⟨_, _, .receive (by rw [chan]; exact received),
        ⟨input, subs, canceled, runs, agree_update chan fun _ => rfl⟩, rfl⟩
  | done selecting stopped =>
      exact ⟨_, _, .done (runs.trans selecting) (canceled.trans stopped),
        ⟨input, subs, canceled, by rw [listed], chan⟩, rfl⟩
  | finish selecting ended =>
      exact ⟨_, _, .finish (runs.trans selecting) (by rw [input]; exact ended),
        ⟨input, subs, canceled, by rw [listed], chan⟩, rfl⟩
  | consume selecting received =>
      exact ⟨_, _, .consume (runs.trans selecting) (by rw [input]; exact received),
        ⟨rfl, subs, canceled, by rw [listed], chan⟩, rfl⟩
  | @offer ev d rest ch sent offering offered =>
      rw [offering] at clear
      obtain ⟨alt, took, alternative, -⟩ :=
        Chan.offer_open ev (clear.2.2 d (clear.2.1 d (List.mem_cons_self ..)))
      refine ⟨_, _, .offer (runs.trans offering) alternative,
        ⟨input, subs, canceled, rfl, agree_update chan ?_⟩, rfl⟩
      rintro rfl
      rw [← chan] at offered
      exact congrArg Prod.fst (Option.some.inj (alternative.symm.trans offered))
  | next offering =>
      exact ⟨_, _, .next (runs.trans offering), ⟨input, subs, canceled, rfl, chan⟩, rfl⟩
  | @close ended d rest ch closing closed =>
      rw [closing] at clear
      have alternative := Chan.close_open (clear.2 d (List.mem_cons_self ..))
      refine ⟨_, _, .close (runs.trans closing) alternative,
        ⟨input, subs, canceled, rfl, agree_update chan ?_⟩, rfl⟩
      rintro rfl
      rw [← chan] at closed
      exact Option.some.inj (alternative.symm.trans closed)
  | leave closing =>
      exact ⟨_, _, .leave (runs.trans closing), ⟨input, rfl, canceled, rfl, chan⟩, rfl⟩

theorem alone {input : Chan AttackEvent} {perSinkBuffer : Int} {names : List String} {trace : Trace}
    {final : Bus} (c : Nat) (run : Run step (start input perSinkBuffer names) trace final) :
    ∃ (lone : Trace) (other : Bus), Run step (start input perSinkBuffer names) lone other ∧
      lone.map Entry.action = (trace.map Entry.action).filter (concerns c) ∧
      Agree c final other ∧ receivedBy c lone = receivedBy c trace := by
  induction run with
  | start => exact ⟨[], _, .start, rfl, ⟨rfl, rfl, rfl, rfl, rfl⟩, rfl⟩
  | @step trace b next action seen past stepped ih =>
      obtain ⟨lone, other, run, same, agree, received⟩ := ih
      have moved := step_cases (sound_run past) stepped
      cases ours : concerns c action with
      | true =>
          obtain ⟨following, alike, taken, agreed, seen⟩ :=
            agree.concerned (sound_run run) ours moved
          refine ⟨_, following, run.step (step_of_moved taken), by simp [ours, same], agreed, ?_⟩
          rw [receivedBy, Run.collect_cons, Run.collect_cons, seen]
          exact congrArg (· ++ _) received
      | false =>
          obtain ⟨agreed, unseen⟩ := agree.unconcerned ours moved
          refine ⟨lone, other, run, by simp [ours, same], agreed, ?_⟩
          rw [received, receivedBy, Run.collect_cons, unseen]
          exact (List.append_nil _).symm

/-- What a subscriber receives is the same in any two runs that differ only in the receives of the
others. -/
theorem received_eq {input : Chan AttackEvent} {perSinkBuffer : Int} {names : List String} {c : Nat}
    {first second : Trace} {final other : Bus}
    (run : Run step (start input perSinkBuffer names) first final)
    (again : Run step (start input perSinkBuffer names) second other)
    (same : (first.map Entry.action).filter (concerns c) =
      (second.map Entry.action).filter (concerns c)) :
    receivedBy c first = receivedBy c second := by
  obtain ⟨lone, _, alone₁, actions₁, -, received₁⟩ := alone c run
  obtain ⟨lone', _, alone₂, actions₂, -, received₂⟩ := alone c again
  obtain ⟨rfl, -⟩ := alone₁.determined alone₂ (actions₁.trans (same.trans actions₂.symm))
  rw [← received₁, received₂]

def Leaving (run : RunState) : Prop :=
  (∃ canceled rest, run = .closing canceled rest) ∨ ∃ canceled, run = .returned canceled

theorem leaving_moved {b next : Bus} {action : Action} {seen : Seen} (leaving : Leaving b.run)
    (moved : Moved b action next seen) : Leaving next.run := by
  cases moved with
  | publish | refuse | closeInput | cancel | drained | receive => exact leaving
  | done | finish | close => exact .inl ⟨_, _, rfl⟩
  | leave => exact .inr ⟨_, rfl⟩
  | consume stuck | offer stuck | next stuck => simp [Leaving, stuck] at leaving

theorem leaving_of_close {input : Chan AttackEvent} {perSinkBuffer : Int} {names : List String}
    {trace : Trace} {final : Bus} (run : Run step (start input perSinkBuffer names) trace final)
    {older : Entry Bus Action Seen} (member : older ∈ trace) (closed : older.action = .close) :
    Leaving final.run := by
  induction run with
  | start => contradiction
  | @step trace b next action seen past stepped ih =>
      have moved := step_cases (sound_run past) stepped
      rcases List.mem_cons.mp member with rfl | earlier
      · obtain rfl : action = .close := closed
        cases moved with
        | close => exact .inl ⟨_, _, rfl⟩
        | leave => exact .inr ⟨_, rfl⟩
      · exact leaving_moved (ih earlier) moved

structure Delivers (input : Chan AttackEvent) (size : Nat) (trace : Trace) (final : Bus) (c : Nat) :
    Prop where
  inOrder : (receivedBy c trace).Sublist (input.buffer ++ publishedIn trace)
  offeredOnce : (offeredTo c trace).map Prod.fst ++ final.run.owed c = consumedIn trace
  kept : ((offeredTo c trace).filter Prod.snd).map Prod.fst =
    receivedBy c trace ++ (final.chans c).buffer
  dropped : ∀ entry ∈ trace, ∀ ev sent, entry.output = .offered c ev sent →
    (sent = false ↔ (entry.before.chans c).buffer.length = size)
  opened : ∀ front entry back, trace = front ++ entry :: back →
    (∃ ev sent, entry.output = .offered c ev sent) → ∀ older ∈ back, older.action ≠ .close

theorem delivers_run {input : Chan AttackEvent} {perSinkBuffer : Int} {names : List String}
    {trace : Trace} {final : Bus} (run : Run step (start input perSinkBuffer names) trace final)
    {c : Nat} (below : c < names.length) :
    Delivers input (new input perSinkBuffer).perSinkBuffer trace final c where
  inOrder := (tally_run run).received_sublist below
  offeredOnce := (tally_run run).offers c below
  kept := (tally_run run).delivered c
  dropped := by
    rintro entry member ev sent seen
    obtain ⟨front, back, rfl⟩ := List.append_of_mem member
    obtain ⟨past, next, stepped, -⟩ := run.cut
    have sound := sound_run past
    have moved := step_cases sound stepped
    rw [seen] at moved
    generalize entry.action = action at moved
    cases moved with
    | offer offering offered =>
        rw [← sound.capacity c below]
        exact (Chan.offer_spec offered).2.2.2
  opened := by
    rintro front entry back rfl ⟨ev, sent, seen⟩ older member closed
    obtain ⟨past, next, stepped, -⟩ := run.cut
    have moved := step_cases (sound_run past) stepped
    rw [seen] at moved
    have leaving := leaving_of_close past member closed
    generalize entry.action = action at moved
    cases moved with
    | offer offering => simp [Leaving, offering] at leaving

/-- Inside its loops `Run` goes on whatever the channels hold, and passes one with each step. -/
structure Unblocked (b : Bus) : Prop where
  offers : ∀ ev c rest, b.run = .offering ev (c :: rest) →
    ∃ next sent, b.step .offer = some (next, .offered c ev sent) ∧ next.run = .offering ev rest
  returns : ∀ ev, b.run = .offering ev [] →
    ∃ next, b.step .offer = some (next, .nothing) ∧ next.run = .selecting
  closes : ∀ canceled c rest, b.run = .closing canceled (c :: rest) →
    ∃ next, b.step .close = some (next, .nothing) ∧ next.run = .closing canceled rest
  leaves : ∀ canceled, b.run = .closing canceled [] →
    ∃ next, b.step .close = some (next, .nothing) ∧ next.run = .returned canceled

theorem Sound.unblocked {n size : Nat} {b : Bus} (sound : Sound n size b) : Unblocked b := by
  have clear := sound.clear
  refine ⟨?_, ?_, ?_, ?_⟩
  · intro ev c rest offering
    rw [offering] at clear
    obtain ⟨ch, sent, offered, -⟩ :=
      Chan.offer_open ev (clear.2.2 c (clear.2.1 c (List.mem_cons_self ..)))
    exact ⟨_, sent, step_of_moved (.offer offering offered), rfl⟩
  · intro ev offering
    exact ⟨_, step_of_moved (.next offering), rfl⟩
  · intro canceled c rest closing
    rw [closing] at clear
    exact ⟨_, step_of_moved (.close closing (Chan.close_open (clear.2 c (List.mem_cons_self ..)))),
      rfl⟩
  · intro canceled closing
    exact ⟨_, step_of_moved (.leave closing), rfl⟩

/-- The bus serves every subscriber in order, drops an event only where the buffer of that
subscriber is full, does not wait for any of them, and lets none of them notice the others. -/
theorem fan_out (input : Chan AttackEvent) (perSinkBuffer : Int) (names : List String)
    {trace : Trace} {final : Bus}
    (run : Run step (start input perSinkBuffer names) trace final) :
    final.run ≠ .panicked ∧ Unblocked final ∧
      input.buffer ++ publishedIn trace = consumedIn trace ++ final.input.buffer ∧
      ∀ c < names.length,
        Delivers input (new input perSinkBuffer).perSinkBuffer trace final c ∧
        ∀ other last, Run step (start input perSinkBuffer names) other last →
          (other.map Entry.action).filter (concerns c) =
            (trace.map Entry.action).filter (concerns c) →
          receivedBy c other = receivedBy c trace := by
  have sound := sound_run run
  refine ⟨?_, sound.unblocked, (tally_run run).taken, ?_⟩
  · intro crashed
    have clear := sound.clear
    rw [crashed] at clear
    exact clear
  · intro c below
    exact ⟨delivers_run run below, fun other last again same => received_eq again run same⟩

theorem fan_out_sample : ∃ (trace : Trace) (final : Bus),
    (receivedBy 0 trace).map AttackEvent.incidentID = [] ∧
      (receivedBy 1 trace).map AttackEvent.incidentID = ["a", "b"] ∧
      Delivers (Chan.make 8) 1 trace final 0 ∧ Delivers (Chan.make 8) 1 trace final 1 := by
  have executed : (Run.replay step [] (start (Chan.make 8) 1 ["telegram", "sse"])
      [.publish (sampleEvent "a" .started), .publish (sampleEvent "b" .started), .consume, .offer,
        .offer, .offer, .receive 1, .consume, .offer, .offer, .receive 1]).map
        (fun made => ((receivedBy 0 made.1).map AttackEvent.incidentID,
          (receivedBy 1 made.1).map AttackEvent.incidentID)) = some ([], ["a", "b"]) := by
    decide +kernel
  obtain ⟨⟨trace, final⟩, replayed, observed⟩ := Option.map_eq_some_iff.mp executed
  simp only [Prod.mk.injEq] at observed
  obtain ⟨-, -, -, each⟩ :=
    fan_out (Chan.make 8) 1 ["telegram", "sse"] (Run.of_replay .start replayed)
  exact ⟨trace, final, observed.1, observed.2, (each 0 (by decide)).1, (each 1 (by decide)).1⟩

end Bus

end Mitigador.Alert
