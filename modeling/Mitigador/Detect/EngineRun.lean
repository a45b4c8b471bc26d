import Mitigador.Aggregate.LateTick
import Mitigador.Detect.Engine
import Mitigador.Lib.Run
import Mitigador.Lib.Streak

/-! Runs of the engine and its store: what a tick does to one key, which calls the store has seen,
and that no tick of a checked catalog panics. -/

namespace Mitigador.Detect

open Go Mitigador.Flow Lib Aggregate

variable {ρ : Type*} {newULID : ρ → Time → String × ρ}

/-- The CHECK constraints of the thresholds table, on the rows of a catalog. -/
def Catalog.Checked (c : Catalog) : Prop :=
  ∀ t ∈ c.entries, 0 < t.minWindowSec ∧ 0 < t.graceSec

abbrev Trace (ρ : Type*) := List (Entry (Engine ρ) Action (List AttackEvent))

def Action.isTick : Action → Bool
  | tick _ _ => true
  | _ => false

def Action.op : Action → Option Op
  | update ip sec r => some (.update ip sec r)
  | tick now _ => some (.tick now.unix)
  | receive => none

def Action.second : Action → Option Int
  | tick now _ => some now.unix
  | _ => none

def historyOf (trace : Trace ρ) : List Op := trace.filterMap fun entry => entry.action.op

def ticksOf (trace : Trace ρ) : Trace ρ := trace.filter fun entry => entry.action.isTick

def violated (k : Key) (entry : Entry (Engine ρ) Action (List AttackEvent)) : Bool :=
  match entry.action with
  | .tick now _ =>
      match verdict (entry.before.store.tick now.unix) entry.before.catalog k now.unix with
      | some j => j.violating
      | none => false
  | _ => false

theorem ticksOf_cons_tick (trace : Trace ρ)
    {entry : Entry (Engine ρ) Action (List AttackEvent)} (ticks : entry.action.isTick = true) :
    ticksOf (entry :: trace) = entry :: ticksOf trace := by
  simp [ticksOf, ticks]

theorem ticksOf_cons_other (trace : Trace ρ)
    {entry : Entry (Engine ρ) Action (List AttackEvent)} (other : entry.action.isTick = false) :
    ticksOf (entry :: trace) = ticksOf trace := by
  simp [ticksOf, other]

theorem consecutive_of_append (front : Trace ρ) {rest : Trace ρ}
    (consecutive : Consecutive (historyOf (front ++ rest))) : Consecutive (historyOf rest) := by
  induction front with
  | nil => exact consecutive
  | cons entry front ih =>
      rcases entry with ⟨before, action, output⟩
      cases action with
      | update | receive => exact ih consecutive
      | tick now hosts => exact ih consecutive.2

theorem ticksOf_eq_nil {trace : Trace ρ} (none : lastTick (historyOf trace) = none) :
    ticksOf trace = [] := by
  induction trace with
  | nil => rfl
  | cons entry rest ih =>
      rcases entry with ⟨before, action, output⟩
      cases action with
      | update | receive => exact ih none
      | tick now hosts => contradiction

/-- With a tick for each second, the tick `i` places back is that of `i` seconds ago. -/
theorem second_of_tick {trace : Trace ρ} (consecutive : Consecutive (historyOf trace)) {sec : Int}
    (latest : lastTick (historyOf trace) = some sec) {i : Nat}
    {older : Entry (Engine ρ) Action (List AttackEvent)}
    (place : (ticksOf trace)[i]? = some older) :
    older.action.second = some (sec - i) := by
  induction trace generalizing sec i with
  | nil => contradiction
  | cons entry rest ih =>
      rcases entry with ⟨before, action, output⟩
      cases action with
      | update | receive => exact ih consecutive latest place
      | tick now hosts =>
          obtain rfl : now.unix = sec := Option.some.inj latest
          rw [ticksOf_cons_tick rest rfl] at place
          cases i with
          | zero =>
              cases place
              simp [Action.second]
          | succ i =>
              rw [List.getElem?_cons_succ] at place
              cases previous : lastTick (historyOf rest) with
              | none =>
                  rw [ticksOf_eq_nil previous] at place
                  contradiction
              | some last =>
                  have advanced := consecutive.1 last previous
                  rw [ih consecutive.2 previous place]
                  congr 1
                  push_cast
                  omega

theorem split_tick {trace : Trace ρ} {i : Nat}
    {entry : Entry (Engine ρ) Action (List AttackEvent)}
    (place : (ticksOf trace)[i]? = some entry) :
    ∃ front back, trace = front ++ entry :: back ∧
      ticksOf (entry :: back) = (ticksOf trace).drop i := by
  induction trace generalizing i with
  | nil => contradiction
  | cons head rest ih =>
      cases ticks : head.action.isTick with
      | false =>
          rw [ticksOf_cons_other rest ticks] at place ⊢
          obtain ⟨front, back, rfl, dropped⟩ := ih place
          exact ⟨head :: front, back, rfl, dropped⟩
      | true =>
          rw [ticksOf_cons_tick rest ticks] at place ⊢
          cases i with
          | zero =>
              cases place
              exact ⟨[], rest, rfl, ticksOf_cons_tick rest ticks⟩
          | succ i =>
              obtain ⟨front, back, rfl, dropped⟩ := ih place
              exact ⟨head :: front, back, rfl, dropped⟩

theorem verdict_threshold {store : Store} {catalog : Catalog} {k : Key} {sec : Int}
    {j : Judgement} (decided : verdict store catalog k sec = some j) :
    catalog.lookupByVector k.hostIP k.vector = some j.threshold := by
  obtain ⟨judged, vector⟩ := verdict_eq_some.mp decided
  obtain ⟨_, _, -, -, found, -⟩ := judge_eq_some.mp judged
  rw [← vector]
  exact found

namespace Engine

theorem act_catalog {e next : Engine ρ} {action : Action} {events : List AttackEvent}
    (acted : e.act newULID action = some (next, events)) : next.catalog = e.catalog := by
  cases action with
  | update ip sec r =>
      cases acted
      rfl
  | tick now hosts =>
      simp only [act] at acted
      split at acted
      · exact (evalHosts_fixed acted).2
      · contradiction
  | receive =>
      simp only [act] at acted
      split at acted
      · contradiction
      · cases acted
        rfl

theorem act_store {e next : Engine ρ} {action : Action} {events : List AttackEvent}
    (acted : e.act newULID action = some (next, events)) :
    next.store = e.store.after action.op.toList := by
  cases action with
  | update ip sec r =>
      cases acted
      rfl
  | tick now hosts =>
      simp only [act] at acted
      split at acted
      · exact (evalHosts_fixed acted).1
      · contradiction
  | receive =>
      simp only [act] at acted
      split at acted
      · contradiction
      · cases acted
        rfl

theorem act_frame {e next : Engine ρ} {action : Action} {events : List AttackEvent}
    (acted : e.act newULID action = some (next, events)) (other : action.isTick = false)
    (k : Key) : Frame k e next events := by
  cases action with
  | update ip sec r =>
      cases acted
      exact ⟨rfl, rfl, rfl⟩
  | tick now hosts => contradiction
  | receive =>
      simp only [act] at acted
      split at acted
      · contradiction
      · cases acted
        exact ⟨rfl, rfl, rfl⟩

/-- What a tick does to a key depends on the judgement of the key alone: a host that the store has
evicted has none. -/
theorem act_tick {e next : Engine ρ} {now : Time} {hosts : List HostInfo}
    {events : List AttackEvent} (acted : e.act newULID (.tick now hosts) = some (next, events))
    (k : Key) :
    KeyTick newULID now k e next events (verdict (e.store.tick now.unix) e.catalog k now.unix) := by
  simp only [act] at acted
  split at acted
  · next order =>
      have addresses := order.map HostInfo.ip
      by_cases present : k.hostIP ∈ hosts.map HostInfo.ip
      · have distinct := addresses.nodup_iff.mpr (Store.activeHosts_nodup _ now.unix)
        exact (evalHosts_key acted distinct present).rebase rfl rfl
      · have unknown : (e.store.tick now.unix).host k.hostIP = none := by
          cases known : (e.store.tick now.unix).host k.hostIP with
          | none => rfl
          | some hr => exact absurd (addresses.mem_iff.mpr (Store.active_of_host known)) present
        rw [verdict_eq_none_of_host e.catalog now.unix unknown]
        obtain ⟨streak, entry, silent⟩ := evalHosts_frame acted present
        exact .skip ⟨streak, entry, silent⟩
  · contradiction

theorem store_run {start final : Engine ρ} {trace : Trace ρ}
    (run : Run (act newULID) start trace final) :
    final.store = start.store.after (historyOf trace) := by
  induction run with
  | start => rfl
  | @step trace state next action output past moved ih =>
      rw [act_store moved, ih]
      cases seen : action.op with
      | none => simp [historyOf, seen, Store.after]
      | some op => simp [historyOf, seen, Store.after]

theorem catalog_run {start final : Engine ρ} {trace : Trace ρ}
    (run : Run (act newULID) start trace final) : final.catalog = start.catalog := by
  induction run with
  | start => rfl
  | step past moved ih => exact (act_catalog moved).trans ih

end Engine

theorem lookup_checked {catalog : Catalog} (checked : catalog.Checked) {ip : Addr} {v : Vector}
    {t : Threshold} (found : catalog.lookupByVector ip v = some t) :
    0 < t.minWindowSec ∧ 0 < t.graceSec := by
  obtain ⟨member, -⟩ := Catalog.lookupByVector_spec found
  exact checked t ((Catalog.mem_lookup catalog ip t).mp member).1

theorem width_bounds {t : Threshold} {buckets : List Bucket} (positive : 0 < t.minWindowSec)
    (nonempty : buckets ≠ []) : 0 < width t buckets ∧ width t buckets ≤ buckets.length := by
  have length : 0 < buckets.length := List.length_pos_iff.mpr nonempty
  unfold width
  split <;> omega

theorem toNat_ofInt {n : Int} (low : 0 ≤ n) (high : n < 2 ^ 64) :
    (UInt64.ofInt n).toNat = n.toNat := by
  rw [UInt64.ofInt, UInt64.toNat_ofNat', Int.emod_eq_of_lt low high]
  omega

theorem compare_total (vec : Vector) {t : Threshold} {current : Bucket} {older : List Bucket}
    (positive : 0 < t.minWindowSec) (short : (current :: older).length ≤ windowSize) :
    ∃ j, compare vec t current older = some j := by
  have bounds := width_bounds positive (List.cons_ne_nil current older)
  have nonzero : UInt64.ofInt (width t (current :: older)) ≠ 0 := by
    intro zero
    have value := toNat_ofInt bounds.1.le (by simp only [windowSize] at short; omega)
    rw [zero] at value
    have none : (0 : UInt64).toNat = 0 := rfl
    omega
  simp only [compare, if_neg nonzero]
  exact ⟨_, rfl⟩

theorem assess_total {catalog : Catalog} (checked : catalog.Checked) (ip : Addr)
    {reported : Option (List Bucket)} (short : ∀ buckets ∈ reported, buckets.length ≤ windowSize) :
    ∃ outcome, assess catalog ip reported = some outcome := by
  unfold assess
  split
  · exact ⟨_, rfl⟩
  · exact ⟨_, rfl⟩
  · next current older =>
      split
      · exact ⟨_, rfl⟩
      · next vec classified =>
          split
          · exact ⟨_, rfl⟩
          · next t found =>
              obtain ⟨j, compared⟩ := compare_total vec (lookup_checked checked found).1
                (short (current :: older) rfl)
              exact ⟨some j, by rw [compared]; rfl⟩

theorem judge_total {catalog : Catalog} (checked : catalog.Checked) (store : Store) (ip : Addr)
    (sec : Int) : ∃ outcome, judge store catalog ip sec = some outcome := by
  unfold judge
  dsimp only
  split
  · exact ⟨_, rfl⟩
  · apply assess_total checked
    intro buckets reported
    have length := Store.snapshot_length (Option.mem_def.mp reported)
    omega

theorem transition_sound {rnd rest : ρ} {k : Key} {i : Input} {t : Threshold}
    {e next : MachineEntry} {output : Option AttackEvent} (sound : e.Sound)
    (moved : Transition newULID rnd k i t e next rest output) : next.Sound := by
  cases moved with
  | wait | cool => exact sound
  | start | ease | hold | update => exact fun _ => rfl
  | finish => exact fun impossible => by contradiction
  | thaw => exact fun impossible => by contradiction

/-- Nothing that a tick can panic on: no division by zero, no missing incident, no closed bus. -/
structure Watch.Sound (w : Watch ρ) : Prop where
  checked : w.catalog.Checked
  opened : w.out.closed = false
  entries : ∀ k, (w.sm.entry k).Sound

theorem Watch.sound_new {catalog : Catalog} (checked : catalog.Checked) (capacity : Nat)
    (rnd : ρ) : (new catalog (Chan.make capacity) rnd).Sound where
  checked := checked
  opened := rfl
  entries := by
    intro k active
    contradiction

theorem Watch.count_total (newULID : ρ → Time → String × ρ) {w : Watch ρ} (sound : w.Sound)
    (now : Time) (ip : Addr) (j : Judgement) :
    ∃ next ev, w.count newULID now ip j = some (next, ev) ∧ next.Sound := by
  unfold count
  dsimp only
  obtain ⟨⟨sm, output⟩, stepped⟩ := StateMachine.step_total newULID
    (sound.entries ⟨ip, j.vector⟩)
    (j.input now (Function.update w.streak ⟨ip, j.vector⟩
      (if j.violating then w.streak ⟨ip, j.vector⟩ + 1 else 0) ⟨ip, j.vector⟩)) j.threshold
  obtain ⟨moved, untouched⟩ := StateMachine.step_cases stepped
  have entries : ∀ k, (sm.entry k).Sound := by
    intro k
    by_cases same : k = ⟨ip, j.vector⟩
    · rw [same]
      exact transition_sound (sound.entries _) moved
    · rw [StateMachine.entry, untouched k same]
      exact sound.entries k
  rw [stepped]
  cases output with
  | none => exact ⟨_, _, rfl, sound.checked, sound.opened, entries⟩
  | some ev =>
      obtain ⟨out, sent, offered, opened, -⟩ := Chan.offer_open ev sound.opened
      dsimp only
      rw [offered]
      exact ⟨_, _, rfl, sound.checked, opened, entries⟩

namespace Engine

theorem sound_new (store : Store) {catalog : Catalog} (checked : catalog.Checked) (capacity : Nat)
    (rnd : ρ) : (new store catalog (Chan.make capacity) rnd).Sound :=
  Watch.sound_new checked capacity rnd

theorem evalHost_total (newULID : ρ → Time → String × ρ) {e : Engine ρ} (sound : e.Sound)
    (sec : Int) (now : Time) (ip : Addr) :
    ∃ next ev, evalHost newULID sec now e ip = some (next, ev) ∧ next.Sound := by
  obtain ⟨outcome, judged⟩ := judge_total sound.checked e.store ip sec
  unfold evalHost
  rw [judged]
  cases outcome with
  | none => exact ⟨e, none, rfl, sound⟩
  | some j =>
      obtain ⟨watch, ev, counted, after⟩ := Watch.count_total newULID sound now ip j
      exact ⟨⟨watch, e.store⟩, ev, by simp only [counted, Option.map_some], after⟩

theorem evalHosts_total (newULID : ρ → Time → String × ρ) {e : Engine ρ} (sound : e.Sound)
    (sec : Int) (now : Time) (hosts : List HostInfo) :
    ∃ next events, evalHosts newULID sec now e hosts = some (next, events) ∧ next.Sound := by
  induction hosts generalizing e with
  | nil => exact ⟨e, [], rfl, sound⟩
  | cons h rest ih =>
      obtain ⟨middle, ev, first, middleSound⟩ := evalHost_total newULID sound sec now h.ip
      obtain ⟨next, events, second, nextSound⟩ := ih middleSound
      refine ⟨next, ev.toList ++ events, ?_, nextSound⟩
      simp only [evalHosts, first, second]

theorem act_sound {e : Engine ρ} (sound : e.Sound) {action : Action} {next : Engine ρ}
    {events : List AttackEvent} (acted : e.act newULID action = some (next, events)) :
    next.Sound := by
  cases action with
  | update ip sec r =>
      cases acted
      exact ⟨sound.checked, sound.opened, sound.entries⟩
  | tick now hosts =>
      simp only [act] at acted
      split at acted
      · have before : ({ e with store := e.store.tick now.unix } : Engine ρ).Sound := sound
        obtain ⟨_, _, evaluated, after⟩ :=
          evalHosts_total newULID before now.unix now hosts
        have same := evaluated.symm.trans acted
        cases same
        exact after
      · contradiction
  | receive =>
      simp only [act] at acted
      split at acted
      · contradiction
      · next value out received =>
          cases acted
          exact ⟨sound.checked, (Chan.receive_closed received).trans sound.opened, sound.entries⟩

theorem tick_total (newULID : ρ → Time → String × ρ) {e : Engine ρ} (sound : e.Sound) (now : Time)
    {hosts : List HostInfo}
    (order : hosts.Perm ((e.store.tick now.unix).activeHosts now.unix)) :
    ∃ next events, e.act newULID (.tick now hosts) = some (next, events) ∧ next.Sound := by
  have before : ({ e with store := e.store.tick now.unix } : Engine ρ).Sound :=
    ⟨sound.checked, sound.opened, sound.entries⟩
  obtain ⟨next, events, evaluated, after⟩ :=
    evalHosts_total newULID before now.unix now hosts
  refine ⟨next, events, ?_, after⟩
  rw [act, if_pos order]
  exact evaluated

theorem sound_run {start final : Engine ρ} {trace : Trace ρ}
    (run : Run (act newULID) start trace final) (sound : start.Sound) : final.Sound := by
  induction run with
  | start => exact sound
  | step past moved ih => exact act_sound ih moved

theorem tick_run_total (newULID : ρ → Time → String × ρ) (store : Store) {catalog : Catalog}
    (checked : catalog.Checked) (capacity : Nat) (rnd : ρ) {final : Engine ρ} {trace : Trace ρ}
    (run : Run (act newULID) (new store catalog (Chan.make capacity) rnd) trace final) (now : Time)
    {hosts : List HostInfo}
    (order : hosts.Perm ((final.store.tick now.unix).activeHosts now.unix)) :
    ∃ next events, final.act newULID (.tick now hosts) = some (next, events) := by
  have sound := sound_run run (sound_new store checked capacity rnd)
  obtain ⟨next, events, acted, -⟩ := tick_total newULID sound now order
  exact ⟨next, events, acted⟩

theorem run_of_history (newULID : ρ → Time → String × ρ) {start : Engine ρ} (sound : start.Sound)
    (history : List Op) : ∃ trace final, Run (act newULID) start trace final ∧
      historyOf trace = history ∧ final.Sound := by
  induction history with
  | nil => exact ⟨[], start, .start, rfl, sound⟩
  | cons op past ih =>
      obtain ⟨trace, e, run, seen, live⟩ := ih
      cases op with
      | update ip sec r =>
          have updated : e.act newULID (.update ip sec r) =
              some ({ e with store := e.store.update ip sec r }, []) := rfl
          have longer := Run.step run updated
          refine ⟨_, _, longer, ?_, sound_run longer sound⟩
          rw [← seen]
          rfl
      | tick now =>
          obtain ⟨next, events, ticked, after⟩ := tick_total newULID live (Time.ofUnix now)
            (List.Perm.refl _)
          refine ⟨_, next, .step run ticked, ?_, after⟩
          simp [historyOf, Action.op, ← seen]

theorem tick_of_history (newULID : ρ → Time → String × ρ) {start : Engine ρ}
    (sound : start.Sound) (past : List Op) (sec : Int) : ∃ back final e hosts events,
      Run (act newULID) start (⟨e, .tick (Time.ofUnix sec) hosts, events⟩ :: back) final ∧
        historyOf back = past := by
  obtain ⟨back, e, run, seen, live⟩ := run_of_history newULID sound past
  obtain ⟨next, events, ticked, -⟩ := tick_total newULID live (Time.ofUnix sec)
    (List.Perm.refl _)
  exact ⟨back, next, e, _, events, .step run ticked, seen⟩

end Engine

def sampleEngine (t : Threshold) : Engine Nat :=
  Engine.new (Store.new 1 1) ⟨[t], List.pairwise_singleton _ t⟩ (Chan.make 256) 0

def sampleUpdate (sec : Int) (packets bytes : UInt64) : Action :=
  .update sampleHost sec (sampleRecord protoUDP packets bytes)

def sampleTick (sec lastSec : Int) : Action :=
  .tick (Time.ofUnix sec) [⟨sampleHost, lastSec⟩]

end Mitigador.Detect
