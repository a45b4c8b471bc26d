import Mitigador.Detect.EngineRun

/-! Starting an incident. The streak of a key moves only on ticks that judge it, so it counts
consecutive seconds in runs that never skip a key with a streak under way. -/

namespace Mitigador.Detect

open Go Mitigador.Flow Lib Aggregate

variable {ρ : Type*} {newULID : ρ → Time → String × ρ}

/-- The unbroken run of violating ticks up to the last one. -/
def violatingTicks (k : Key) (trace : Trace ρ) : Nat :=
  streak (violated k) (ticksOf trace)

/-- A tick that does not judge a key without an incident finds its streak at zero. -/
def Resets (k : Key) (e : Engine ρ) : Action → Prop
  | .tick now _ => (e.sm.entry k).state ≠ .active →
      verdict (e.store.tick now.unix) e.catalog k now.unix = none → e.streak k = 0
  | _ => True

instance (k : Key) (e : Engine ρ) : ∀ action, Decidable (Resets k e action)
  | .tick now _ => inferInstanceAs (Decidable ((e.sm.entry k).state ≠ .active →
      verdict (e.store.tick now.unix) e.catalog k now.unix = none → e.streak k = 0))
  | .update _ _ _ => isTrue trivial
  | .receive => isTrue trivial

/-- Where a tick starts an incident, each of the last `minWindowSec` seconds had a tick that was
violating for the key. -/
def Sustained (k : Key) (trace : Trace ρ) : Prop :=
  ∀ front entry back (now : Time) hosts, trace = front ++ entry :: back →
    entry.action = .tick now hosts → ∀ ev ∈ keyEvents k entry.output, ev.state = .started →
      ∃ t, entry.before.catalog.lookupByVector k.hostIP k.vector = some t ∧
        ∀ i : Nat, (i : Int) < t.minWindowSec → ∃ older ∈ ticksOf (entry :: back),
          older.action.second = some (now.unix - (i : Int)) ∧ violated k older = true

def Backed (k : Key) (trace : Trace ρ) (e : Engine ρ) : Prop :=
  (e.sm.entry k).state = .active ∨ e.streak k ≤ violatingTicks k trace

theorem violatingTicks_judged {k : Key} {trace : Trace ρ} {e : Engine ρ} {now : Time}
    {hosts : List HostInfo} {events : List AttackEvent} {j : Judgement}
    (decided : verdict (e.store.tick now.unix) e.catalog k now.unix = some j) :
    violatingTicks k (⟨e, .tick now hosts, events⟩ :: trace) =
      if j.violating then violatingTicks k trace + 1 else 0 := by
  rw [violatingTicks, ticksOf_cons_tick trace rfl, streak_cons]
  simp only [violated, decided]
  rfl

theorem active_of_violating {rnd rest : ρ} {k : Key} {i : Input} {t : Threshold}
    {e next : MachineEntry} {output : Option AttackEvent} (active : e.state = .active)
    (violating : i.violating = true)
    (moved : Transition newULID rnd k i t e next rest output) : next.state = .active := by
  cases moved with
  | wait | cool | hold | update => exact active
  | start => rfl
  | ease _ _ quiet | finish _ _ quiet => rw [violating] at quiet; contradiction
  | thaw cooldown => rw [active] at cooldown; contradiction

theorem backed_tick {k : Key} {trace : Trace ρ} {e next : Engine ρ} {now : Time}
    {hosts : List HostInfo} {events : List AttackEvent} (backed : Backed k trace e)
    (resets : Resets k e (.tick now hosts))
    (acted : e.act newULID (.tick now hosts) = some (next, events)) :
    Backed k (⟨e, .tick now hosts, events⟩ :: trace) next := by
  have ticked := Engine.act_tick acted k
  generalize decided : verdict (e.store.tick now.unix) e.catalog k now.unix = outcome at ticked
  cases ticked with
  | skip frame =>
      by_cases active : (e.sm.entry k).state = .active
      · left
        rw [frame.entry]
        exact active
      · right
        rw [frame.streak, resets active decided]
        exact Int.natCast_nonneg _
  | judged j rnd rest output counted moved =>
      unfold Backed
      rw [violatingTicks_judged decided, counted]
      cases violating : j.violating with
      | false =>
          right
          simp
      | true =>
          rcases backed with active | bound
          · left
            exact active_of_violating active violating moved
          · right
            simp only [if_true]
            push_cast
            omega

theorem backed_step {k : Key} {trace : Trace ρ} {e next : Engine ρ} {action : Action}
    {events : List AttackEvent} (backed : Backed k trace e) (resets : Resets k e action)
    (acted : e.act newULID action = some (next, events)) :
    Backed k (⟨e, action, events⟩ :: trace) next := by
  cases action with
  | tick now hosts => exact backed_tick backed resets acted
  | update | receive =>
      have frame := Engine.act_frame acted rfl k
      unfold Backed violatingTicks
      rw [frame.entry, frame.streak, ticksOf_cons_other trace rfl]
      exact backed

theorem backed_run {store : Store} {catalog : Catalog} {out : Chan AttackEvent} {rnd : ρ} {k : Key}
    {trace : Trace ρ} {final : Engine ρ}
    (run : Run (Engine.act newULID) (Engine.new store catalog out rnd) trace final)
    (kept : ∀ front entry back, trace = front ++ entry :: back →
      Resets k entry.before entry.action) : Backed k trace final :=
  run.invariant (fun _ e action => Resets k e action) (Backed k) (Or.inr le_rfl)
    (fun _ _ _ _ _ _ backed resets acted => backed_step backed resets acted) kept

theorem started_streak {k : Key} {back : Trace ρ} {e next : Engine ρ} {now : Time}
    {hosts : List HostInfo} {events : List AttackEvent} {ev : AttackEvent}
    (backed : Backed k back e) (acted : e.act newULID (.tick now hosts) = some (next, events))
    (produced : ev ∈ keyEvents k events) (started : ev.state = .started) :
    ∃ t, e.catalog.lookupByVector k.hostIP k.vector = some t ∧
      t.minWindowSec ≤ violatingTicks k (⟨e, .tick now hosts, events⟩ :: back) := by
  have ticked := Engine.act_tick acted k
  generalize decided : verdict (e.store.tick now.unix) e.catalog k now.unix = outcome at ticked
  cases ticked with
  | skip frame =>
      rw [frame.silent] at produced
      contradiction
  | judged j rnd rest output counted moved returned =>
      refine ⟨j.threshold, verdict_threshold decided, ?_⟩
      rw [returned] at produced
      obtain rfl : output = some ev := by simpa using produced
      obtain ⟨idle, violating, long⟩ := (started_iff moved).mp ⟨ev, rfl, started⟩
      have violating : j.violating = true := violating
      have long : j.threshold.minWindowSec ≤ next.streak k := long
      have bound := backed.resolve_left (by rw [idle]; decide)
      rw [violatingTicks_judged decided]
      rw [counted] at long
      simp only [violating, if_true] at long ⊢
      push_cast
      omega

/-- In every run with a tick for each second whose ticks never skip the key with a streak under
way, incidents of the key start only after `minWindowSec` violating seconds in a row. -/
theorem sustained_of_resets (store : Store) (catalog : Catalog) (out : Chan AttackEvent) (rnd : ρ)
    (k : Key) {trace : Trace ρ} {final : Engine ρ}
    (run : Run (Engine.act newULID) (Engine.new store catalog out rnd) trace final)
    (consecutive : Consecutive (historyOf trace))
    (kept : ∀ front entry back, trace = front ++ entry :: back →
      Resets k entry.before entry.action) : Sustained k trace := by
  rintro front ⟨e, action, events⟩ back now hosts rfl same ev produced started
  obtain rfl : action = .tick now hosts := same
  obtain ⟨past, next, acted, -⟩ := run.cut
  have backed : Backed k back e := by
    apply backed_run past
    exact Run.guarded_of_suffix ((List.suffix_cons _ back).trans (List.suffix_append front _)) kept
  obtain ⟨t, lookup, long⟩ : ∃ t, e.catalog.lookupByVector k.hostIP k.vector = some t ∧
      t.minWindowSec ≤ violatingTicks k (⟨e, .tick now hosts, events⟩ :: back) :=
    started_streak backed acted produced started
  refine ⟨t, lookup, ?_⟩
  intro i within
  have reached : i + 1 ≤ violatingTicks k (⟨e, .tick now hosts, events⟩ :: back) := by omega
  obtain ⟨older, place, hot⟩ := (le_streak_iff (violated k) _ (i + 1)).mp reached i
    (Nat.lt_succ_self i)
  refine ⟨older, List.mem_of_getElem? place, ?_, hot⟩
  exact second_of_tick (consecutive_of_append front consecutive) rfl place

theorem sustained_of_resets_sample : ∃ (trace : Trace Nat) (final : Engine Nat),
    (final.sm.entry sampleKey).state = .active ∧ Sustained sampleKey trace := by
  have executed : (Run.replay (Engine.act countingULID) []
      (sampleEngine (sampleThreshold 10 1000 2 1))
      [sampleUpdate 100 22 0, sampleTick 100 100, sampleTick 101 100]).map
        (fun made => (decide (Consecutive (historyOf made.1)), (made.2.sm.entry sampleKey).state,
          made.1.all fun entry => decide (Resets sampleKey entry.before entry.action))) =
      some (true, .active, true) := by
    decide +kernel
  obtain ⟨⟨trace, final⟩, replayed, observed⟩ := Option.map_eq_some_iff.mp executed
  simp only [Prod.mk.injEq, List.all_eq_true, decide_eq_true_eq] at observed
  obtain ⟨consecutive, active, kept⟩ := observed
  refine ⟨trace, final, active, ?_⟩
  apply sustained_of_resets _ _ _ _ _ (Run.of_replay .start replayed) consecutive
  rintro front entry back rfl
  exact kept entry (by simp)

/-- The streak of second 101 survives the silent second 102 and starts an incident at 103. -/
theorem streak_survives_gap : ∃ (trace : Trace Nat) (final : Engine Nat),
    Run (Engine.act countingULID) (sampleEngine (sampleThreshold 10 1000 2 1)) trace final ∧
      Consecutive (historyOf trace) ∧ ¬ Sustained sampleKey trace := by
  have executed : (Run.replay (Engine.act countingULID) []
      (sampleEngine (sampleThreshold 10 1000 2 1))
      [sampleUpdate 100 22 0, sampleTick 101 100, sampleTick 102 100, sampleUpdate 102 22 0,
        sampleTick 103 102]).map
        (fun made => (decide (Consecutive (historyOf made.1)),
          made.1.head?.any fun entry => entry.action.second = some 103 ∧
            ((keyEvents sampleKey entry.output).any fun ev => ev.state = .started) ∧
            (entry.before.catalog.lookupByVector sampleHost .udpFlood).map
              Threshold.minWindowSec = some 2,
          (ticksOf made.1).all fun entry =>
            entry.action.second = some 102 → violated sampleKey entry = false)) =
      some (true, true, true) := by
    decide +kernel
  obtain ⟨⟨trace, final⟩, replayed, observed⟩ := Option.map_eq_some_iff.mp executed
  simp only [Prod.mk.injEq, decide_eq_true_eq, List.all_eq_true, Option.any_eq_true] at observed
  obtain ⟨consecutive, ⟨⟨e, action, events⟩, newest, second, started, row⟩, calm⟩ := observed
  refine ⟨trace, final, Run.of_replay .start replayed, consecutive, ?_⟩
  intro sustained
  obtain ⟨back, rfl⟩ := List.head?_eq_some_iff.mp newest
  cases action with
  | update | receive => contradiction
  | tick now hosts =>
      simp only [List.any_eq_true, decide_eq_true_eq] at started
      obtain ⟨ev, produced, state⟩ := started
      obtain ⟨t, lookup, each⟩ := sustained [] _ back now hosts rfl rfl ev produced state
      have window : t.minWindowSec = 2 := by
        rw [show sampleKey.hostIP = sampleHost from rfl, show sampleKey.vector = .udpFlood from rfl]
          at lookup
        rw [lookup] at row
        exact Option.some.inj row
      obtain ⟨older, member, place, hot⟩ := each 1 (by rw [window]; decide)
      have now103 : now.unix = 103 := Option.some.inj second
      rw [now103] at place
      rw [calm older member place] at hot
      contradiction

end Mitigador.Detect
