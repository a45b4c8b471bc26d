import Mitigador.Detect.EngineRun

/-! Closing an incident. The grace counter of an active incident moves only on ticks that judge
its key, so it counts seconds in runs that never skip an active key. -/

namespace Mitigador.Detect

open Go Mitigador.Flow Lib Aggregate

variable {ρ : Type*} {newULID : ρ → Time → String × ρ}

/-- The ticks since the last one that was violating for the key. -/
def quietTicks (k : Key) (trace : Trace ρ) : Nat :=
  streak (fun entry => !violated k entry) (ticksOf trace)

/-- A tick that finds the key active judges it: the store still has the host, and the vector of
the key dominates its window. -/
def Attends (k : Key) (e : Engine ρ) : Action → Prop
  | .tick now _ => (e.sm.entry k).state = .active →
      (verdict (e.store.tick now.unix) e.catalog k now.unix).isSome
  | _ => True

instance (k : Key) (e : Engine ρ) : ∀ action, Decidable (Attends k e action)
  | .tick now _ => inferInstanceAs (Decidable ((e.sm.entry k).state = .active →
      (verdict (e.store.tick now.unix) e.catalog k now.unix).isSome))
  | .update _ _ _ => isTrue trivial
  | .receive => isTrue trivial

/-- An active incident is younger than its grace period, and the tick that completes the period
ends it. -/
structure Closes (k : Key) (trace : Trace ρ) (final : Engine ρ) : Prop where
  bounded : (final.sm.entry k).state = .active →
    ∃ t, final.catalog.lookupByVector k.hostIP k.vector = some t ∧
      (quietTicks k trace : Int) < t.graceSec
  ends : ∀ front entry back now hosts t, trace = front ++ entry :: back →
    entry.action = .tick now hosts → (entry.before.sm.entry k).state = .active →
      final.catalog.lookupByVector k.hostIP k.vector = some t →
        (quietTicks k (entry :: back) : Int) = t.graceSec →
          ∃ ev ∈ keyEvents k entry.output, ev.state = .ended

def Counted (k : Key) (trace : Trace ρ) (e : Engine ρ) : Prop :=
  (e.sm.entry k).state = .active → ∃ inc t, (e.sm.entry k).inc = some inc ∧
    e.catalog.lookupByVector k.hostIP k.vector = some t ∧
      inc.noViolationTicks = quietTicks k trace ∧ (inc.noViolationTicks : Int) < graceTicks t

theorem graceTicks_checked {t : Threshold} (positive : 0 < t.graceSec) :
    graceTicks t = t.graceSec := by
  rw [graceTicks, if_neg (not_le.mpr positive)]

section Tick

variable {k : Key} {trace : Trace ρ} {e : Engine ρ} {now : Time} {hosts : List HostInfo}
  {events : List AttackEvent} {j : Judgement}
  (decided : verdict (e.store.tick now.unix) e.catalog k now.unix = some j)

include decided

theorem violated_judged : violated k ⟨e, .tick now hosts, events⟩ = j.violating := by
  simp only [violated, decided]

theorem quietTicks_quiet (calm : j.violating = false) :
    quietTicks k (⟨e, .tick now hosts, events⟩ :: trace) = quietTicks k trace + 1 := by
  rw [quietTicks, ticksOf_cons_tick trace rfl, streak_cons_pos _ _ (by
    rw [violated_judged decided, calm]
    rfl)]
  rfl

theorem quietTicks_violating (violating : j.violating = true) :
    quietTicks k (⟨e, .tick now hosts, events⟩ :: trace) = 0 := by
  rw [quietTicks, ticksOf_cons_tick trace rfl, streak_cons_neg _ _ (by
    rw [violated_judged decided, violating]
    rfl)]

end Tick

theorem counted_frame {k : Key} {trace : Trace ρ} {e next : Engine ρ} {action : Action}
    {events : List AttackEvent} (acted : e.act newULID action = some (next, events))
    (other : action.isTick = false) (counted : Counted k trace e) :
    Counted k (⟨e, action, events⟩ :: trace) next := by
  have frame := Engine.act_frame acted other k
  intro active
  rw [frame.entry] at active ⊢
  rw [Engine.act_catalog acted, quietTicks, ticksOf_cons_other trace other]
  exact counted active

theorem counted_judged {k : Key} {trace : Trace ρ} {e next : Engine ρ} {now : Time}
    {hosts : List HostInfo} {events : List AttackEvent} {j : Judgement} {i : Input} {rnd rest : ρ}
    {output : Option AttackEvent} (catalog : next.catalog = e.catalog)
    (decided : verdict (e.store.tick now.unix) e.catalog k now.unix = some j)
    (observed : i.violating = j.violating) (counted : Counted k trace e)
    (moved : Transition newULID rnd k i j.threshold (e.sm.entry k) (next.sm.entry k) rest output) :
    Counted k (⟨e, .tick now hosts, events⟩ :: trace) next := by
  intro active
  rw [catalog]
  have found := verdict_threshold decided
  generalize before : e.sm.entry k = old at moved
  generalize after : next.sm.entry k = new at moved active ⊢
  cases moved with
  | wait idle => rw [idle] at active; contradiction
  | cool cooldown => rw [cooldown] at active; contradiction
  | finish | thaw => contradiction
  | start idle violating =>
      rw [observed] at violating
      exact ⟨_, j.threshold, rfl, found, (quietTicks_violating decided violating).symm,
        graceTicks_pos j.threshold⟩
  | @ease inc running present calm short =>
      rw [observed] at calm
      obtain ⟨known, t, same, lookup, ticks, -⟩ := counted (by rw [before]; exact running)
      rw [before, present] at same
      obtain rfl : inc = known := Option.some.inj same
      exact ⟨_, j.threshold, rfl, found, by rw [quietTicks_quiet decided calm, ticks],
        by exact_mod_cast short⟩
  | hold running present violating | update running present violating =>
      rw [observed] at violating
      exact ⟨_, j.threshold, rfl, found, (quietTicks_violating decided violating).symm,
        graceTicks_pos j.threshold⟩

theorem counted_step {k : Key} {trace : Trace ρ} {e next : Engine ρ} {action : Action}
    {events : List AttackEvent} (counted : Counted k trace e) (attends : Attends k e action)
    (acted : e.act newULID action = some (next, events)) :
    Counted k (⟨e, action, events⟩ :: trace) next := by
  cases action with
  | update | receive => exact counted_frame acted rfl counted
  | tick now hosts =>
      have ticked := Engine.act_tick acted k
      generalize decided : verdict (e.store.tick now.unix) e.catalog k now.unix = outcome at ticked
      cases ticked with
      | skip frame =>
          intro active
          rw [frame.entry] at active
          have judged := attends active
          rw [decided] at judged
          contradiction
      | judged j rnd rest output _ moved =>
          exact counted_judged (Engine.act_catalog acted) decided rfl counted moved

theorem counted_run {start final : Engine ρ} {trace : Trace ρ} {k : Key}
    (run : Run (Engine.act newULID) start trace final)
    (inactive : (start.sm.entry k).state ≠ .active)
    (attended : ∀ front entry back, trace = front ++ entry :: back →
      Attends k entry.before entry.action) : Counted k trace final :=
  run.invariant (fun _ e action => Attends k e action) (Counted k)
    (fun active => absurd active inactive)
    (fun _ _ _ _ _ _ counted attends acted => counted_step counted attends acted) attended

theorem ended_at_grace {k : Key} {back : Trace ρ} {e next : Engine ρ} {now : Time}
    {hosts : List HostInfo} {events : List AttackEvent} {t : Threshold}
    (checked : e.catalog.Checked)
    (counted : Counted k back e) (active : (e.sm.entry k).state = .active)
    (attends : Attends k e (.tick now hosts))
    (acted : e.act newULID (.tick now hosts) = some (next, events))
    (lookup : e.catalog.lookupByVector k.hostIP k.vector = some t)
    (complete : (quietTicks k (⟨e, .tick now hosts, events⟩ :: back) : Int) = t.graceSec) :
    ∃ ev ∈ keyEvents k events, ev.state = .ended := by
  have positive := (lookup_checked checked lookup).2
  obtain ⟨inc, _, present, _, ticks, -⟩ := counted active
  obtain ⟨j, decided⟩ := Option.isSome_iff_exists.mp (attends active)
  have found := verdict_threshold decided
  obtain rfl : t = j.threshold := Option.some.inj (lookup.symm.trans found)
  have calm : j.violating = false := by
    cases violating : j.violating with
    | false => rfl
    | true =>
        rw [quietTicks_violating decided violating] at complete
        push_cast at complete
        omega
  rw [quietTicks_quiet decided calm, ← ticks] at complete
  have ticked := Engine.act_tick acted k
  rw [decided] at ticked
  cases ticked with
  | judged _ rnd rest output _ moved produced =>
      rw [produced]
      generalize after : next.sm.entry k = new at moved
      generalize before : e.sm.entry k = old at moved active present
      cases moved with
      | wait idle | start idle => rw [active] at idle; contradiction
      | cool cooldown | thaw cooldown => rw [active] at cooldown; contradiction
      | hold _ _ violating | update _ _ violating =>
          have observed : j.violating = true := violating
          rw [calm] at observed
          contradiction
      | @ease known _ same _ short =>
          obtain rfl : inc = known := Option.some.inj (present.symm.trans same)
          rw [graceTicks_checked positive] at short
          push_cast at complete
          omega
      | finish => exact ⟨_, List.mem_singleton_self _, rfl⟩

/-- In every run whose ticks judge the key whenever it is active, no incident of the key outlives
its grace period. -/
theorem closes_of_attended (store : Store) (catalog : Catalog) (checked : catalog.Checked)
    (out : Chan AttackEvent) (rnd : ρ) (k : Key) {trace : Trace ρ} {final : Engine ρ}
    (run : Run (Engine.act newULID) (Engine.new store catalog out rnd) trace final)
    (attended : ∀ front entry back, trace = front ++ entry :: back →
      Attends k entry.before entry.action) : Closes k trace final where
  bounded := by
    intro active
    obtain ⟨inc, t, -, lookup, ticks, short⟩ :=
      counted_run run (by simp [Engine.new, Watch.new, StateMachine.entry, StateMachine.new, newEntry])
        attended active
    have rows := Engine.catalog_run run
    have positive := (lookup_checked (rows ▸ checked) lookup).2
    rw [graceTicks_checked positive, ticks] at short
    exact ⟨t, lookup, short⟩
  ends := by
    rintro front ⟨before, action, events⟩ back now hosts t rfl same active lookup complete
    obtain rfl : action = .tick now hosts := same
    obtain ⟨past, next, acted, -⟩ := run.cut
    have rows := Engine.catalog_run past
    have counted : Counted k back before := by
      apply counted_run past (by simp [Engine.new, Watch.new, StateMachine.entry, StateMachine.new, newEntry])
      exact Run.guarded_of_suffix ((List.suffix_cons _ back).trans (List.suffix_append front _))
        attended
    rw [Engine.catalog_run run, ← rows] at lookup
    exact ended_at_grace (rows ▸ checked) counted active
      (attended front ⟨before, .tick now hosts, events⟩ back rfl) acted lookup complete

theorem closes_of_attended_sample : ∃ (trace : Trace Nat) (final : Engine Nat),
    quietTicks sampleKey trace = 1 ∧ (final.sm.entry sampleKey).state = .cooldown ∧
      Closes sampleKey trace final := by
  have executed : (Run.replay (Engine.act countingULID) []
      (sampleEngine (sampleThreshold 10 1000 1 1))
      [sampleUpdate 100 11 0, sampleTick 100 100, sampleUpdate 101 1 0, sampleTick 101 101]).map
        (fun made => (quietTicks sampleKey made.1, (made.2.sm.entry sampleKey).state,
          made.1.all fun entry => decide (Attends sampleKey entry.before entry.action))) =
      some (1, .cooldown, true) := by
    decide +kernel
  obtain ⟨⟨trace, final⟩, replayed, observed⟩ := Option.map_eq_some_iff.mp executed
  simp only [Prod.mk.injEq, List.all_eq_true, decide_eq_true_eq] at observed
  refine ⟨trace, final, observed.1, observed.2.1, ?_⟩
  apply closes_of_attended _ _ _ _ _ _ (Run.of_replay .start replayed)
  · rintro front entry back rfl
    exact observed.2.2 entry (by simp)
  · intro t member
    rw [List.mem_singleton.mp member]
    decide

/-- One silent second should close this incident, but the tick skips the host. -/
theorem silent_host_stays_active : ∃ (trace : Trace Nat) (final : Engine Nat),
    Run (Engine.act countingULID) (sampleEngine (sampleThreshold 10 1000 1 1)) trace final ∧
      Consecutive (historyOf trace) ∧ quietTicks sampleKey trace = 1 ∧
      (final.sm.entry sampleKey).state = .active ∧ ¬ Closes sampleKey trace final := by
  have executed : (Run.replay (Engine.act countingULID) []
      (sampleEngine (sampleThreshold 10 1000 1 1))
      [sampleUpdate 100 11 0, sampleTick 100 100, sampleTick 101 100]).map
        (fun made => (decide (Consecutive (historyOf made.1)), quietTicks sampleKey made.1,
          (made.2.sm.entry sampleKey).state,
          made.2.catalog.lookupByVector sampleHost .udpFlood)) =
      some (true, 1, .active, some (sampleThreshold 10 1000 1 1)) := by
    decide +kernel
  obtain ⟨⟨trace, final⟩, replayed, observed⟩ := Option.map_eq_some_iff.mp executed
  simp only [Prod.mk.injEq, decide_eq_true_eq] at observed
  obtain ⟨consecutive, quiet, active, row⟩ := observed
  refine ⟨trace, final, Run.of_replay .start replayed, consecutive, quiet, active, ?_⟩
  intro closes
  obtain ⟨t, lookup, short⟩ := closes.bounded active
  rw [show sampleKey.hostIP = sampleHost from rfl, show sampleKey.vector = .udpFlood from rfl,
    row] at lookup
  cases lookup
  rw [quiet] at short
  exact absurd short (by decide)

end Mitigador.Detect
