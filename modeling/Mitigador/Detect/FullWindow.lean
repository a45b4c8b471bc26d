import Mitigador.Aggregate.Window
import Mitigador.Detect.Average

/-! The averages of `evalHost` against the records of the last seconds. The tick of a second has
already cleared the slot of the sixtieth second behind it when the ring is read. -/

namespace Mitigador.Detect

open Go Mitigador.Flow Lib Aggregate

/-- Ticks of consecutive seconds, the last one for `clock`; a record of the host is applied before
the tick of its own second. -/
def Ordered (ip : Addr) : Int → List Op → Prop
  | _, [] => True
  | clock, .update host sec _ :: past => (host = ip → clock + 1 ≤ sec) ∧ Ordered ip clock past
  | clock, .tick now :: past => now = clock ∧ Ordered ip (clock - 1) past

/-- No record of the host is dated past the second that is ticked next. -/
def NoneAhead (ip : Addr) : Int → List Op → Prop
  | _, [] => True
  | clock, .update host sec _ :: past => (host = ip → sec ≤ clock + 1) ∧ NoneAhead ip clock past
  | clock, .tick _ :: past => NoneAhead ip (clock - 1) past

theorem timed_of_ordered {ip : Addr} {clock : Int} {history : List Op}
    (ordered : Ordered ip clock history) (undated : NoneAhead ip clock history) :
    Timed ip clock history := by
  induction history generalizing clock with
  | nil => trivial
  | cons op past ih =>
      cases op with
      | tick now => exact ⟨ordered.1, ih ordered.2 undated⟩
      | update host sec r =>
          refine ⟨fun here => ?_, ih ordered.2 undated.2⟩
          have early := ordered.1 here
          have late := undated.1 here
          omega

theorem seconds_eq {t : Threshold} (positive : 1 ≤ t.minWindowSec) :
    seconds t = if t.minWindowSec ≤ 59 then t.minWindowSec.toNat else 60 := by
  simp only [seconds, windowSize]
  split <;> omega

section Run

variable {ρ : Type*} {newULID : ρ → Time → String × ρ} {defaultNumShards numShards : Int}
  {catalog : Catalog} {out : Chan AttackEvent} {rnd : ρ}

theorem inWindow_minute {ip : Addr} {now : Int} {history : List Op}
    (timed : Timed ip now (.tick now :: history)) :
    inWindow (.tick now :: history) ip now 60 = appliedIn history ip now 59 := by
  have oldest := held_sixtieth history ip now
  rw [← inWindow_eq_appliedIn timed (le_refl 59), inWindow, inWindow, List.range_succ,
    List.map_append, List.sum_append, List.map_singleton, List.sum_singleton]
  exact add_eq_left.mpr oldest

/-- The sixtieth second adds nothing to either quotient. -/
def Unneeded (history : List Op) (ip : Addr) (sec : Int) : Prop :=
  packetsIn (appliedIn history ip sec 59) % 2 ^ 64 / 60 =
      packetsIn (appliedIn history ip sec 60) % 2 ^ 64 / 60 ∧
    bytesIn (appliedIn history ip sec 59) % 2 ^ 64 / 60 =
      bytesIn (appliedIn history ip sec 60) % 2 ^ 64 / 60

theorem averages_iff (history : List Op) {ip : Addr} {sec : Int} {j : Judgement}
    (timed : Timed ip sec (.tick sec :: history))
    (judged : judge ((Store.new defaultNumShards numShards).after (.tick sec :: history)) catalog
      ip sec = some (some j)) (positive : 1 ≤ j.threshold.minWindowSec) :
    Averages j (appliedIn history ip sec (seconds j.threshold)) (seconds j.threshold) ↔
      j.threshold.minWindowSec ≤ 59 ∨ Unneeded history ip sec := by
  have averages := judged_averages _ judged positive
  rw [seconds_eq positive] at averages ⊢
  by_cases short : j.threshold.minWindowSec ≤ 59
  · rw [if_pos short, inWindow_eq_appliedIn timed (by omega)] at averages
    rw [if_pos short]
    exact iff_of_true averages (Or.inl short)
  · rw [if_neg short, inWindow_minute timed] at averages
    rw [if_neg short, Averages, averages.1, averages.2]
    simp only [short, false_or, Unneeded]

/-- In a run that ticks every second and applies each record between the ticks of the second
before and of its own second, the averages are those of the whole window, exactly when it is
shorter than a minute or its oldest second does not count. -/
theorem full_window_iff {trace : Trace ρ} {final : Engine ρ}
    (run : Run (Engine.act newULID)
      (Engine.new (Store.new defaultNumShards numShards) catalog out rnd) trace final)
    {ip : Addr} {clock : Int} (ordered : Ordered ip clock (historyOf trace))
    (undated : NoneAhead ip clock (historyOf trace)) :
    ∀ front entry back (now : Time) hosts j, trace = front ++ entry :: back →
      entry.action = .tick now hosts →
        judge (entry.before.store.tick now.unix) catalog ip now.unix = some (some j) →
          1 ≤ j.threshold.minWindowSec →
            (Averages j (appliedIn (historyOf back) ip now.unix (seconds j.threshold))
                (seconds j.threshold) ↔
              j.threshold.minWindowSec ≤ 59 ∨ Unneeded (historyOf back) ip now.unix) := by
  rintro front ⟨e, action, events⟩ back now hosts j rfl same judged positive
  obtain rfl : action = .tick now hosts := same
  obtain ⟨past, -⟩ := run.cut
  have parts : historyOf (front ++ ⟨e, .tick now hosts, events⟩ :: back) =
      historyOf front ++ .tick now.unix :: historyOf back := by
    simp [historyOf, Action.op]
  have timed := timed_of_ordered ordered undated
  rw [parts] at timed
  have store : e.store.tick now.unix = (Store.new defaultNumShards numShards).after
      (.tick now.unix :: historyOf back) := by
    rw [Engine.store_run past]
    rfl
  rw [store] at judged
  exact averages_iff _ (timed_of_append timed) judged positive

end Run

def minuteHistory : List Op :=
  .update sampleHost 100 (sampleRecord protoUDP 60 0) ::
    ((List.range 59).map fun i : Nat => Op.tick (99 - i)) ++
    [.update sampleHost 41 (sampleRecord protoUDP 60 0)]

instance decidableOrdered (ip : Addr) : ∀ clock history, Decidable (Ordered ip clock history)
  | _, [] => isTrue trivial
  | clock, .update host sec _ :: past =>
      have := decidableOrdered ip clock past
      inferInstanceAs (Decidable ((host = ip → clock + 1 ≤ sec) ∧ Ordered ip clock past))
  | clock, .tick now :: past =>
      have := decidableOrdered ip (clock - 1) past
      inferInstanceAs (Decidable (now = clock ∧ Ordered ip (clock - 1) past))

instance decidableNoneAhead (ip : Addr) : ∀ clock history, Decidable (NoneAhead ip clock history)
  | _, [] => isTrue trivial
  | clock, .update host sec _ :: past =>
      have := decidableNoneAhead ip clock past
      inferInstanceAs (Decidable ((host = ip → sec ≤ clock + 1) ∧ NoneAhead ip clock past))
  | clock, .tick _ :: past => decidableNoneAhead ip (clock - 1) past

theorem full_window_sample : ∃ (back : Trace Nat) (e : Engine Nat) (j : Judgement),
    historyOf back = minuteHistory ∧
    judge (e.store.tick 100) (sampleEngine (sampleThreshold 1000 800 59 1)).catalog sampleHost 100 =
      some (some j) ∧
    Averages j (appliedIn minuteHistory sampleHost 100 59) 59 := by
  have judged : (judge ((Store.new 1 1).after (.tick 100 :: minuteHistory))
      (sampleEngine (sampleThreshold 1000 800 59 1)).catalog sampleHost 100).map
        (Option.map Judgement.threshold) = some (some (sampleThreshold 1000 800 59 1)) := by
    decide +kernel
  obtain ⟨outcome, found, mapped⟩ := Option.map_eq_some_iff.mp judged
  obtain ⟨j, rfl, row⟩ := Option.map_eq_some_iff.mp mapped
  obtain ⟨back, final, e, hosts, events, run, seen, store⟩ :=
    sample_tick 59 (by decide) minuteHistory 100
  rw [← store] at found
  have whole : historyOf (⟨e, .tick (Time.ofUnix 100) hosts, events⟩ :: back) =
      .tick 100 :: minuteHistory := by
    rw [← seen]
    rfl
  have ordered : Ordered sampleHost 100
      (historyOf (⟨e, .tick (Time.ofUnix 100) hosts, events⟩ :: back)) := by
    rw [whole]
    decide +kernel
  have undated : NoneAhead sampleHost 100
      (historyOf (⟨e, .tick (Time.ofUnix 100) hosts, events⟩ :: back)) := by
    rw [whole]
    decide +kernel
  have reached : judge (e.store.tick (Time.ofUnix 100).unix)
      (sampleEngine (sampleThreshold 1000 800 59 1)).catalog sampleHost (Time.ofUnix 100).unix =
        some (some j) := by
    rw [Time.unix_ofUnix] at found ⊢
    exact found
  have agrees := full_window_iff run ordered undated [] _ back (Time.ofUnix 100) hosts j rfl rfl
    reached (by rw [row]; decide)
  rw [Time.unix_ofUnix] at found agrees
  have wide : seconds j.threshold = 59 := by rw [row]; decide
  rw [seen, wide] at agrees
  exact ⟨back, e, j, seen, found, agrees.mpr (Or.inl (by rw [row]; decide))⟩

/-- Over the whole minute the packets of second 41 are missing at the tick of second 100: the average
is 1, and 120 packets in 60 seconds are 2. -/
theorem minute_without_oldest : ∃ (back : Trace Nat) (final e : Engine Nat)
    (hosts : List HostInfo) (events : List AttackEvent) (j : Judgement),
    Run (Engine.act countingULID) (sampleEngine (sampleThreshold 1000 800 60 1))
        (⟨e, .tick (Time.ofUnix 100) hosts, events⟩ :: back) final ∧
      Ordered sampleHost 100 (.tick 100 :: historyOf back) ∧
      judge (e.store.tick (Time.ofUnix 100).unix)
        (sampleEngine (sampleThreshold 1000 800 60 1)).catalog sampleHost (Time.ofUnix 100).unix =
          some (some j) ∧
      seconds j.threshold = 60 ∧ j.avgPps = 1 ∧
      packetsIn (appliedIn (historyOf back) sampleHost 100 60) % 2 ^ 64 / 60 = 2 := by
  have judged : (judge ((Store.new 1 1).after (.tick 100 :: minuteHistory))
      (sampleEngine (sampleThreshold 1000 800 60 1)).catalog sampleHost 100).map
        (Option.map fun j => (j.avgPps, seconds j.threshold)) = some (some (1, 60)) := by
    decide +kernel
  obtain ⟨outcome, found, mapped⟩ := Option.map_eq_some_iff.mp judged
  obtain ⟨j, rfl, fields⟩ := Option.map_eq_some_iff.mp mapped
  rw [Prod.mk.injEq] at fields
  obtain ⟨back, final, e, hosts, events, run, seen, store⟩ :=
    sample_tick 60 (by decide) minuteHistory 100
  rw [← store] at found
  refine ⟨back, final, e, hosts, events, j, run, ?_, ?_, fields.2, fields.1, ?_⟩
  · rw [seen]
    decide +kernel
  · rw [Time.unix_ofUnix] at found ⊢
    exact found
  · rw [seen]
    decide +kernel

end Mitigador.Detect
