import Mitigador.Aggregate.Window
import Mitigador.Detect.EngineRun

/-! What the averages of `evalHost` measure. Buckets count bytes, and the configuration states
its limit in bits. -/

namespace Mitigador.Detect

open Go Mitigador.Flow Lib Aggregate

/-- The comparison of a threshold with the packets and the volume of `n` seconds. -/
def Exceeds (t : Threshold) (n packets volume : Nat) : Prop :=
  t.pps.toNat < packets / n ∨ t.bps.toNat < volume / n

instance (t : Threshold) (n packets volume : Nat) : Decidable (Exceeds t n packets volume) :=
  inferInstanceAs (Decidable (_ ∨ _))

/-- The slots that the tick of a second leaves count just the records applied for the window. -/
def Intact (past : List Op) (ip : Addr) (sec : Int) (n : Nat) : Prop :=
  inWindow past ip sec (min n 59) = appliedIn past ip sec n

instance (past : List Op) (ip : Addr) (sec : Int) (n : Nat) : Decidable (Intact past ip sec n) :=
  inferInstanceAs (Decidable (_ = _))

theorem intact_of_timed {ip : Addr} {sec : Int} {past : List Op}
    (timed : Timed ip sec (.tick sec :: past)) {n : Nat} (short : n ≤ 59) :
    Intact past ip sec n := by
  unfold Intact
  rw [min_eq_left short, inWindow, appliedIn]
  congr 1
  apply List.map_congr_left
  intro i member
  rw [List.mem_range] at member
  exact held_eq_recordsAt timed.2 _ (by omega) (by omega)

/-- The packets and the bytes stay below the figures of their limits, and the bits do not. -/
structure Underrated (t : Threshold) (n packets bytes : Nat) : Prop where
  fewPackets : packets < n * (t.pps.toNat + 1)
  fewBytes : bytes < n * (t.bps.toNat + 1)
  manyBits : n * (t.bps.toNat + 1) ≤ 8 * bytes

theorem exceeds_iff {t : Threshold} {n : Nat} (positive : 0 < n) (packets volume : Nat) :
    Exceeds t n packets volume ↔
      n * (t.pps.toNat + 1) ≤ packets ∨ n * (t.bps.toNat + 1) ≤ volume := by
  simp only [Exceeds, Nat.lt_iff_add_one_le, Nat.le_div_iff_mul_le positive, Nat.mul_comm]

theorem underrated_iff {t : Threshold} {n : Nat} (positive : 0 < n) (packets bytes : Nat) :
    (Exceeds t n packets bytes ↔ Exceeds t n packets (8 * bytes)) ↔
      ¬ Underrated t n packets bytes := by
  rw [exceeds_iff positive, exceeds_iff positive]
  constructor
  · intro agrees gap
    rcases agrees.mpr (Or.inr gap.manyBits) with above | above
    · exact absurd gap.fewPackets (Nat.not_lt.mpr above)
    · exact absurd gap.fewBytes (Nat.not_lt.mpr above)
  · intro clear
    constructor
    · rintro (above | above)
      · exact Or.inl above
      · exact Or.inr (by omega)
    · rintro (above | bits)
      · exact Or.inl above
      · by_contra within
        rw [not_or, Nat.not_le, Nat.not_le] at within
        exact clear ⟨within.1, within.2, bits⟩

theorem sumOf_totals (counter : Bucket → UInt64) (zero : counter 0 = 0)
    (additive : ∀ b o, counter (b + o) = counter b + counter o) (groups : List (Multiset Record)) :
    sumOf counter (groups.map totals) = counter (totals groups.sum) := by
  induction groups with
  | nil => simp [sumOf, totals_zero, zero]
  | cons group groups ih =>
      rw [List.sum_cons, totals_add, additive, ← ih]
      simp [sumOf]

def seconds (t : Threshold) : Nat := (min t.minWindowSec windowSize).toNat

theorem seconds_le (t : Threshold) : seconds t ≤ 60 := by
  simp only [seconds, windowSize]
  omega

theorem seconds_pos {t : Threshold} (positive : 0 < t.minWindowSec) : 0 < seconds t := by
  simp only [seconds, windowSize]
  omega

/-- The averages that were compared, against some records and a number of seconds. -/
def Averages (j : Judgement) (records : Multiset Record) (w : Nat) : Prop :=
  j.avgPps.toNat = packetsIn records % 2 ^ 64 / w ∧ j.avgBps.toNat = bytesIn records % 2 ^ 64 / w

theorem compare_averages {vec : Vector} {t : Threshold} {current : Bucket} {older : List Bucket}
    {j : Judgement} (low : 0 < width t (current :: older))
    (high : width t (current :: older) ≤ windowSize)
    (compared : compare vec t current older = some j) :
    j.avgPps.toNat = (sumOf Bucket.pps
        ((current :: older).take (width t (current :: older)).toNat)).toNat /
          (width t (current :: older)).toNat ∧
      j.avgBps.toNat = (sumOf Bucket.bps
        ((current :: older).take (width t (current :: older)).toNat)).toNat /
          (width t (current :: older)).toNat := by
  have divisor : (UInt64.ofInt (width t (current :: older))).toNat =
      (width t (current :: older)).toNat :=
    toNat_ofInt low.le (by simp only [windowSize] at high; omega)
  simp only [compare] at compared
  split at compared
  · contradiction
  · cases compared
    simp only [UInt64.toNat_div, divisor, and_self]

theorem compare_violating {vec : Vector} {t : Threshold} {current : Bucket} {older : List Bucket}
    {j : Judgement} (compared : compare vec t current older = some j) :
    j.violating = true ↔ t.pps.toNat < j.avgPps.toNat ∨ t.bps.toNat < j.avgBps.toNat := by
  simp only [compare] at compared
  split at compared
  · contradiction
  · cases compared
    simp only [Bool.or_eq_true, decide_eq_true_eq, gt_iff_lt, UInt64.lt_iff_toNat_lt]

section Run

variable {ρ : Type*} {newULID : ρ → Time → String × ρ} {defaultNumShards numShards : Int}
  {catalog : Catalog} {out : Chan AttackEvent} {rnd : ρ}

theorem judged_averages (history : List Op) {ip : Addr} {sec : Int} {j : Judgement}
    (judged : judge ((Store.new defaultNumShards numShards).after history) catalog ip sec =
      some (some j)) (positive : 1 ≤ j.threshold.minWindowSec) :
    Averages j (inWindow history ip sec (seconds j.threshold)) (seconds j.threshold) := by
  obtain ⟨current, older, reported, -, found, compared⟩ := judge_eq_some.mp judged
  have fresh := Store.host_new defaultNumShards numShards
  have length := Store.snapshot_length reported
  have shown := snapshot_after _ fresh history ip sec _ _ reported
  have widest := le_maxWindow (Catalog.lookupByVector_spec found).1
  have above : 0 < j.threshold.minWindowSec := by omega
  obtain ⟨low, high⟩ := width_bounds above (List.cons_ne_nil current older)
  have narrow : (width j.threshold (current :: older)).toNat = seconds j.threshold := by
    unfold width seconds
    split <;> omega
  have taken : (current :: older).take (seconds j.threshold) =
      ((List.range (seconds j.threshold)).map fun i : Nat => held history ip (sec - i)).map
        totals := by
    rw [shown, ← List.map_take, List.take_range, List.map_map, ← narrow,
      min_eq_left (by omega)]
    rfl
  obtain ⟨packets, bytes⟩ := compare_averages low (by omega) compared
  rw [narrow, taken, sumOf_totals Bucket.pps rfl (fun _ _ => rfl), totals_pps] at packets
  rw [narrow, taken, sumOf_totals Bucket.bps rfl (fun _ _ => rfl), totals_bps] at bytes
  exact ⟨packets, bytes⟩

theorem judged_exceeds (history : List Op) {ip : Addr} {sec : Int} {j : Judgement}
    (judged : judge ((Store.new defaultNumShards numShards).after history) catalog ip sec =
      some (some j)) (positive : 0 < j.threshold.minWindowSec) :
    j.violating = true ↔ Exceeds j.threshold (seconds j.threshold)
      (packetsIn (inWindow history ip sec (seconds j.threshold)) % 2 ^ 64)
      (bytesIn (inWindow history ip sec (seconds j.threshold)) % 2 ^ 64) := by
  obtain ⟨packets, bytes⟩ := judged_averages history judged positive
  obtain ⟨_, _, -, -, -, compared⟩ := judge_eq_some.mp judged
  rw [compare_violating compared, packets, bytes, Exceeds]

/-- At every comparison of a run whose slots count what was applied, in sums below 2^64, the tick
is judged by the packets and the bits that were applied, unless these fall between the figure of
the limit in bits and its eightfold. -/
theorem judged_by_bits (checked : catalog.Checked) {trace : Trace ρ} {final : Engine ρ}
    (run : Run (Engine.act newULID)
      (Engine.new (Store.new defaultNumShards numShards) catalog out rnd) trace final) :
    ∀ front entry back (now : Time) hosts ip j, trace = front ++ entry :: back →
      entry.action = .tick now hosts →
        judge (entry.before.store.tick now.unix) catalog ip now.unix = some (some j) →
          let n := seconds j.threshold
          let records := appliedIn (historyOf back) ip now.unix n
          Intact (historyOf back) ip now.unix n →
            packetsIn records < 2 ^ 64 → bytesIn records < 2 ^ 64 →
              ((j.violating = true ↔
                  Exceeds j.threshold n (packetsIn records) (8 * bytesIn records)) ↔
                ¬ Underrated j.threshold n (packetsIn records) (bytesIn records)) := by
  rintro front ⟨e, action, events⟩ back now hosts ip j rfl same judged
  obtain rfl : action = .tick now hosts := same
  obtain ⟨past, -⟩ := run.cut
  have store : e.store.tick now.unix = (Store.new defaultNumShards numShards).after
      (.tick now.unix :: historyOf back) := by
    rw [Engine.store_run past]
    rfl
  rw [store] at judged
  obtain ⟨_, _, reported, -, found, -⟩ := judge_eq_some.mp judged
  have positive := (lookup_checked checked found).1
  have decided := judged_exceeds _ judged positive
  obtain ⟨log, known⟩ := known_of_snapshot (Store.host_new defaultNumShards numShards) reported
  intro n records counted fewPackets fewBytes
  have seen : inWindow (.tick now.unix :: historyOf back) ip now.unix n = records :=
    (inWindow_tick known (seconds_le j.threshold)).trans counted
  rw [seen, Nat.mod_eq_of_lt fewPackets, Nat.mod_eq_of_lt fewBytes] at decided
  rw [decided]
  exact underrated_iff (seconds_pos positive) _ _

end Run

theorem sample_tick (n : Int) (positive : 0 < n) (past : List Op) (sec : Int) :
    ∃ back final e hosts events,
      Run (Engine.act countingULID) (sampleEngine (sampleThreshold 1000 800 n 1))
          (⟨e, .tick (Time.ofUnix sec) hosts, events⟩ :: back) final ∧
        historyOf back = past ∧
        e.store.tick (Time.ofUnix sec).unix = (Store.new 1 1).after (.tick sec :: past) := by
  have checked : (sampleEngine (sampleThreshold 1000 800 n 1)).catalog.Checked := by
    intro t member
    rw [List.mem_singleton.mp member]
    exact ⟨positive, Int.one_pos⟩
  obtain ⟨back, final, e, hosts, events, run, seen⟩ := Engine.tick_of_history countingULID
    (Engine.sound_new (Store.new 1 1) checked 256 0) past sec
  refine ⟨back, final, e, hosts, events, run, seen, ?_⟩
  cases run with
  | step before moved =>
      rw [Engine.store_run before, Time.unix_ofUnix, seen]
      rfl

def sampleHistory (bytes : UInt64) : List Op :=
  [.update sampleHost 100 (sampleRecord protoUDP 1 bytes)]

theorem sample_judged {bytes : UInt64} {violating : Bool}
    (judged : (judge ((Store.new 1 1).after (.tick 100 :: sampleHistory bytes))
        (sampleEngine (sampleThreshold 1000 800 1 1)).catalog sampleHost 100).map
          (Option.map fun j => (j.violating, j.threshold)) =
      some (some (violating, sampleThreshold 1000 800 1 1))) :
    ∃ (back : Trace Nat) (final e : Engine Nat) (hosts : List HostInfo)
      (events : List AttackEvent) (j : Judgement),
      Run (Engine.act countingULID) (sampleEngine (sampleThreshold 1000 800 1 1))
          (⟨e, .tick (Time.ofUnix 100) hosts, events⟩ :: back) final ∧
        historyOf back = sampleHistory bytes ∧
        judge (e.store.tick (Time.ofUnix 100).unix)
          (sampleEngine (sampleThreshold 1000 800 1 1)).catalog sampleHost
            (Time.ofUnix 100).unix = some (some j) ∧
        j.violating = violating ∧ j.threshold = sampleThreshold 1000 800 1 1 := by
  obtain ⟨outcome, found, mapped⟩ := Option.map_eq_some_iff.mp judged
  obtain ⟨j, rfl, fields⟩ := Option.map_eq_some_iff.mp mapped
  obtain ⟨back, final, e, hosts, events, run, seen, store⟩ :=
    sample_tick 1 (by decide) (sampleHistory bytes) 100
  rw [← store] at found
  rw [Prod.mk.injEq] at fields
  refine ⟨back, final, e, hosts, events, j, run, seen, ?_, fields⟩
  rw [Time.unix_ofUnix] at found ⊢
  exact found

theorem judged_by_bits_sample : ∃ (back : Trace Nat) (j : Judgement),
    historyOf back = sampleHistory 900 ∧ j.violating = true ∧
      Exceeds j.threshold 1 (packetsIn (appliedIn (historyOf back) sampleHost 100 1))
        (8 * bytesIn (appliedIn (historyOf back) sampleHost 100 1)) := by
  obtain ⟨back, final, e, hosts, events, j, run, past, judged, hot, row⟩ :=
    @sample_judged 900 true (by decide +kernel)
  have checked : (sampleEngine (sampleThreshold 1000 800 1 1)).catalog.Checked := by
    intro t member
    rw [List.mem_singleton.mp member]
    decide
  have wide : seconds j.threshold = 1 := by rw [row]; decide
  have timed : Timed sampleHost 100 (.tick 100 :: sampleHistory 900) :=
    ⟨rfl, fun _ => ⟨by decide, by decide⟩, trivial⟩
  have agrees := judged_by_bits checked run [] _ back (Time.ofUnix 100) hosts sampleHost j rfl rfl
    judged
  rw [past, Time.unix_ofUnix, wide] at agrees
  have above : ¬ Underrated j.threshold 1 (packetsIn (appliedIn (sampleHistory 900) sampleHost 100 1))
      (bytesIn (appliedIn (sampleHistory 900) sampleHost 100 1)) := by
    intro gap
    have few := gap.fewBytes
    rw [row] at few
    exact absurd few (by decide +kernel)
  have exact := (agrees (intact_of_timed timed (by decide)) (by decide +kernel)
    (by decide +kernel)).mpr above
  exact ⟨back, j, past, hot, past ▸ exact.mp hot⟩

/-- 1600 bits in one second stay below a limit of 800 bits per second. -/
theorem bytes_judged_as_bits : ∃ (back : Trace Nat) (final e : Engine Nat) (hosts : List HostInfo)
    (events : List AttackEvent) (j : Judgement),
    Run (Engine.act countingULID) (sampleEngine (sampleThreshold 1000 800 1 1))
        (⟨e, .tick (Time.ofUnix 100) hosts, events⟩ :: back) final ∧
      judge (e.store.tick (Time.ofUnix 100).unix)
        (sampleEngine (sampleThreshold 1000 800 1 1)).catalog sampleHost (Time.ofUnix 100).unix =
          some (some j) ∧
      j.violating = false ∧
      Exceeds j.threshold (seconds j.threshold)
        (packetsIn (appliedIn (historyOf back) sampleHost 100 (seconds j.threshold)))
        (8 * bytesIn (appliedIn (historyOf back) sampleHost 100 (seconds j.threshold))) := by
  obtain ⟨back, final, e, hosts, events, j, run, past, judged, calm, row⟩ :=
    @sample_judged 200 false (by decide +kernel)
  refine ⟨back, final, e, hosts, events, j, run, judged, calm, ?_⟩
  rw [past, row]
  decide +kernel

end Mitigador.Detect
