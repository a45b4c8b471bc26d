import Mitigador.Ingest.HealthRows

/-! The buckets of one exporter after observations in any order, as long as none of them is a
minute or more behind the latest one before it. -/

namespace Mitigador.Ingest

open Go Lib

def latest (secs : List Int) : Int := secs.foldl max 0

/-- No second is a minute or more behind the latest one before it. -/
def Near (secs : List Int) : Prop :=
  ∀ front sec back, secs = front ++ sec :: back → latest front - 59 ≤ sec

/-- The observations of a second that no observation of an earlier second follows. -/
def standing (secs : List Int) (sec : Int) : Nat :=
  (secs.rtakeWhile fun other => decide (sec ≤ other)).count sec

theorem latest_append (secs : List Int) (sec : Int) :
    latest (secs ++ [sec]) = max (latest secs) sec := by
  simp [latest]

theorem latest_le {secs : List Int} {top : Int} (epoch : 0 ≤ top)
    (upper : ∀ sec ∈ secs, sec ≤ top) : latest secs ≤ top := by
  induction secs using List.reverseRecOn with
  | nil => exact epoch
  | append_singleton past last ih =>
      rw [latest_append]
      exact max_le (ih fun sec member => upper sec (List.mem_append_left _ member))
        (upper last (by simp))

theorem standing_append (secs : List Int) (last sec : Int) :
    standing (secs ++ [last]) sec =
      if sec ≤ last then standing secs sec + if sec = last then 1 else 0 else 0 := by
  unfold standing
  rw [List.rtakeWhile_concat]
  by_cases reached : sec ≤ last
  · rw [if_pos (by simpa using reached), if_pos reached, List.count_append, List.count_singleton]
    simp only [beq_iff_eq, @eq_comm _ last sec]
  · rw [if_neg (by simpa using reached), if_neg reached, List.count_nil]

theorem standing_beyond {secs : List Int} {sec : Int} (beyond : secs.getLast?.getD 0 < sec) :
    standing secs sec = 0 := by
  cases secs using List.reverseRecOn with
  | nil => rfl
  | append_singleton past last =>
      rw [List.getLast?_concat, Option.getD_some] at beyond
      rw [standing_append, if_neg (not_le.mpr beyond)]

theorem near_of_append {front : List Int} {sec : Int} (near : Near (front ++ [sec])) :
    Near front ∧ latest front - 59 ≤ sec := by
  refine ⟨fun before other back same => ?_, near front sec [] rfl⟩
  exact near before other (back ++ [sec]) (by rw [same]; simp)

structure Counted (times : List Time) (es : ExporterState) : Prop where
  lastSeen : es.lastSeen = times.getLast?.getD Time.zero
  cursor : es.lastBucketSec = (times.map Time.unix).getLast?.getD 0
  epoch : 0 ≤ es.lastBucketSec
  accounts : SlotRing.Accounts es.buckets
    (fun sec => UInt32.ofNat (standing (times.map Time.unix) sec))
    (latest (times.map Time.unix) - 59) es.lastBucketSec

theorem counted_new : Counted [] ExporterState.new where
  lastSeen := rfl
  cursor := rfl
  epoch := le_rfl
  accounts := SlotRing.accounts_empty _ _ _ fun _ _ _ => rfl

theorem Counted.observe {times : List Time} {es : ExporterState} {now : Time}
    (counted : Counted times es) (epoch : 0 ≤ now.unix)
    (near : latest (times.map Time.unix) - 59 ≤ now.unix) :
    ∃ next, es.observe now = some next ∧ Counted (times ++ [now]) next := by
  refine ⟨_, observe_eq counted.epoch epoch, ?_⟩
  have listed : (times ++ [now]).map Time.unix = times.map Time.unix ++ [now.unix] := by simp
  have rise : latest (times.map Time.unix) ≤ max (latest (times.map Time.unix)) now.unix :=
    le_max_left _ _
  have top : now.unix ≤ max (latest (times.map Time.unix)) now.unix := le_max_right _ _
  have lower : max (latest (times.map Time.unix)) now.unix - 59 ≤ now.unix := by
    have cases := max_cases (latest (times.map Time.unix)) now.unix
    omega
  refine ⟨by simp, by simp, epoch, ?_⟩
  rw [listed, latest_append]
  have moved : SlotRing.Accounts (SlotRing.advance es.buckets es.lastBucketSec now.unix)
      (fun sec => UInt32.ofNat (standing (times.map Time.unix) sec))
      (max (latest (times.map Time.unix)) now.unix - 59) now.unix :=
    SlotRing.accounts_advance counted.accounts
      (fun sec beyond => by rw [standing_beyond (counted.cursor ▸ beyond)]; rfl)
      (by omega) (by simp only [Nat.cast_ofNat]; omega)
  -- the counts of seconds after `now` are gone from both sides of the account
  have clipped : SlotRing.Accounts
      (SlotRing.advance es.buckets es.lastBucketSec now.unix)
      (fun sec => if sec ≤ now.unix then UInt32.ofNat (standing (times.map Time.unix) sec) else 0)
      (max (latest (times.map Time.unix)) now.unix - 59) now.unix := by
    intro sec from_ below
    dsimp only
    rw [if_pos below]
    exact moved sec from_ below
  refine SlotRing.accounts_deposit _ _ _ _ _ now.unix 1 (by simp only [Nat.cast_ofNat]; omega)
    clipped lower le_rfl ?_ ?_
  · rw [standing_append, if_pos le_rfl, if_pos rfl, if_pos le_rfl, UInt32.ofNat_add]
    rfl
  · intro other different
    rw [standing_append, if_neg different, add_zero]
    split <;> rfl

theorem ofNat_sum (counts : List Nat) :
    (counts.map UInt32.ofNat).sum = UInt32.ofNat counts.sum := by
  induction counts with
  | nil => rfl
  | cons count rest ih => rw [List.map_cons, List.sum_cons, List.sum_cons, ih, UInt32.ofNat_add]

theorem counted_of_near {times : List Time} (epoch : ∀ t ∈ times, 0 ≤ t.unix)
    (near : Near (times.map Time.unix)) :
    ∃ es, times.foldlM ExporterState.observe ExporterState.new = some es ∧ Counted times es := by
  induction times using List.reverseRecOn with
  | nil => exact ⟨_, rfl, counted_new⟩
  | append_singleton past now ih =>
      rw [List.map_append, List.map_singleton] at near
      obtain ⟨before, close⟩ := near_of_append near
      obtain ⟨es, reached, counted⟩ :=
        ih (fun t member => epoch t (List.mem_append_left _ member)) before
      obtain ⟨next, observed, more⟩ := counted.observe (epoch now (by simp)) close
      refine ⟨next, ?_, more⟩
      rw [List.foldlM_append, reached]
      simp only [Option.bind_eq_bind, Option.bind_some, List.foldlM_cons, List.foldlM_nil,
        observed]
      rfl

/-- With the cursor at the latest second the sum of the buckets is what stands in its minute. -/
theorem Counted.flows_eq {times : List Time} {es : ExporterState} (counted : Counted times es)
    (top : latest (times.map Time.unix) ≤ es.lastBucketSec) :
    es.flows = UInt32.ofNat ((List.range 60).map fun i : Nat =>
      standing (times.map Time.unix) (es.lastBucketSec - i)).sum := by
  have summed : es.flows = es.buckets.toList.sum := by
    rw [ExporterState.flows, ← Vector.foldl_toList, List.sum_eq_foldl]
  rw [summed, SlotRing.sum_eq_sum_read _ es.lastBucketSec, ← ofNat_sum, List.map_map]
  congr 1
  apply List.map_congr_left
  intro i member
  rw [List.mem_range] at member
  exact counted.accounts _ (by omega) (by omega)

theorem sum_count (secs : List Int) (top : Int) (n : Nat) :
    ((List.range n).map fun i : Nat => secs.count (top - i)).sum =
      secs.countP fun sec => decide (top - n < sec ∧ sec ≤ top) := by
  induction secs with
  | nil => simp
  | cons sec rest ih =>
      have once : ((List.range n).map fun i : Nat => if sec = top - i then 1 else 0).sum =
          if top - n < sec ∧ sec ≤ top then 1 else 0 := by
        clear ih
        induction n with
        | zero =>
            rw [if_neg (by omega)]
            rfl
        | succ n shorter =>
            rw [List.range_succ, List.map_append, List.sum_append, shorter, List.map_singleton,
              List.sum_singleton]
            split <;> split <;> split <;> omega
      simp only [List.count_cons, beq_iff_eq, List.countP_cons, decide_eq_true_eq]
      rw [List.sum_map_add, ih, once]

end Mitigador.Ingest
