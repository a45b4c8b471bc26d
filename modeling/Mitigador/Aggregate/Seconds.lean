import Mitigador.Aggregate.Views
import Mitigador.Aggregate.Window

/-! What the store on the machine's integers answers. With ticks between the epoch and the end of
the range it answers as the store over unbounded seconds does, so that the window is exact here
too. -/

namespace Mitigador.Aggregate.Machine

open Go Mitigador.Flow Lib

def HostInfo.ideal (info : HostInfo) : Aggregate.HostInfo := ⟨info.ip, info.lastSec.toInt⟩

theorem snapshot_ideal (hr : HostRing) {now : Int64} (kept : -2 ^ 63 + 59 ≤ now.toInt)
    {window : Nat} (short : window ≤ windowSize) :
    hr.snapshot now window = hr.ideal.snapshot now.toInt window := by
  rw [HostRing.snapshot, HostRing.snapshot_eq_read]
  apply List.map_congr_left
  intro i member
  have inside : i < windowSize := (List.mem_range.mp member).trans_le short
  have bound : i < 60 := inside
  exact slot_kept hr now inside (by omega)

section

variable {start : Aggregate.Store} {history : List Op}

theorem Hosts.snapshot_ideal (fresh : ∀ ip, start.host ip = none)
    (ranged : ∀ op ∈ history, op.InRange) (ip : Addr) {now : Int64}
    (kept : -2 ^ 63 + 59 ≤ now.toInt) (window : Int64) :
    (Hosts.after history).snapshot ip now window =
      (start.after (history.map Op.ideal)).snapshot ip now.toInt window.toInt := by
  have narrow : window < 1 ↔ window.toInt < 1 := Int64.lt_iff_toInt_lt
  have wide : window > 60 ↔ window.toInt > windowSize := Int64.lt_iff_toInt_lt
  unfold Hosts.snapshot Aggregate.Store.snapshot
  rw [← ideal_after start fresh ranged ip]
  by_cases empty : window < 1
  · rw [if_pos empty, if_pos (narrow.mp empty)]
  · rw [if_neg empty, if_neg (mt narrow.mpr empty), Option.map_map]
    have clipped : (if window > 60 then 60 else window : Int64).toInt =
        if window.toInt > windowSize then (windowSize : Int) else window.toInt := by
      by_cases long : window > 60
      · rw [if_pos long, if_pos (wide.mp long)]
        rfl
      · rw [if_neg long, if_neg (mt wide.mpr long)]
    simp only [clipped]
    congr 1
    funext hr
    apply Machine.snapshot_ideal hr kept
    split <;> omega

theorem recent_ideal {hr : HostRing} {now : Int64} (nonneg : 0 ≤ now.toInt)
    (started : 0 ≤ hr.lastSec.toInt) :
    hr.recent now = true ↔ now.toInt - hr.ideal.lastSec ≤ windowSize := by
  rw [HostRing.recent, decide_eq_true_iff, Int64.le_iff_toInt_le, toInt_age nonneg started]
  rfl

theorem activeHosts_nodup {hosts : Hosts} {visited : List Entry}
    (walked : visited.Perm hosts.entries) (now : Int64) :
    ((activeHosts now visited).map HostInfo.ip).Nodup := by
  have keys : (visited.map Sigma.fst).Nodup := (walked.map Sigma.fst).nodup_iff.mpr hosts.nodupKeys
  rw [activeHosts_eq, List.map_map]
  exact (List.filter_sublist.map Sigma.fst).nodup keys

theorem activeHosts_ideal (fresh : ∀ ip, start.host ip = none)
    (ranged : ∀ op ∈ history, op.InRange) {visited : List Entry}
    (walked : visited.Perm (Hosts.after history).entries) {now : Int64}
    (nonneg : 0 ≤ now.toInt) :
    ((activeHosts now visited).map HostInfo.ideal).Perm
      ((start.after (history.map Op.ideal)).activeHosts now.toInt) := by
  have distinct := activeHosts_nodup walked now
  have kept := ((start.after (history.map Op.ideal)).activeHosts_nodup now.toInt).of_map
  have same : (activeHosts now visited).map HostInfo.ip =
      ((activeHosts now visited).map HostInfo.ideal).map Aggregate.HostInfo.ip := by
    rw [List.map_map]
    rfl
  rw [same] at distinct
  rw [List.perm_ext_iff_of_nodup distinct.of_map kept]
  intro info
  rw [Store.mem_activeHosts, activeHosts_eq, List.map_map, List.mem_map]
  constructor
  · rintro ⟨entry, listed, rfl⟩
    have known := mem_active walked listed
    have young := (List.mem_filter.mp listed).2
    refine ⟨entry.2.ideal, ?_, rfl, (recent_ideal nonneg (lastSec_nonneg known)).mp young⟩
    rw [← ideal_after start fresh ranged, Function.comp_apply]
    exact congrArg (Option.map HostRing.ideal) known
  · rintro ⟨ring, present, last, young⟩
    rw [← ideal_after start fresh ranged] at present
    obtain ⟨hr, known, rfl⟩ := Option.map_eq_some_iff.mp present
    refine ⟨⟨info.ip, hr⟩, List.mem_filter.mpr ⟨?_, ?_⟩, ?_⟩
    · exact walked.mem_iff.mpr ((KeyedMap.mem_entries _ _ _).mpr known)
    · exact (recent_ideal nonneg (lastSec_nonneg known)).mpr young
    · exact Aggregate.HostInfo.mk.injEq .. |>.mpr ⟨rfl, last.symm⟩

end

section

variable {maxLen : Nat} {defaultNumShards numShards : Int64} {start s : Store} {history : List Op}

theorem snapshot_of_made (made : Store.new maxLen defaultNumShards numShards = some start)
    (ran : start.after history = some s) {ideal : Aggregate.Store}
    (fresh : ∀ ip, ideal.host ip = none) (ranged : ∀ op ∈ history, op.InRange) {ip : Addr}
    {now window : Int64} (kept : -2 ^ 63 + 59 ≤ now.toInt) {answer : Option (List Bucket)}
    (answered : s.snapshot ip now window = some answer) :
    answer = (ideal.after (history.map Op.ideal)).snapshot ip now.toInt window.toInt := by
  rw [← Hosts.snapshot_ideal fresh ranged ip kept window]
  exact (stands_after made ran).snapshot ip now window answer answered

/-- The sliding window over int64 seconds: between two ticks of a run that ticks every second the
buckets of the window are the sums of exactly the records applied with their seconds, and a nil
answer means that there were none. -/
theorem window_exact (made : Store.new maxLen defaultNumShards numShards = some start)
    (ran : start.after history = some s) (ranged : ∀ op ∈ history, op.InRange) {ip : Addr}
    {clock : Int} (timed : Timed ip clock (history.map Op.ideal)) {now window : Int64}
    (kept : -2 ^ 63 + 59 ≤ now.toInt) {answer : Option (List Bucket)}
    (answered : s.snapshot ip now window = some answer) :
    (∀ buckets, answer = some buckets →
      buckets.length = (min window.toInt windowSize).toNat ∧
        ∀ i : Nat, (i : Int) < min window.toInt windowSize →
          clock - 58 ≤ now.toInt - i → now.toInt - i ≤ clock + 1 →
            buckets[i]? = some (totals (recordsAt (history.map Op.ideal) ip (now.toInt - i)))) ∧
    (answer = none → 1 ≤ window.toInt → ∀ second, clock - 58 ≤ second → second ≤ clock + 1 →
      recordsAt (history.map Op.ideal) ip second = 0) := by
  have fresh := Aggregate.Store.host_new 1 1
  have reported := snapshot_of_made made ran fresh ranged kept answered
  constructor
  · rintro buckets rfl
    exact buckets_of_timed timed fresh reported.symm
  · rintro rfl positive second low high
    exact silent_of_nil_snapshot timed fresh positive reported.symm second low high

end

end Mitigador.Aggregate.Machine
