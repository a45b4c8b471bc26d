import Mitigador.Detect.VectorIndependence

/-! Where two catalogs do not show a vector alike, some traffic tells them apart: a burst of the
other vector and then one of this vector, so far apart that the first one is classified under one
catalog only. -/

namespace Mitigador.Detect

open Go Mitigador.Flow Lib Aggregate

def Vector.proto : Vector → Proto
  | .udpFlood => protoUDP
  | .icmpFlood => protoICMP

def Vector.opposite : Vector → Vector
  | .udpFlood => .icmpFlood
  | .icmpFlood => .udpFlood

def burst (h : Addr) (v : Vector) (packets bytes : UInt64) : Record :=
  { sampleRecord v.proto packets bytes with dstIP := h }

/-- What a tick of the second `s` reads `i` seconds back, after a burst in the second 0 and one in
its own second. -/
def echo (s : Nat) (early late : Bucket) (i : Nat) : Bucket :=
  if i = 59 then 0 else if i = 0 then late else if i = s then early else 0

def Echoes (h : Addr) (s : Nat) (early late : Bucket) (store : Store) : Prop :=
  ∃ ring, store.host h = some ring ∧ ring.lastSec = s ∧ ∀ i : Nat, i < 60 →
    SlotRing.read (SlotRing.clear ring.buckets ((s : Int) + 1)) (s - i) = echo s early late i

theorem echoes_start (h : Addr) {s : Nat} (low : 1 ≤ s) (high : s ≤ 59) (first second : Record) :
    Echoes h s (Bucket.ofRecord first) (Bucket.ofRecord second)
      (((Store.new 1 1).update h 0 first).update h s second) := by
  refine ⟨(HostRing.new.update 0 first).update s second, ?_, ?_, ?_⟩
  · rw [Store.host_update, if_pos rfl, Store.host_update, if_pos rfl, Store.host_new]
    rfl
  · rw [HostRing.lastSec_update, HostRing.lastSec_update]
    simp only [HostRing.new]
    omega
  · intro i bound
    have cleared : SlotRing.slot windowSize ((s : Int) - i) =
        SlotRing.slot windowSize ((s : Int) + 1) ↔ i = 59 := by
      rw [SlotRing.slot_eq_iff]
      simp only [windowSize]
      omega
    have own : SlotRing.slot windowSize ((s : Int) - i) = SlotRing.slot windowSize s ↔ i = 0 := by
      rw [SlotRing.slot_eq_iff]
      simp only [windowSize]
      omega
    have early : SlotRing.slot windowSize ((s : Int) - i) = SlotRing.slot windowSize 0 ↔
        i = s := by
      rw [SlotRing.slot_eq_iff]
      simp only [windowSize]
      omega
    have fresh : SlotRing.read HostRing.new.buckets ((s : Int) - i) = 0 :=
      SlotRing.read_empty _
    simp only [SlotRing.read_clear, HostRing.buckets_update, SlotRing.read_deposit, cleared, own,
      early, fresh, echo, zero_add]
    by_cases oldest : i = 59
    · rw [if_pos oldest, if_pos oldest]
    · rw [if_neg oldest, if_neg oldest]
      by_cases newest : i = 0
      · rw [if_pos newest, if_pos newest, if_neg (by omega), zero_add]
      · rw [if_neg newest, if_neg newest]

namespace Echoes

variable {h : Addr} {s : Nat} {early late : Bucket} {store : Store}

theorem tick (echoes : Echoes h s early late store) : Echoes h s early late (store.tick s) := by
  obtain ⟨ring, present, last, reads⟩ := echoes
  refine ⟨{ ring with buckets := SlotRing.clear ring.buckets ((s : Int) + 1) }, ?_, last, ?_⟩
  · rw [Store.host_tick, present, Option.bind_some, HostRing.tick_eq, if_neg]
    rw [last]
    simp [windowSize]
  · intro i bound
    rw [SlotRing.read_clear, reads i bound, ← reads i bound, SlotRing.read_clear]
    split <;> rfl

theorem snapshot (echoes : Echoes h s early late store) {window : Int} (low : 1 ≤ window) :
    ∃ current older, (store.tick s).snapshot h s window = some (current :: older) ∧
      (List.range (min window 60).toNat).map (echo s early late) = current :: older := by
  obtain ⟨ring, present, last, reads⟩ := echoes
  have ticked : (store.tick s).host h =
      some { ring with buckets := SlotRing.clear ring.buckets ((s : Int) + 1) } := by
    rw [Store.host_tick, present, Option.bind_some, HostRing.tick_eq, if_neg]
    rw [last]
    simp [windowSize]
  have clip : (store.tick s).snapshot h s window = (store.tick s).snapshot h s (min window 60) :=
    (Store.snapshot_min _ _ _ _).symm
  have inside : ¬ min window 60 > ((windowSize : Nat) : Int) := not_lt.mpr (min_le_right _ _)
  have reported : (store.tick s).snapshot h s window =
      some ((List.range (min window 60).toNat).map (echo s early late)) := by
    rw [clip, Store.snapshot, if_neg (by omega), if_neg inside, ticked, Option.map_some,
      HostRing.snapshot_eq_read]
    congr 1
    apply List.map_congr_left
    intro i member
    rw [List.mem_range] at member
    exact reads i (by omega)
  rw [reported]
  have nonempty : (List.range (min window 60).toNat).map (echo s early late) ≠ [] := by
    intro empty
    have length := congrArg List.length empty
    simp only [List.length_map, List.length_range, List.length_nil] at length
    omega
  obtain ⟨current, older, listed⟩ := List.exists_cons_of_ne_nil nonempty
  exact ⟨current, older, congrArg some listed, listed⟩

end Echoes

theorem sum_echo {counter : Bucket → UInt64} (zero : counter 0 = 0) {s n : Nat} (early late : Bucket)
    (after : 1 ≤ s) (low : 1 ≤ n) (high : n ≤ 60) :
    sumOf counter ((List.range n).map (echo s early late)) =
      counter late + if s < n ∧ s ≠ 59 then counter early else 0 := by
  induction n, low using Nat.le_induction with
  | base =>
      rw [if_neg (by omega)]
      simp [sumOf, echo]
  | succ n positive ih =>
      have split : sumOf counter ((List.range (n + 1)).map (echo s early late)) =
          sumOf counter ((List.range n).map (echo s early late)) +
            counter (echo s early late n) := by
        simp [sumOf, List.range_succ]
      rw [split, ih (by omega), add_assoc]
      congr 1
      by_cases here : n = s
      · subst here
        rw [if_neg (by omega), zero_add, echo]
        by_cases oldest : n = 59
        · rw [if_pos oldest, if_neg (by omega), zero]
        · rw [if_neg oldest, if_neg (by omega), if_pos rfl, if_pos ⟨by omega, oldest⟩]
      · have silent : echo s early late n = 0 := by
          by_cases oldest : n = 59
          · exact if_pos oldest
          · rw [echo, if_neg oldest, if_neg (by omega), if_neg here]
        rw [silent, zero, add_zero]
        by_cases reached : s < n ∧ s ≠ 59
        · rw [if_pos reached, if_pos (by omega)]
        · rw [if_neg reached, if_neg (by omega)]

structure Floods (t : Threshold) (packets bytes : UInt64) : Prop where
  many : packets ≠ 0
  small : packets.toNat < 2 ^ 63
  exceeds : Exceeds t (seconds t) packets.toNat bytes.toNat

theorem ofRecord_burst (h : Addr) (v : Vector) (packets bytes : UInt64) :
    Bucket.ofRecord (burst h v packets bytes) = match v with
      | .udpFlood => ⟨packets, bytes, packets, bytes, 0, 0, 0, 0⟩
      | .icmpFlood => ⟨packets, bytes, 0, 0, packets, bytes, 0, 0⟩ := by
  cases v with
  | udpFlood => ext1 <;> simp [Bucket.ofRecord, Bucket.merge, burst, sampleRecord, Vector.proto,
      Bucket.zero_def]
  | icmpFlood => ext1 <;> simp [Bucket.ofRecord, Bucket.merge, burst, sampleRecord, Vector.proto,
      Bucket.zero_def, protoUDP, protoICMP]

theorem classify_alone {h : Addr} {v : Vector} {packets bytes : UInt64} {buckets : List Bucket}
    (alone : ∀ counter : Bucket → UInt64, counter 0 = 0 →
      sumOf counter buckets = counter (Bucket.ofRecord (burst h v packets bytes)))
    (many : packets ≠ 0) (small : packets.toNat < 2 ^ 63) : classify buckets = some v := by
  have doubled : 2 * packets > packets := by
    have two : (2 : UInt64).toNat = 2 := rfl
    have positive : packets.toNat ≠ 0 := fun zero => many (UInt64.toNat_inj.mp zero)
    rw [gt_iff_lt, UInt64.lt_iff_toNat_lt, UInt64.toNat_mul, two]
    omega
  have nothing : ¬ 2 * (0 : UInt64) > packets := by
    rw [mul_zero, gt_iff_lt, UInt64.lt_iff_toNat_lt]
    exact Nat.not_lt_zero _
  cases v with
  | udpFlood =>
      simp only [classify, alone Bucket.pps rfl, alone Bucket.ppsUDP rfl, ofRecord_burst]
      rw [if_neg many, if_pos doubled]
  | icmpFlood =>
      simp only [classify, alone Bucket.pps rfl, alone Bucket.ppsUDP rfl, alone Bucket.ppsICMP rfl,
        ofRecord_burst]
      rw [if_neg many, if_neg nothing, if_pos doubled]

/-- Two bursts of one size leave no vector with more than half of the packets. -/
theorem classify_tied {h : Addr} {v : Vector} {packets bytes : UInt64} {buckets : List Bucket}
    (tied : ∀ counter : Bucket → UInt64, counter 0 = 0 →
      sumOf counter buckets = counter (Bucket.ofRecord (burst h v packets bytes)) +
        counter (Bucket.ofRecord (burst h v.opposite packets bytes))) :
    classify buckets = none := by
  have half : ¬ 2 * packets > packets + packets := by
    have two : (2 : UInt64).toNat = 2 := rfl
    rw [gt_iff_lt, UInt64.lt_iff_toNat_lt, UInt64.toNat_mul, UInt64.toNat_add, two]
    omega
  cases v with
  | udpFlood =>
      simp only [classify, tied Bucket.pps rfl, tied Bucket.ppsUDP rfl, tied Bucket.ppsICMP rfl,
        ofRecord_burst, Vector.opposite, add_zero, zero_add, if_neg half, ite_self]
  | icmpFlood =>
      simp only [classify, tied Bucket.pps rfl, tied Bucket.ppsUDP rfl, tied Bucket.ppsICMP rfl,
        ofRecord_burst, Vector.opposite, add_zero, zero_add, if_neg half, ite_self]

section Verdicts

variable {c : Catalog} {h : Addr} {v : Vector} {t : Threshold} {packets bytes : UInt64} {s : Nat}
  {store : Store}

def Bursts (h : Addr) (v : Vector) (packets bytes : UInt64) (s : Nat) (store : Store) : Prop :=
  Echoes h s (Bucket.ofRecord (burst h v.opposite packets bytes))
    (Bucket.ofRecord (burst h v packets bytes)) store

theorem verdict_alone (checked : c.Checked) (found : c.lookupByVector h v = some t)
    (floods : Floods t packets bytes) (scope : (s : Int) = c.scope h) (after : 1 ≤ s)
    (bursts : Bursts h v packets bytes s store) :
    ∃ j, verdict (store.tick s) c ⟨h, v⟩ s = some j ∧ j.violating = true ∧ j.threshold = t := by
  have positive := (lookup_checked checked found).1
  have widest := le_maxWindow (Catalog.lookupByVector_spec found).1
  obtain ⟨current, older, reported, listed⟩ := Echoes.snapshot bursts
    (show 1 ≤ maxWindow (c.lookup h) by omega)
  have visible : (s : Int) = min (maxWindow (c.lookup h)) 59 := scope
  have length := Store.snapshot_length reported
  have sums : ∀ n : Nat, 1 ≤ n → (n : Int) ≤ min (maxWindow (c.lookup h)) 60 →
      ∀ counter : Bucket → UInt64, counter 0 = 0 →
        sumOf counter ((current :: older).take n) =
          counter (Bucket.ofRecord (burst h v packets bytes)) := by
    intro n low high counter zero
    rw [← listed, ← List.map_take, List.take_range, min_eq_left (by omega),
      sum_echo zero _ _ after low (by omega), if_neg (by omega), add_zero]
  have whole : ∀ counter : Bucket → UInt64, counter 0 = 0 → sumOf counter (current :: older) =
      counter (Bucket.ofRecord (burst h v packets bytes)) := by
    intro counter zero
    rw [← sums (current :: older).length (by simp) length.le counter zero, List.take_length]
  have classified := classify_alone whole floods.many floods.small
  have short : (current :: older).length ≤ windowSize := by omega
  simp only [windowSize] at length
  obtain ⟨j, compared⟩ := compare_total v positive short
  obtain ⟨vector, threshold, -⟩ := compare_fields compared
  obtain ⟨low, high⟩ := width_bounds positive (List.cons_ne_nil current older)
  have narrow : (width t (current :: older)).toNat = seconds t := by
    simp only [width, seconds, windowSize]
    split <;> omega
  have averages := compare_averages low (by simp only [windowSize]; omega) compared
  have window : (seconds t : Int) ≤ min (maxWindow (c.lookup h)) 60 := by omega
  rw [narrow, sums (seconds t) (by omega) window Bucket.pps rfl,
    sums (seconds t) (by omega) window Bucket.bps rfl, Bucket.pps_ofRecord,
    Bucket.bps_ofRecord] at averages
  refine ⟨j, verdict_eq_some.mpr ⟨judge_eq_some.mpr ⟨current, older, reported, ?_, ?_, ?_⟩, vector⟩,
    ?_, threshold⟩
  · rw [vector, classified]
  · rw [vector, threshold, found]
  · rw [vector, threshold, compared]
  · rw [compare_violating compared, averages.1, averages.2]
    exact floods.exceeds

theorem verdict_tied (after : 1 ≤ s) (wide : (s : Int) < c.scope h)
    (bursts : Bursts h v packets bytes s store) : verdict (store.tick s) c ⟨h, v⟩ s = none := by
  cases decided : verdict (store.tick s) c ⟨h, v⟩ s with
  | none => rfl
  | some j =>
      obtain ⟨current, older, reported, classified, -, -⟩ :=
        judge_eq_some.mp (verdict_eq_some.mp decided).1
      have reaches : (s : Int) < min (maxWindow (c.lookup h)) 59 := wide
      obtain ⟨head, tail, shown, listed⟩ := Echoes.snapshot bursts
        (show 1 ≤ maxWindow (c.lookup h) by omega)
      rw [shown] at reported
      rw [← Option.some.inj reported, ← listed, classify_tied] at classified
      · contradiction
      · intro counter zero
        rw [sum_echo zero _ _ after (by omega) (by omega), if_pos (by omega)]

theorem verdict_unruled (unruled : c.lookupByVector h v = none) (store : Store) (sec : Int) :
    verdict store c ⟨h, v⟩ sec = none := by
  cases decided : verdict store c ⟨h, v⟩ sec with
  | none => rfl
  | some j =>
      obtain ⟨judged, rfl⟩ := verdict_eq_some.mp decided
      obtain ⟨_, _, -, -, found, -⟩ := judge_eq_some.mp judged
      rw [unruled] at found
      contradiction

end Verdicts

theorem lane_waits {k : Key} {now : Time} {j : Judgement} {counted : Int}
    (violating : j.violating = true) (early : counted + 1 < j.threshold.minWindowSec) :
    Lane.tick k now ⟨counted, newEntry⟩ (some j) = (⟨counted + 1, newEntry⟩, []) := by
  simp [Lane.tick, MachineEntry.step, newEntry, Judgement.input, violating, early]

theorem lane_starts {k : Key} {now : Time} {j : Judgement} {counted : Int}
    (violating : j.violating = true) (enough : ¬ counted + 1 < j.threshold.minWindowSec) :
    (Lane.tick k now ⟨counted, newEntry⟩ (some j)).2 ≠ [] := by
  simp [Lane.tick, MachineEntry.step, newEntry, Judgement.input, violating, enough]

def burstCalls (h : Addr) (v : Vector) (packets bytes : UInt64) (s ticks : Nat) : List Call :=
  List.replicate ticks (.tick (Time.ofUnix s)) ++
    [.update s (burst h v packets bytes), .update 0 (burst h v.opposite packets bytes)]

section Histories

variable {c : Catalog} {h : Addr} {v : Vector} {t : Threshold} {packets bytes : UInt64} {s : Nat}

theorem bursts_after (c : Catalog) (low : 1 ≤ s) (high : s ≤ 59) (ticks : Nat) :
    Bursts h v packets bytes s (Solo.after c h (burstCalls h v packets bytes s ticks)).1.store := by
  induction ticks with
  | zero => exact echoes_start h low high _ _
  | succ ticks ih =>
      have stored := Solo.store_act (h := h) c
        (Solo.after c h (burstCalls h v packets bytes s ticks)).1 (.tick (Time.ofUnix s))
      dsimp only at stored
      rw [Time.unix_ofUnix] at stored
      have ticked := Echoes.tick ih
      rw [← stored] at ticked
      exact ticked

theorem after_tick (c : Catalog) (ticks : Nat) :
    let past := Solo.after c h (burstCalls h v packets bytes s ticks)
    let next := Solo.after c h (burstCalls h v packets bytes s (ticks + 1))
    let ticked := (past.1.lane v).tick ⟨h, v⟩ (Time.ofUnix s)
      (verdict (past.1.store.tick s) c ⟨h, v⟩ s)
    next.1.lane v = ticked.1 ∧ keyEvents ⟨h, v⟩ next.2 = keyEvents ⟨h, v⟩ past.2 ++ ticked.2 := by
  intro past next ticked
  have moved := @Solo.lane_act h v (Time.ofUnix s) c past.1
  rw [Time.unix_ofUnix] at moved
  have grown : next = ((past.1.act c h (.tick (Time.ofUnix s))).1,
      past.2 ++ (past.1.act c h (.tick (Time.ofUnix s))).2) := rfl
  rw [Prod.mk.injEq] at moved
  rw [grown]
  exact ⟨moved.1, by rw [keyEvents_append, moved.2]⟩

theorem silent_after (low : 1 ≤ s) (high : s ≤ 59)
    (quiet : ∀ store, Bursts h v packets bytes s store →
      verdict (store.tick s) c ⟨h, v⟩ s = none) (ticks : Nat) :
    keyEvents ⟨h, v⟩ (Solo.after c h (burstCalls h v packets bytes s ticks)).2 = [] := by
  induction ticks with
  | zero => rfl
  | succ ticks ih =>
      rw [(after_tick c ticks).2, ih, quiet _ (bursts_after c low high ticks)]
      rfl

theorem counted_after (low : 1 ≤ s) (high : s ≤ 59)
    (judged : ∀ store, Bursts h v packets bytes s store → ∃ j,
      verdict (store.tick s) c ⟨h, v⟩ s = some j ∧ j.violating = true ∧ j.threshold = t)
    (ticks : Nat) (early : (ticks : Int) < t.minWindowSec) :
    (Solo.after c h (burstCalls h v packets bytes s ticks)).1.lane v = ⟨ticks, newEntry⟩ := by
  induction ticks with
  | zero => rfl
  | succ ticks ih =>
      obtain ⟨j, decided, violating, rule⟩ := judged _ (bursts_after c low high ticks)
      rw [(after_tick c ticks).1, ih (by omega), decided, lane_waits violating]
      · rfl
      · rw [rule]
        exact early

theorem started_after (low : 1 ≤ s) (high : s ≤ 59) (positive : 0 < t.minWindowSec)
    (judged : ∀ store, Bursts h v packets bytes s store → ∃ j,
      verdict (store.tick s) c ⟨h, v⟩ s = some j ∧ j.violating = true ∧ j.threshold = t) :
    keyEvents ⟨h, v⟩
      (Solo.after c h (burstCalls h v packets bytes s t.minWindowSec.toNat)).2 ≠ [] := by
  obtain ⟨ticks, last⟩ := Nat.exists_eq_succ_of_ne_zero
    (show t.minWindowSec.toNat ≠ 0 by omega)
  obtain ⟨j, decided, violating, rule⟩ := judged _ (bursts_after c low high ticks)
  rw [last, (after_tick c ticks).2, counted_after low high judged ticks (by omega), decided]
  intro empty
  refine lane_starts violating ?_ (List.append_eq_nil_iff.mp empty).2
  rw [rule]
  omega

end Histories

def Reachable (t : Threshold) : Prop := ∃ packets bytes, Floods t packets bytes

/-- A limit of packets is reachable unless a counter of the window would overflow. -/
theorem reachable_of_pps {t : Threshold} (positive : 0 < t.minWindowSec)
    (room : (t.pps.toNat + 1) * seconds t < 2 ^ 63) : Reachable t := by
  have low : 0 < seconds t := by
    simp only [seconds, windowSize]
    omega
  have fits : (t.pps.toNat + 1) * seconds t < 2 ^ 64 := room.trans (by decide)
  have packets := UInt64.toNat_ofNat_of_lt' fits
  refine ⟨UInt64.ofNat ((t.pps.toNat + 1) * seconds t), 0, fun none => ?_, ?_, .inl ?_⟩
  · rw [none] at packets
    have some := Nat.mul_pos t.pps.toNat.succ_pos low
    rw [Nat.succ_eq_add_one, ← packets] at some
    exact absurd some (lt_irrefl 0)
  · rw [packets]
    exact room
  · rw [packets, Nat.mul_div_cancel _ low]
    exact Nat.lt_succ_self _

section Views

variable {a b c d : Catalog} {h : Addr} {v : Vector} {t : Threshold}

theorem scope_bounds (checked : c.Checked) (found : c.lookupByVector h v = some t) :
    1 ≤ c.scope h ∧ c.scope h ≤ 59 := by
  have positive := (lookup_checked checked found).1
  have widest := le_maxWindow (Catalog.lookupByVector_spec found).1
  simp only [Catalog.scope, windowSize]
  omega

theorem told_apart (checked : c.Checked) (found : c.lookupByVector h v = some t)
    (reachable : Reachable t)
    (quiet : ∀ (packets bytes : UInt64) (s : Nat) (store : Store), 1 ≤ s → (s : Int) = c.scope h →
      Bursts h v packets bytes s store → verdict (store.tick s) d ⟨h, v⟩ s = none) :
    ∃ calls, keyEvents ⟨h, v⟩ (Solo.after c h calls).2 ≠ [] ∧
      keyEvents ⟨h, v⟩ (Solo.after d h calls).2 = [] := by
  obtain ⟨packets, bytes, floods⟩ := reachable
  obtain ⟨low, high⟩ := scope_bounds checked found
  obtain ⟨s, scope⟩ := Int.eq_ofNat_of_zero_le (zero_le_one.trans low)
  have after : 1 ≤ s := by omega
  refine ⟨burstCalls h v packets bytes s t.minWindowSec.toNat, ?_, ?_⟩
  · exact started_after after (by omega) (lookup_checked checked found).1 fun store bursts =>
      verdict_alone checked found floods scope.symm after bursts
  · exact silent_after after (by omega) (fun store bursts =>
      quiet packets bytes s store after scope.symm bursts) _

theorem ruled_of_reported (checked : c.Checked) (found : c.lookupByVector h v = some t)
    (reachable : Reachable t)
    (reported : ∀ calls, keyEvents ⟨h, v⟩ (Solo.after c h calls).2 ≠ [] →
      keyEvents ⟨h, v⟩ (Solo.after d h calls).2 ≠ []) : (d.lookupByVector h v).isSome = true := by
  cases other : d.lookupByVector h v with
  | some _ => rfl
  | none =>
      obtain ⟨calls, loud, silent⟩ := told_apart checked found reachable
        fun _ _ s store _ _ _ => verdict_unruled other (store.tick s) s
      exact absurd silent (reported calls loud)

theorem scope_le_of_reported (checked : c.Checked) (found : c.lookupByVector h v = some t)
    (reachable : Reachable t)
    (reported : ∀ calls, keyEvents ⟨h, v⟩ (Solo.after c h calls).2 ≠ [] →
      keyEvents ⟨h, v⟩ (Solo.after d h calls).2 ≠ []) : d.scope h ≤ c.scope h := by
  by_contra! wide
  obtain ⟨calls, loud, silent⟩ := told_apart checked found reachable
    fun _ _ _ _ after scope bursts => verdict_tied after (scope ▸ wide) bursts
  exact reported calls loud silent

theorem sameView_of_events (checked : a.Checked) (checkedOther : b.Checked)
    (reachable : ∀ t, a.lookupByVector h v = some t → Reachable t)
    (reachableOther : ∀ t, b.lookupByVector h v = some t → Reachable t)
    (same : ∀ calls, keyEvents ⟨h, v⟩ (Solo.after a h calls).2 =
      keyEvents ⟨h, v⟩ (Solo.after b h calls).2) : SameView a b h v := by
  have forward : ∀ calls, keyEvents ⟨h, v⟩ (Solo.after a h calls).2 ≠ [] →
      keyEvents ⟨h, v⟩ (Solo.after b h calls).2 ≠ [] := fun calls loud => same calls ▸ loud
  have backward : ∀ calls, keyEvents ⟨h, v⟩ (Solo.after b h calls).2 ≠ [] →
      keyEvents ⟨h, v⟩ (Solo.after a h calls).2 ≠ [] := fun calls loud => same calls ▸ loud
  have ruled : (a.lookupByVector h v).isSome = (b.lookupByVector h v).isSome := by
    rw [Bool.eq_iff_iff]
    constructor
    · intro own
      obtain ⟨t, found⟩ := Option.isSome_iff_exists.mp own
      exact ruled_of_reported checked found (reachable t found) forward
    · intro own
      obtain ⟨t, found⟩ := Option.isSome_iff_exists.mp own
      exact ruled_of_reported checkedOther found (reachableOther t found) backward
  refine ⟨ruled, fun own => ?_⟩
  obtain ⟨t, found⟩ := Option.isSome_iff_exists.mp own
  obtain ⟨u, other⟩ := Option.isSome_iff_exists.mp (ruled ▸ own)
  exact (scope_le_of_reported checkedOther other (reachableOther u other) backward).antisymm
    (scope_le_of_reported checked found (reachable t found) forward)

end Views

section Runs

variable {ρ : Type*}

theorem Engine.run_of_calls (newULID : ρ → Time → String × ρ) {start : Engine ρ}
    (sound : start.Sound) (h : Addr) (calls : List Call) :
    ∃ trace final, Run (Engine.act newULID) start trace final ∧ callsFor h trace = calls ∧
      final.Sound := by
  induction calls with
  | nil => exact ⟨[], start, .start, rfl, sound⟩
  | cons call past ih =>
      obtain ⟨trace, e, run, seen, live⟩ := ih
      cases call with
      | update sec r =>
          have updated : e.act newULID (.update h sec r) =
              some ({ e with store := e.store.update h sec r }, []) := rfl
          have longer := Run.step run updated
          refine ⟨_, _, longer, ?_, Engine.sound_run longer sound⟩
          simp [callsFor, callOf, ← seen]
      | tick now =>
          obtain ⟨next, events, ticked, after⟩ := Engine.tick_total newULID live now
            (List.Perm.refl _)
          refine ⟨_, next, .step run ticked, ?_, after⟩
          simp [callsFor, callOf, ← seen]

theorem sameView_of_runs {newULID : ρ → Time → String × ρ} {a b : Catalog} {h : Addr}
    {v : Vector} (checked : a.Checked) (checkedOther : b.Checked)
    (reachable : ∀ t, a.lookupByVector h v = some t → Reachable t)
    (reachableOther : ∀ t, b.lookupByVector h v = some t → Reachable t) (store other : Int × Int)
    (capacity : Nat) (rnd : ρ)
    (same : ∀ (trace traceOther : Trace ρ) (final finalOther : Engine ρ),
      Run (Engine.act newULID) (Engine.new (Store.new store.1 store.2) a (Chan.make capacity) rnd)
        trace final →
      Run (Engine.act newULID) (Engine.new (Store.new other.1 other.2) b (Chan.make capacity) rnd)
        traceOther finalOther →
      callsFor h trace = callsFor h traceOther →
      (keyEvents ⟨h, v⟩ (eventsFor h trace)).map AttackEvent.erase =
        (keyEvents ⟨h, v⟩ (eventsFor h traceOther)).map AttackEvent.erase) : SameView a b h v := by
  refine sameView_of_events checked checkedOther reachable reachableOther fun calls => ?_
  obtain ⟨trace, final, run, seen, -⟩ := Engine.run_of_calls newULID
    (Engine.sound_new (Store.new store.1 store.2) checked capacity rnd) h calls
  obtain ⟨traceOther, finalOther, runOther, seenOther, -⟩ := Engine.run_of_calls newULID
    (Engine.sound_new (Store.new other.1 other.2) checkedOther capacity rnd) h calls
  obtain ⟨-, events⟩ := run_refines_solo h (alike_new h ..) rfl run
  obtain ⟨-, eventsOther⟩ := run_refines_solo h (alike_new h ..) rfl runOther
  have equal := same trace traceOther final finalOther run runOther (seen.trans seenOther.symm)
  rw [keyEvents_erase, keyEvents_erase, events, eventsOther] at equal
  change keyEvents _ (Solo.after a h (callsFor h trace)).2 =
    keyEvents _ (Solo.after b h (callsFor h traceOther)).2 at equal
  rw [seen, seenOther] at equal
  exact equal

end Runs

end Mitigador.Detect
