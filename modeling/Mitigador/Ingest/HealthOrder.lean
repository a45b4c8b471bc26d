import Mitigador.Ingest.HealthWindow

/-! Two orders of the same observations of an exporter, all within one minute. A late observation
moves the cursor back, and the next one clears what lies between. -/

namespace Mitigador.Ingest

open Go Lib

/-- The observations that one of an earlier second follows. -/
def overtaken : List Int → Nat
  | [] => 0
  | sec :: later => overtaken later + if ∃ other ∈ later, other < sec then 1 else 0

theorem standing_cons (sec other : Int) (later : List Int) :
    standing (other :: later) sec = standing later sec +
      if other = sec ∧ ¬ ∃ third ∈ later, third < other then 1 else 0 := by
  unfold standing
  rw [List.rtakeWhile, List.reverse_cons, List.takeWhile_append, List.rtakeWhile]
  by_cases all : ∀ third ∈ later, sec ≤ third
  · have whole : later.reverse.takeWhile (fun third => decide (sec ≤ third)) = later.reverse := by
      rw [List.takeWhile_eq_self_iff]
      intro third member
      simpa using all third (List.mem_reverse.mp member)
    rw [whole, if_pos rfl]
    by_cases same : other = sec
    · subst same
      have none : ¬ ∃ third ∈ later, third < other := fun ⟨third, member, earlier⟩ =>
        absurd (all third member) (not_le.mpr earlier)
      rw [if_pos ⟨rfl, none⟩]
      simp
    · rw [if_neg fun both => same both.1]
      by_cases reached : sec ≤ other
      · simp [reached, same]
      · simp [reached]
  · have some : ¬ (other = sec ∧ ¬ ∃ third ∈ later, third < other) := by
      rintro ⟨rfl, none⟩
      exact all fun third member => not_lt.mp fun earlier => none ⟨third, member, earlier⟩
    rw [if_neg, if_neg some, add_zero]
    intro full
    have same := (List.takeWhile_prefix _).eq_of_length full
    rw [List.takeWhile_eq_self_iff] at same
    exact all fun third member => by simpa using same third (List.mem_reverse.mpr member)

theorem sum_standing {secs : List Int} {top : Int}
    (minute : ∀ sec ∈ secs, top - 60 < sec ∧ sec ≤ top) :
    ((List.range 60).map fun i : Nat => standing secs (top - i)).sum + overtaken secs =
      secs.length := by
  induction secs with
  | nil => simp [standing, overtaken]
  | cons sec later ih =>
      have once := sum_count [sec] top 60
      have inside : top - (60 : Nat) < sec ∧ sec ≤ top := minute sec List.mem_cons_self
      simp only [List.count_singleton, beq_iff_eq, List.countP_singleton, inside, and_self,
        decide_true, if_true] at once
      have rest := ih fun other member => minute other (List.mem_cons_of_mem _ member)
      simp only [standing_cons]
      rw [List.sum_map_add, overtaken, List.length_cons]
      by_cases late : ∃ other ∈ later, other < sec
      · have gone : ((List.range 60).map fun _ : Nat => 0).sum = 0 := by simp
        simp only [late, not_true_eq_false, and_false, if_false, if_true, gone]
        omega
      · simp only [late, not_false_eq_true, and_true, if_false, once]
        omega

def Newest (times : List Time) (t : Time) : Prop :=
  (times ≠ [] → t ∈ times) ∧ ∀ u ∈ times, u.ns ≤ t.ns

/-- The last observation is the newest, and none is overtaken (or a multiple of 2^32 of them). -/
def InTime (times : List Time) : Prop :=
  Newest times (times.getLast?.getD Time.zero) ∧ 2 ^ 32 ∣ overtaken (times.map Time.unix)

/-- Two rows of an exporter show the newest time, one status and one rate, which counts all. -/
structure SameHealth (times : List Time) (a b : ExporterHealth) : Prop where
  newest : Newest times a.lastSeen
  lastSeen : b.lastSeen = a.lastSeen
  status : b.status = a.status
  flows : b.flows = a.flows
  complete : a.flows.toNat = times.length % 2 ^ 32

theorem newest_unique {times : List Time} {t u : Time} (some : times ≠ []) (first : Newest times t)
    (second : Newest times u) : t = u := by
  have ns : t.ns = u.ns :=
    (second.2 t (first.1 some)).antisymm (first.2 u (second.1 some))
  cases t
  cases u
  exact congrArg Time.mk ns

theorem newest_perm {times other : List Time} (perm : times.Perm other) {t : Time} :
    Newest times t ↔ Newest other t := by
  simp only [Newest, perm.mem_iff, ne_eq, ← List.length_eq_zero_iff, perm.length_eq]

section Minute

variable {times : List Time} {low : Int} (epoch : ∀ t ∈ times, 0 ≤ t.unix)
  (minute : ∀ t ∈ times, low ≤ t.unix ∧ t.unix < low + 60)

include epoch minute

theorem near_of_minute : Near (times.map Time.unix) := by
  intro front sec back same
  have known : ∀ other ∈ times.map Time.unix, 0 ≤ other ∧ low ≤ other ∧ other < low + 60 := by
    intro other member
    obtain ⟨t, listed, rfl⟩ := List.mem_map.mp member
    exact ⟨epoch t listed, minute t listed⟩
  have here := known sec (by rw [same]; simp)
  have upper : latest front ≤ low + 59 := by
    apply latest_le (by omega)
    intro other member
    have bound := known other (by rw [same]; simp [member])
    omega
  omega

theorem shown_of_minute :
    ∃ es, times.foldlM ExporterState.observe ExporterState.new = some es ∧
      es.lastSeen = times.getLast?.getD Time.zero ∧
      (Newest times (times.getLast?.getD Time.zero) → ∃ kept, es.flows = UInt32.ofNat kept ∧
        kept + overtaken (times.map Time.unix) = times.length) := by
  obtain ⟨es, reached, counted⟩ := counted_of_near epoch (near_of_minute epoch minute)
  refine ⟨es, reached, counted.lastSeen, fun newest => ?_⟩
  have bounds : ∀ sec ∈ times.map Time.unix,
      es.lastBucketSec - 60 < sec ∧ sec ≤ es.lastBucketSec := by
    intro sec member
    obtain ⟨t, listed, rfl⟩ := List.mem_map.mp member
    cases times using List.reverseRecOn with
    | nil => contradiction
    | append_singleton past last =>
        rw [List.getLast?_concat, Option.getD_some] at newest
        rw [counted.cursor, List.map_append, List.map_singleton, List.getLast?_concat,
          Option.getD_some]
        have here := minute t listed
        have there := minute last (by simp)
        have below := unix_mono (newest.2 t listed)
        omega
  have top : latest (times.map Time.unix) ≤ es.lastBucketSec :=
    latest_le counted.epoch fun sec member => (bounds sec member).2
  refine ⟨_, counted.flows_eq top, ?_⟩
  rw [sum_standing bounds, List.length_map]

end Minute

theorem HealthTracker.row_lastSeen (h : HealthTracker) (exp : Exporter) (now : Time) :
    (h.row exp now).lastSeen = ((h.state.lookup exp.sourceIP).getD ExporterState.new).lastSeen := by
  unfold row
  split <;> next found => rw [found]; rfl

theorem HealthTracker.row_flows (h : HealthTracker) (exp : Exporter) (now : Time) :
    (h.row exp now).flows = ((h.state.lookup exp.sourceIP).getD ExporterState.new).flows := by
  unfold row
  split
  · next found =>
      have zero : ExporterState.new.flows = 0 := by decide +kernel
      rw [found]
      exact zero.symm
  · next found =>
      rw [found]
      rfl

theorem HealthTracker.row_status {h k : HealthTracker} {exp : Exporter}
    (known : (h.state.lookup exp.sourceIP).isSome = (k.state.lookup exp.sourceIP).isSome)
    {now : Time} (lastSeen : (k.row exp now).lastSeen = (h.row exp now).lastSeen) :
    (k.row exp now).status = (h.row exp now).status := by
  unfold row at lastSeen ⊢
  cases before : h.state.lookup exp.sourceIP with
  | none =>
      rw [before] at known
      have none : k.state.lookup exp.sourceIP = none := by simpa using known.symm
      rw [none]
  | some es =>
      rw [before] at known lastSeen
      obtain ⟨other, after⟩ := Option.isSome_iff_exists.mp known.symm
      rw [after] at lastSeen ⊢
      exact congrArg (fun seen => ExporterState.status ⟨seen, es.buckets, es.lastBucketSec⟩ now)
        lastSeen

theorem HealthTracker.row_of_minute {observations : List (Addr × Time)} {h : HealthTracker}
    {low : Int} (observed : HealthTracker.new.observeAll observations = some h) (exp : Exporter)
    (epoch : ∀ t ∈ timesOf exp.sourceIP observations, 0 ≤ t.unix)
    (minute : ∀ t ∈ timesOf exp.sourceIP observations, low ≤ t.unix ∧ t.unix < low + 60)
    (now : Time) :
    (h.row exp now).lastSeen = (timesOf exp.sourceIP observations).getLast?.getD Time.zero ∧
      (Newest (timesOf exp.sourceIP observations) (h.row exp now).lastSeen →
        ∃ kept, (h.row exp now).flows = UInt32.ofNat kept ∧
          kept + overtaken ((timesOf exp.sourceIP observations).map Time.unix) =
            (timesOf exp.sourceIP observations).length) := by
  obtain ⟨state, -⟩ := lookup_observeAll observed exp.sourceIP
  obtain ⟨es, reached, last, count⟩ := shown_of_minute epoch minute
  rw [state] at reached
  obtain rfl := Option.some.inj reached
  rw [row_lastSeen, row_flows, last]
  exact ⟨rfl, count⟩

theorem complete_iff {kept gone n : Nat} (all : kept + gone = n) :
    (UInt32.ofNat kept).toNat = n % 2 ^ 32 ↔ 2 ^ 32 ∣ gone := by
  rw [UInt32.toNat_ofNat']
  omega

/-- Two orders of the observations of an exporter, all within one minute: neither panics, and
whatever else is observed, any two snapshots taken then show the exporter, with the same health
exactly where both orders are in time. -/
theorem order_iff (first second : List (Addr × Time)) (ip : Addr) (low : Int)
    (epoch : ∀ observation ∈ first ++ second, 0 ≤ observation.2.unix)
    (same : (timesOf ip first).Perm (timesOf ip second))
    (minute : ∀ t ∈ timesOf ip first, low ≤ t.unix ∧ t.unix < low + 60) :
    ∃ h k, HealthTracker.new.observeAll first = some h ∧
      HealthTracker.new.observeAll second = some k ∧
      ∀ (parseAddr : String → Option Addr) (i : Inventory) (table : List ExporterRow)
        (exp : Exporter) (now : Time) (rows others : List ExporterHealth),
        (i.reload parseAddr (.ok table)).1.byIP.lookup ip = some exp →
        h.Snapshots (i.reload parseAddr (.ok table)).1 now rows →
        k.Snapshots (i.reload parseAddr (.ok table)).1 now others →
        ∃ a ∈ rows, ∃ b ∈ others, a.sourceIP = ip ∧ b.sourceIP = ip ∧
          (SameHealth (timesOf ip first) a b ↔
            InTime (timesOf ip first) ∧ InTime (timesOf ip second)) := by
  obtain ⟨h, observed⟩ := observeAll_total fun observation member =>
    epoch observation (List.mem_append_left _ member)
  obtain ⟨k, applied⟩ := observeAll_total fun observation member =>
    epoch observation (List.mem_append_right _ member)
  refine ⟨h, k, observed, applied, fun parseAddr i table exp now rows others found shown also => ?_⟩
  obtain rfl : exp.sourceIP = ip := (Inventory.filed_reload i table ip exp found).1
  refine ⟨h.row exp now, (shown.mem_iff _).mpr ⟨_, exp, found, rfl⟩, k.row exp now,
    (also.mem_iff _).mpr ⟨_, exp, found, rfl⟩, HealthTracker.sourceIP_row h exp now,
    HealthTracker.sourceIP_row k exp now, ?_⟩
  have positive : ∀ t ∈ timesOf exp.sourceIP first, 0 ≤ t.unix := by
    intro t member
    obtain ⟨observation, known, rfl⟩ := mem_timesOf member
    exact epoch observation (List.mem_append_left _ known)
  obtain ⟨lastA, countA⟩ := HealthTracker.row_of_minute observed exp positive minute now
  obtain ⟨lastB, countB⟩ := HealthTracker.row_of_minute applied exp
    (fun t member => positive t (same.mem_iff.mpr member))
    (fun t member => minute t (same.mem_iff.mpr member)) now
  have status : (k.row exp now).lastSeen = (h.row exp now).lastSeen →
      (k.row exp now).status = (h.row exp now).status := by
    apply HealthTracker.row_status
    have presentA := (lookup_observeAll observed exp.sourceIP).2
    have presentB := (lookup_observeAll applied exp.sourceIP).2
    rw [Bool.eq_iff_iff, presentA, presentB, ne_eq, ne_eq, ← List.length_eq_zero_iff,
      ← List.length_eq_zero_iff, same.length_eq]
  unfold InTime
  rw [← lastA, ← lastB]
  constructor
  · intro health
    have newest := health.newest
    have other : Newest (timesOf exp.sourceIP second) (k.row exp now).lastSeen := by
      rw [health.lastSeen]
      exact (newest_perm same).mp newest
    obtain ⟨kept, flowsA, all⟩ := countA newest
    obtain ⟨left, flowsB, rest⟩ := countB other
    refine ⟨⟨newest, (complete_iff all).mp (flowsA ▸ health.complete)⟩, other, ?_⟩
    rw [← complete_iff rest, ← flowsB, health.flows, health.complete, same.length_eq]
  · rintro ⟨⟨newest, multiple⟩, other, also⟩
    obtain ⟨kept, flowsA, all⟩ := countA newest
    obtain ⟨left, flowsB, rest⟩ := countB other
    have complete := (complete_iff all).mpr multiple
    have whole := (complete_iff rest).mpr also
    rw [← flowsA] at complete
    rw [← flowsB] at whole
    have seen : (k.row exp now).lastSeen = (h.row exp now).lastSeen := by
      by_cases some : timesOf exp.sourceIP first = []
      · have none : timesOf exp.sourceIP second = [] := List.nil_perm.mp (some ▸ same)
        rw [lastA, lastB, some, none]
      · exact newest_unique some ((newest_perm same).mpr other) newest
    exact ⟨newest, seen, status seen,
      UInt32.toNat_inj.mp (by rw [whole, complete, same.length_eq]), complete⟩

def sampleOrder : List (Addr × Time) :=
  [(.v4 0x0a000002, (Time.ofUnix 100).add 700), (.v4 0x0a000002, Time.ofUnix 100),
    (.v6 0xffff0a000002 "", Time.ofUnix 105)]

def sampleReordered : List (Addr × Time) :=
  [(.v4 0x0a000002, Time.ofUnix 100), (.v4 0x0a000002, (Time.ofUnix 100).add 700),
    (.v4 0x0a000002, Time.ofUnix 105)]

theorem order_iff_sample : ∃ rows others,
    snapshotRows sampleOrder (Time.ofUnix 106) = some rows ∧
      snapshotRows sampleReordered (Time.ofUnix 106) = some others ∧
      ∃ a ∈ rows, ∃ b ∈ others, a.sourceIP = .v4 0x0a000002 ∧ b.sourceIP = .v4 0x0a000002 ∧
        SameHealth (timesOf (.v4 0x0a000002) sampleOrder) a b := by
  have inTime : InTime (timesOf (.v4 0x0a000002) sampleOrder) ∧
      InTime (timesOf (.v4 0x0a000002) sampleReordered) := by
    unfold InTime Newest
    decide +kernel
  obtain ⟨h, k, observed, applied, snapshot⟩ := order_iff sampleOrder sampleReordered
    (.v4 0x0a000002) 100 (by decide) (by decide) (by decide)
  have listed : (sampleInventory.byIP.lookup (.v4 0x0a000002)).isSome = true := by decide +kernel
  obtain ⟨exp, found⟩ := Option.isSome_iff_exists.mp listed
  obtain ⟨a, member, b, also, own, other, health⟩ := snapshot parseSample (Inventory.mk ∅)
    [sampleRow] exp (Time.ofUnix 106) _ _ found (.refl _) (.refl _)
  refine ⟨_, _, ?_, ?_, a, member, b, also, own, other, health.mpr inTime⟩
  · rw [snapshotRows, observed]
    rfl
  · rw [snapshotRows, applied]
    rfl

/-- An observation of second 103 that comes after that of second 105: alone it turns the last time
seen back, and with one of second 106 to follow, the count of second 105 is erased. -/
theorem late_erases :
    (snapshotRows ([100, 105, 103].map fun sec => (.v4 0x0a000002, Time.ofUnix sec))
        (Time.ofUnix 110)).map (fun rows => rows.map fun row => (row.lastSeen, row.flows)) =
      some [(Time.ofUnix 103, 3)] ∧
    (snapshotRows ([100, 105, 103, 106].map fun sec => (.v4 0x0a000002, Time.ofUnix sec))
        (Time.ofUnix 110)).map (fun rows => rows.map fun row => (row.lastSeen, row.flows)) =
      some [(Time.ofUnix 106, 3)] ∧
    (snapshotRows ([100, 103, 105, 106].map fun sec => (.v4 0x0a000002, Time.ofUnix sec))
        (Time.ofUnix 110)).map (fun rows => rows.map fun row => (row.lastSeen, row.flows)) =
      some [(Time.ofUnix 106, 4)] := by
  refine ⟨?_, ?_, ?_⟩ <;> decide +kernel

end Mitigador.Ingest
