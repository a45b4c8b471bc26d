import Mitigador.Ingest.HealthCounts

/-! The rate of an exporter against the last minute before a snapshot. Buckets are cleared by later
observations alone, so the snapshot sums the minute before the last one of these. -/

namespace Mitigador.Ingest

open Go Lib

def countIn (low high : Int) (times : List Time) : Nat :=
  times.countP fun t => decide (low < t.unix ∧ t.unix ≤ high)

def lastSecond (times : List Time) : Int := (times.map Time.unix).getLast?.getD 0

/-- Of the minute before the last observation nothing has left the minute before the snapshot (or a
multiple of 2^32 observations has), and what remains fits a uint32. -/
def Fresh (times : List Time) (now : Time) : Prop :=
  2 ^ 32 ∣ countIn (lastSecond times - 60) (now.unix - 60) times ∧
    countIn (now.unix - 60) now.unix times < 2 ^ 32

theorem unix_mono {t u : Time} (order : t.ns ≤ u.ns) : t.unix ≤ u.unix := by
  simp only [Time.unix]
  have divided := Int.ediv_le_ediv (show (0 : Int) < second by decide) order
  omega

theorem countIn_split {low middle high : Int} (times : List Time) (first : low ≤ middle)
    (second : middle ≤ high) :
    countIn low high times = countIn low middle times + countIn middle high times := by
  unfold countIn
  induction times with
  | nil => rfl
  | cons t rest ih =>
      simp only [List.countP_cons, decide_eq_true_eq, ih]
      split <;> split <;> split <;> omega

section Ordered

variable {times : List Time}

theorem standing_of_sorted {secs : List Int} (sorted : secs.Pairwise (· ≤ ·)) (sec : Int) :
    standing secs sec = secs.count sec := by
  induction secs using List.reverseRecOn with
  | nil => rfl
  | append_singleton past last ih =>
      obtain ⟨before, -, below⟩ := List.pairwise_append.mp sorted
      rw [standing_append, List.count_append, ih before, List.count_singleton]
      by_cases reached : sec ≤ last
      · rw [if_pos reached]
        simp only [beq_iff_eq, @eq_comm _ last sec]
      · have absent : past.count sec = 0 := by
          rw [List.count_eq_zero]
          intro member
          exact reached (below sec member last (by simp))
        have apart : (last == sec) = false := by
          rw [beq_eq_false_iff_ne]
          rintro rfl
          exact reached le_rfl
        rw [if_neg reached, absent, apart]
        rfl

theorem latest_of_sorted {secs : List Int} (sorted : secs.Pairwise (· ≤ ·))
    (epoch : ∀ sec ∈ secs, 0 ≤ sec) : latest secs = secs.getLast?.getD 0 := by
  cases secs using List.reverseRecOn with
  | nil => rfl
  | append_singleton past last =>
      obtain ⟨-, -, below⟩ := List.pairwise_append.mp sorted
      have upper := latest_le (epoch last (by simp))
        fun sec member => below sec member last (by simp)
      rw [latest_append, max_eq_right upper, List.getLast?_concat, Option.getD_some]

theorem near_of_sorted {secs : List Int} (sorted : secs.Pairwise (· ≤ ·))
    (epoch : ∀ sec ∈ secs, 0 ≤ sec) : Near secs := by
  rintro front sec back rfl
  obtain ⟨-, -, below⟩ := List.pairwise_append.mp sorted
  have upper := latest_le (epoch sec (by simp))
    fun other member => below other member sec List.mem_cons_self
  omega

theorem secs_sorted (ordered : times.Pairwise fun earlier later => earlier.ns ≤ later.ns) :
    (times.map Time.unix).Pairwise (· ≤ ·) :=
  List.pairwise_map.mpr (ordered.imp unix_mono)

theorem flows_of_ordered (epoch : ∀ t ∈ times, 0 ≤ t.unix)
    (ordered : times.Pairwise fun earlier later => earlier.ns ≤ later.ns) :
    ∃ es, times.foldlM ExporterState.observe ExporterState.new = some es ∧ Counted times es ∧
      es.flows = UInt32.ofNat (countIn (lastSecond times - 60) (lastSecond times) times) := by
  have sorted := secs_sorted ordered
  have positive : ∀ sec ∈ times.map Time.unix, 0 ≤ sec := by
    intro sec member
    obtain ⟨t, known, rfl⟩ := List.mem_map.mp member
    exact epoch t known
  obtain ⟨es, reached, counted⟩ := counted_of_near epoch (near_of_sorted sorted positive)
  refine ⟨es, reached, counted, ?_⟩
  rw [counted.flows_eq (by rw [counted.cursor, latest_of_sorted sorted positive]), counted.cursor]
  simp only [standing_of_sorted sorted]
  rw [sum_count, List.countP_map]
  rfl

end Ordered

theorem flows_iff_fresh {times : List Time} {now : Time}
    (since : lastSecond times ≤ now.unix) (within : ∀ t ∈ times, t.unix ≤ lastSecond times) :
    (UInt32.ofNat (countIn (lastSecond times - 60) (lastSecond times) times)).toNat =
        countIn (now.unix - 60) now.unix times ↔ Fresh times now := by
  have whole : countIn (lastSecond times - 60) (lastSecond times) times =
      countIn (lastSecond times - 60) now.unix times := by
    unfold countIn
    apply List.countP_congr
    intro t member
    have upper := within t member
    simp only [decide_eq_true_eq]
    omega
  have parts : countIn (lastSecond times - 60) now.unix times =
      countIn (lastSecond times - 60) (now.unix - 60) times +
        countIn (now.unix - 60) now.unix times :=
    countIn_split times (by omega) (by omega)
  rw [whole, parts, UInt32.toNat_ofNat', Fresh]
  generalize countIn (lastSecond times - 60) (now.unix - 60) times = gone
  generalize countIn (now.unix - 60) now.unix times = current
  omega

theorem mem_timesOf {ip : Addr} {observations : List (Addr × Time)} {t : Time}
    (member : t ∈ timesOf ip observations) :
    ∃ observation ∈ observations, observation.2 = t := by
  obtain ⟨observation, kept, rfl⟩ := List.mem_map.mp member
  exact ⟨observation, (List.mem_filter.mp kept).1, rfl⟩

theorem lastSecond_bounds {times : List Time}
    (ordered : times.Pairwise fun earlier later => earlier.ns ≤ later.ns) :
    ∀ t ∈ times, t.unix ≤ lastSecond times := by
  cases times using List.reverseRecOn with
  | nil => simp
  | append_singleton past last =>
      obtain ⟨-, -, below⟩ := List.pairwise_append.mp ordered
      intro t member
      rw [lastSecond, List.map_append, List.map_singleton, List.getLast?_concat, Option.getD_some]
      rcases List.mem_append.mp member with before | here
      · exact unix_mono (below t before last (by simp))
      · rw [List.mem_singleton.mp here]

theorem lastSecond_le {times : List Time} {now : Time} (some : times ≠ [])
    (since : ∀ t ∈ times, t.ns ≤ now.ns) : lastSecond times ≤ now.unix := by
  cases times using List.reverseRecOn with
  | nil => contradiction
  | append_singleton past last =>
      rw [lastSecond, List.map_append, List.map_singleton, List.getLast?_concat, Option.getD_some]
      exact unix_mono (since last (by simp))

/-- Observations in the order of their times, for each exporter: none of them panics, and whenever a
snapshot is taken no earlier than the last of them, every exporter of the inventory has a row, whose
flows are its observations of the last 60 seconds exactly where it is fresh. -/
theorem rate_window_iff (observations : List (Addr × Time))
    (epoch : ∀ observation ∈ observations, 0 ≤ observation.2.unix)
    (ordered : ∀ ip, (timesOf ip observations).Pairwise fun earlier later => earlier.ns ≤ later.ns) :
    ∃ h, HealthTracker.new.observeAll observations = some h ∧
      ∀ (parseAddr : String → Option Addr) (i : Inventory) (table : List ExporterRow) (now : Time)
        (rows : List ExporterHealth),
        h.Snapshots (i.reload parseAddr (.ok table)).1 now rows →
        (∀ observation ∈ observations, observation.2.ns ≤ now.ns) →
        (∀ ip exp, (i.reload parseAddr (.ok table)).1.byIP.lookup ip = some exp →
          ∃ row ∈ rows, row.sourceIP = ip) ∧
        ∀ row ∈ rows, row.flows.toNat =
            countIn (now.unix - 60) now.unix (timesOf row.sourceIP observations) ↔
          Fresh (timesOf row.sourceIP observations) now := by
  obtain ⟨h, observed⟩ := observeAll_total epoch
  refine ⟨h, observed, fun parseAddr i table now rows shown since => ⟨?_, ?_⟩⟩
  · intro ip exp found
    refine ⟨h.row exp now, (shown.mem_iff _).mpr ⟨ip, exp, found, rfl⟩, ?_⟩
    rw [HealthTracker.sourceIP_row, (Inventory.filed_reload i table ip exp found).1]
  · intro row member
    obtain ⟨ip, exp, found, rfl⟩ := (shown.mem_iff row).mp member
    rw [HealthTracker.sourceIP_row]
    obtain ⟨state, present⟩ := lookup_observeAll observed exp.sourceIP
    have past : ∀ t ∈ timesOf exp.sourceIP observations, t.ns ≤ now.ns := by
      intro t member
      obtain ⟨observation, known, rfl⟩ := mem_timesOf member
      exact since observation known
    cases stored : h.state.lookup exp.sourceIP with
    | none =>
        have empty : timesOf exp.sourceIP observations = [] := by
          by_contra some
          rw [stored] at present
          exact absurd (present.mpr some) (by decide)
        have zero : (h.row exp now).flows = 0 := by
          rw [HealthTracker.row, stored]
        rw [zero, empty, Fresh]
        simp [countIn]
    | some es =>
        have some : timesOf exp.sourceIP observations ≠ [] := present.mp (by rw [stored]; rfl)
        have nonneg : ∀ t ∈ timesOf exp.sourceIP observations, 0 ≤ t.unix := by
          intro t member
          obtain ⟨observation, known, rfl⟩ := mem_timesOf member
          exact epoch observation known
        obtain ⟨known, reached, -, flows⟩ := flows_of_ordered nonneg (ordered exp.sourceIP)
        rw [state, stored] at reached
        obtain rfl := Option.some.inj reached
        have summed : (h.row exp now).flows = UInt32.ofNat (countIn
            (lastSecond (timesOf exp.sourceIP observations) - 60)
            (lastSecond (timesOf exp.sourceIP observations))
            (timesOf exp.sourceIP observations)) := by
          rw [HealthTracker.row, stored, ← flows]
          rfl
        rw [summed]
        exact flows_iff_fresh (lastSecond_le some past) (lastSecond_bounds (ordered exp.sourceIP))

def snapshotRows (observations : List (Addr × Time)) (now : Time) : Option (List ExporterHealth) :=
  (HealthTracker.new.observeAll observations).map fun h =>
    sampleInventory.byIP.entries.map fun entry => h.row entry.2 now

def sampleObservations : List (Addr × Time) :=
  [(.v4 0x0a000003, Time.ofUnix 95), (.v4 0x0a000002, Time.ofUnix 100),
    (.v6 0xffff0a000002 "", Time.ofUnix 130)]

theorem rate_window_iff_sample : ∃ rows,
    snapshotRows sampleObservations (Time.ofUnix 150) = some rows ∧
      rows.map ExporterHealth.flows = [2] ∧
      ∀ row ∈ rows, row.flows.toNat =
          countIn 90 150 (timesOf row.sourceIP sampleObservations) ↔
        Fresh (timesOf row.sourceIP sampleObservations) (Time.ofUnix 150) := by
  have ordered : ∀ ip, (timesOf ip sampleObservations).Pairwise
      fun earlier later => earlier.ns ≤ later.ns := by
    intro ip
    have whole : sampleObservations.Pairwise
        fun earlier later => earlier.2.ns ≤ later.2.ns := by decide
    exact List.pairwise_map.mpr (whole.filter _)
  have shown : (snapshotRows sampleObservations (Time.ofUnix 150)).map
      (fun rows => rows.map ExporterHealth.flows) = some [2] := by
    decide +kernel
  obtain ⟨rows, taken, flows⟩ := Option.map_eq_some_iff.mp shown
  obtain ⟨h, observed, snapshot⟩ := rate_window_iff sampleObservations (by decide) ordered
  refine ⟨rows, taken, flows, (snapshot parseSample (Inventory.mk ∅) [sampleRow]
    (Time.ofUnix 150) rows ?_ (by decide)).2⟩
  rw [snapshotRows, observed] at taken
  exact .of_eq (Option.some.inj taken).symm

/-- A minute after its only observation an exporter still shows it. -/
theorem rate_outlives_window :
    (snapshotRows [(.v4 0x0a000002, Time.ofUnix 100)] (Time.ofUnix 161)).map
        (fun rows => rows.map ExporterHealth.flows) = some [1] ∧
      countIn 101 161 (timesOf (.v4 0x0a000002) [(.v4 0x0a000002, Time.ofUnix 100)]) = 0 := by
  constructor
  · decide +kernel
  · decide

end Mitigador.Ingest
