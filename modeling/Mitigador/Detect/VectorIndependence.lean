import Mitigador.Detect.Isolation
import Mitigador.Detect.LoadCatalog
import Mitigador.Detect.Retuning

/-! Two runs of one history under catalogs that differ in the row of one vector, compared at the
other vectors. The seconds that are classified are shared by the rules of a host, so the rule of
one vector can decide which ticks judge another one. -/

namespace Mitigador.Detect

open Go Mitigador.Flow Lib Aggregate

section Minute

variable {store : Store} {ip : Addr} {sec : Int}

/-- Behind a tick the last bucket of the whole minute is empty. -/
theorem snapshot_minute (store : Store) (ip : Addr) (sec : Int) :
    (store.tick sec).snapshot ip sec 60 =
      ((store.tick sec).snapshot ip sec 59).map fun buckets => buckets ++ [0] := by
  have whole : ∀ window : Int, 1 ≤ window → window ≤ 60 →
      (store.tick sec).snapshot ip sec window =
        ((store.tick sec).host ip).map fun hr => hr.snapshot sec window.toNat := by
    intro window low high
    have inside : ¬ window > ((windowSize : Nat) : Int) := not_lt.mpr high
    rw [Store.snapshot, if_neg (by omega), if_neg inside]
  rw [whole 60 (by decide) le_rfl, whole 59 (by decide) (by decide), Option.map_map,
    Store.host_tick]
  cases store.host ip with
  | none => rfl
  | some hr =>
      rw [Option.bind_some, HostRing.tick_eq]
      split
      · rfl
      · have oldest : SlotRing.slot windowSize (sec - (59 : Nat)) =
            SlotRing.slot windowSize (sec + 1) := by
          rw [SlotRing.slot_eq_iff]
          simp only [windowSize]
          omega
        have range : List.range (60 : Int).toNat = List.range (59 : Int).toNat ++ [59] := rfl
        simp only [Option.map_some, Function.comp_apply, HostRing.snapshot_eq_read, range,
          List.map_append, List.map_singleton, SlotRing.read_clear, oldest, if_true]

theorem classify_concat (buckets : List Bucket) : classify (buckets ++ [0]) = classify buckets := by
  have same : ∀ counter : Bucket → UInt64, counter 0 = 0 →
      sumOf counter (buckets ++ [0]) = sumOf counter buckets := by
    intro counter zero
    simp [sumOf, zero]
  simp only [classify, same Bucket.pps rfl, same Bucket.ppsUDP rfl, same Bucket.ppsICMP rfl]

theorem compare_concat {v : Vector} {t : Threshold} {current : Bucket} {older : List Bucket}
    (short : t.minWindowSec ≤ (current :: older).length) :
    compare v t current (older ++ [0]) = compare v t current older := by
  have widths : width t (current :: (older ++ [0])) = width t (current :: older) := by
    simp only [width, List.length_cons, List.length_append] at short ⊢
    rw [if_neg (by push_cast at short ⊢; omega), if_neg (by push_cast at short ⊢; omega)]
  have taken : (current :: (older ++ [0])).take (width t (current :: older)).toNat =
      (current :: older).take (width t (current :: older)).toNat := by
    rw [← List.cons_append, List.take_append_of_le_length]
    unfold width
    split <;> omega
  simp only [compare, widths, taken]

/-- Behind a tick two windows of one scope are judged alike for the rules that neither clips. -/
theorem judged_scope {v : Vector} {t : Threshold} {window other : Int} {j : Judgement}
    (scope : min window 59 = min other 59) (first : t.minWindowSec ≤ window)
    (second : t.minWindowSec ≤ other)
    (judged : ∃ current older, (store.tick sec).snapshot ip sec window = some (current :: older) ∧
      classify (current :: older) = some v ∧ compare v t current older = some j) :
    ∃ current older, (store.tick sec).snapshot ip sec other = some (current :: older) ∧
      classify (current :: older) = some v ∧ compare v t current older = some j := by
  obtain ⟨current, older, reported, classified, compared⟩ := judged
  have clip : ∀ window : Int, (store.tick sec).snapshot ip sec window =
      (store.tick sec).snapshot ip sec (min window 60) :=
    fun window => (Store.snapshot_min _ _ _ _).symm
  rw [clip] at reported
  by_cases equal : min window 60 = min other 60
  · rw [clip, ← equal]
    exact ⟨current, older, reported, classified, compared⟩
  · by_cases narrow : min window 60 = 59
    · have wide : min other 60 = 60 := by omega
      rw [narrow] at reported
      have length := Store.snapshot_length reported
      simp only [windowSize] at length
      refine ⟨current, older ++ [0], ?_, ?_, ?_⟩
      · rw [clip, wide, snapshot_minute, reported]
        rfl
      · rw [← List.cons_append, classify_concat, classified]
      · rw [compare_concat (by omega), compared]
    · have wide : min window 60 = 60 := by omega
      have less : min other 60 = 59 := by omega
      rw [wide, snapshot_minute] at reported
      obtain ⟨buckets, shorter, extended⟩ := Option.map_eq_some_iff.mp reported
      have length := Store.snapshot_length shorter
      simp only [windowSize] at length
      cases buckets with
      | nil => simp at length
      | cons head tail =>
          rw [List.cons_append, List.cons.injEq] at extended
          obtain ⟨rfl, rfl⟩ := extended
          rw [← List.cons_append, classify_concat] at classified
          rw [compare_concat (by omega)] at compared
          refine ⟨head, tail, ?_, classified, compared⟩
          rw [clip, less, shorter]

end Minute

theorem verdict_sameView {a b : Catalog} {ip : Addr} {v : Vector}
    (rule : a.lookupByVector ip v = b.lookupByVector ip v) (view : SameView a b ip v)
    (store : Store) (sec : Int) :
    verdict (store.tick sec) a ⟨ip, v⟩ sec = verdict (store.tick sec) b ⟨ip, v⟩ sec := by
  have seen : ∀ {c d : Catalog} {j : Judgement}, c.lookupByVector ip v = d.lookupByVector ip v →
      ((c.lookupByVector ip v).isSome = true → c.scope ip = d.scope ip) →
        verdict (store.tick sec) c ⟨ip, v⟩ sec = some j →
          verdict (store.tick sec) d ⟨ip, v⟩ sec = some j := by
    intro c d j same scope judged
    obtain ⟨decided, rfl⟩ := verdict_eq_some.mp judged
    obtain ⟨current, older, reported, classified, found, compared⟩ := judge_eq_some.mp decided
    have kept := same ▸ found
    have first := le_maxWindow (Catalog.lookupByVector_spec found).1
    have second := le_maxWindow (Catalog.lookupByVector_spec kept).1
    obtain ⟨current, older, reported, classified, compared⟩ :=
      judged_scope (scope (by rw [found]; rfl)) first second
        ⟨current, older, reported, classified, compared⟩
    exact verdict_eq_some.mpr
      ⟨judge_eq_some.mpr ⟨current, older, reported, classified, kept, compared⟩, rfl⟩
  apply Option.ext
  intro j
  refine ⟨seen rule view.scope, seen rule.symm ?_⟩
  rw [← view.ruled]
  exact fun ruled => (view.scope ruled).symm

/-- What the engine keeps for one vector of one host. -/
structure Lane where
  streak : Int
  entry : MachineEntry

def Lane.tick (k : Key) (now : Time) (lane : Lane) : Option Judgement → Lane × List AttackEvent
  | none => (lane, [])
  | some j =>
      let streak := if j.violating then lane.streak + 1 else 0
      match lane.entry.step blankULID () k (j.input now streak) j.threshold with
      | none => (lane, [])
      | some (entry, _, output) => (⟨streak, entry⟩, output.toList)

namespace Solo

def lane (v : Vector) (s : Solo) : Lane := ⟨s.streak v, s.entry v⟩

variable {h : Addr} {v : Vector} {now : Time}

theorem keyEvents_step {entry next : MachineEntry} {w : Vector} {i : Input} {t : Threshold}
    {rest : Unit} {output : Option AttackEvent}
    (stepped : entry.step blankULID () ⟨h, w⟩ i t = some (next, rest, output)) :
    keyEvents ⟨h, v⟩ output.toList = if w = v then output.toList else [] := by
  cases output with
  | none => exact (ite_self _).symm
  | some ev =>
      obtain ⟨host, vector⟩ := event_key (transition_of_step stepped)
      by_cases same : w = v
      · simp [keyEvents, host, vector, same]
      · simp [keyEvents, vector, same]

theorem lane_judged (s : Solo) (j : Judgement) :
    ((s.judged h now j).1.lane v, keyEvents ⟨h, v⟩ (s.judged h now j).2) =
      (s.lane v).tick ⟨h, v⟩ now (if j.vector = v then some j else none) := by
  by_cases same : j.vector = v
  · subst same
    rw [if_pos rfl]
    simp only [Lane.tick, lane, judged]
    cases stepped : (s.entry j.vector).step blankULID () ⟨h, j.vector⟩
        (j.input now (if j.violating then s.streak j.vector + 1 else 0)) j.threshold with
    | none => rfl
    | some moved =>
        obtain ⟨entry, rest, output⟩ := moved
        simp only [Function.update_self, keyEvents_step stepped, if_true]
  · rw [if_neg same]
    simp only [Lane.tick, judged]
    cases stepped : (s.entry j.vector).step blankULID () ⟨h, j.vector⟩
        (j.input now (if j.violating then s.streak j.vector + 1 else 0)) j.threshold with
    | none => rfl
    | some moved =>
        obtain ⟨entry, rest, output⟩ := moved
        simp only [lane, Function.update_of_ne (Ne.symm same), keyEvents_step stepped,
          if_neg same]

/-- At each vector a host is a lane driven by what is judged of the vector. -/
theorem lane_act (catalog : Catalog) (s : Solo) :
    ((s.act catalog h (.tick now)).1.lane v,
        keyEvents ⟨h, v⟩ (s.act catalog h (.tick now)).2) =
      (s.lane v).tick ⟨h, v⟩ now
        (verdict (s.store.tick now.unix) catalog ⟨h, v⟩ now.unix) := by
  simp only [act, verdict]
  cases decided : judge (s.store.tick now.unix) catalog h now.unix with
  | none => rfl
  | some outcome =>
      cases outcome with
      | none => rfl
      | some j => exact lane_judged { s with store := s.store.tick now.unix } j

theorem store_act (catalog : Catalog) (s : Solo) (call : Call) :
    (s.act catalog h call).1.store =
      match call with
      | .update sec r => s.store.update h sec r
      | .tick now => s.store.tick now.unix := by
  cases call with
  | update sec r => rfl
  | tick now =>
      simp only [act]
      split
      · simp only [judged]
        split <;> rfl
      · rfl

theorem after_congr {a b : Catalog}
    (alike : ∀ (store : Store) (sec : Int),
      verdict (store.tick sec) a ⟨h, v⟩ sec = verdict (store.tick sec) b ⟨h, v⟩ sec)
    (calls : List Call) :
    (after a h calls).1.store = (after b h calls).1.store ∧
      (after a h calls).1.lane v = (after b h calls).1.lane v ∧
      keyEvents ⟨h, v⟩ (after a h calls).2 = keyEvents ⟨h, v⟩ (after b h calls).2 := by
  induction calls with
  | nil => exact ⟨rfl, rfl, rfl⟩
  | cons call past ih =>
      obtain ⟨store, lane, events⟩ := ih
      simp only [after, keyEvents_append, store_act, store, events]
      cases call with
      | update sec r => exact ⟨trivial, lane, rfl⟩
      | tick now =>
          have first := @lane_act h v now a (after a h past).1
          have second := @lane_act h v now b (after b h past).1
          rw [lane, store, alike, ← second, Prod.mk.injEq] at first
          exact ⟨trivial, first.1, by rw [first.2]⟩

end Solo

variable {ρ : Type*} {newULID : ρ → Time → String × ρ}

theorem keyEvents_erase (k : Key) (events : List AttackEvent) :
    (keyEvents k events).map AttackEvent.erase = keyEvents k (events.map AttackEvent.erase) := by
  rw [keyEvents, keyEvents, List.filter_map]
  rfl

/-- Two runs with the same ticks and the same updates of a host, over catalogs that differ in the
row of one vector of one hostgroup: the events of another vector of the host are the same but for
their identifiers, if the host keeps a rule for that vector or has none, and the same seconds are
classified; and they are whenever the row is there in both catalogs with the same window. -/
theorem vector_independence {σ : Type*} {other : σ → Time → String × σ} {a b : Catalog}
    {hostgroupID : Int} {tuned v : Vector} (h : Addr) (retuned : Retuned hostgroupID tuned a b)
    (apart : v ≠ tuned) {defaultNumShards defaultOther numShards numOther : Int}
    {capacity capacityOther : Nat} {rnd : ρ} {rndOther : σ} {trace : Trace ρ}
    {traceOther : Trace σ} {final : Engine ρ} {finalOther : Engine σ}
    (run : Run (Engine.act newULID) (Engine.new (Store.new defaultNumShards numShards) a
      (Chan.make capacity) rnd) trace final)
    (runOther : Run (Engine.act other) (Engine.new (Store.new defaultOther numOther) b
      (Chan.make capacityOther) rndOther) traceOther finalOther)
    (same : callsFor h trace = callsFor h traceOther) :
    (SameView a b h v →
      (keyEvents ⟨h, v⟩ (eventsFor h trace)).map AttackEvent.erase =
        (keyEvents ⟨h, v⟩ (eventsFor h traceOther)).map AttackEvent.erase) ∧
      (SameWidth hostgroupID tuned a b → SameView a b h v) := by
  refine ⟨fun view => ?_, fun width => retuned.sameView width h v⟩
  have rule := retuned.rule_eq apart view.ruled
  obtain ⟨-, events⟩ := run_refines_solo h (alike_new h ..) rfl run
  obtain ⟨-, eventsOther⟩ := run_refines_solo h (alike_new h ..) rfl runOther
  rw [keyEvents_erase, keyEvents_erase, events, eventsOther, ← same]
  exact (Solo.after_congr (verdict_sameView rule view) (callsFor h trace)).2.2

def tunedRow (limit : UInt64) (window : Int) : Threshold :=
  { sampleThreshold limit 1 window 1 with vector := .icmpFlood }

def tunedCatalog (limit : UInt64) (window : Int) : Catalog where
  entries := [sampleThreshold 1 1 1 1, tunedRow limit window]
  sorted := List.pairwise_pair.mpr
    ((Threshold.less_eq_false_iff _ _).mpr (.inr ⟨rfl, le_rfl⟩))

theorem mem_tuned {limit : UInt64} {window : Int} {t : Threshold} :
    t ∈ (tunedCatalog limit window).entries ↔
      t = sampleThreshold 1 1 1 1 ∨ t = tunedRow limit window := by
  simp [tunedCatalog]

theorem tuned_retuned (limit other : UInt64) (window wider : Int) :
    Retuned 1 .icmpFlood (tunedCatalog limit window) (tunedCatalog other wider) where
  others v := by cases v <;> rfl
  hostgroup t first u second _ _ := by
    rcases mem_tuned.mp first with rfl | rfl <;> rcases mem_tuned.mp second with rfl | rfl <;>
      exact ⟨rfl, rfl⟩

theorem tuned_sameWidth (limit other : UInt64) (window : Int) :
    SameWidth 1 .icmpFlood (tunedCatalog limit window) (tunedCatalog other window) where
  first t member row := by
    rcases mem_tuned.mp member with rfl | rfl
    · contradiction
    · exact ⟨tunedRow other window, mem_tuned.mpr (.inr rfl), rfl, rfl⟩
  second t member row := by
    rcases mem_tuned.mp member with rfl | rfl
    · contradiction
    · exact ⟨tunedRow limit window, mem_tuned.mpr (.inr rfl), rfl, rfl⟩

def tunedEngine (limit : UInt64) (window : Int) : Engine Nat :=
  Engine.new (Store.new 1 1) (tunedCatalog limit window) (Chan.make 256) 0

def mixedActions : List Action :=
  [.update sampleHost 99 (sampleRecord protoICMP 7 700), sampleUpdate 100 7 700,
    sampleTick 100 100]

theorem vector_independence_sample : ∃ (trace other : Trace Nat) (final last : Engine Nat),
    Run (Engine.act countingULID) (tunedEngine 5 1) trace final ∧
      Run (Engine.act countingULID) (tunedEngine 9 1) other last ∧
      (eventsFor sampleHost trace).map AttackEvent.state = [.started] ∧
      (keyEvents sampleKey (eventsFor sampleHost trace)).map AttackEvent.erase =
        (keyEvents sampleKey (eventsFor sampleHost other)).map AttackEvent.erase := by
  have narrow : (Run.replay (Engine.act countingULID) [] (tunedEngine 5 1) mixedActions).map
      (fun made : Trace Nat × Engine Nat => (callsFor sampleHost made.1,
        (eventsFor sampleHost made.1).map AttackEvent.state)) =
      some ([.tick (Time.ofUnix 100), .update 100 (sampleRecord protoUDP 7 700),
        .update 99 (sampleRecord protoICMP 7 700)], [.started]) := by
    decide +kernel
  have raised : (Run.replay (Engine.act countingULID) [] (tunedEngine 9 1) mixedActions).map
      (fun made : Trace Nat × Engine Nat => callsFor sampleHost made.1) =
      some [.tick (Time.ofUnix 100), .update 100 (sampleRecord protoUDP 7 700),
        .update 99 (sampleRecord protoICMP 7 700)] := by
    decide +kernel
  obtain ⟨⟨trace, final⟩, replayed, observed⟩ := Option.map_eq_some_iff.mp narrow
  obtain ⟨⟨other, last⟩, again, calls⟩ := Option.map_eq_some_iff.mp raised
  rw [Prod.mk.injEq] at observed
  have run := Run.of_replay .start replayed
  have runOther := Run.of_replay .start again
  have apart : Vector.udpFlood ≠ .icmpFlood := by decide
  obtain ⟨independent, viewed⟩ := vector_independence sampleHost (tuned_retuned 5 9 1 1) apart
    run runOther (observed.1.trans calls.symm)
  exact ⟨trace, other, final, last, run, runOther, observed.2,
    independent (viewed (tuned_sameWidth 5 9 1))⟩

def providerRow : Threshold := scan provider ⟨1, .udpFlood, 1, 1, 1, 1⟩
def customerRow : Threshold := scan customer ⟨2, .icmpFlood, 1, 1, 1, 1⟩

def outerCatalog : Catalog := ⟨[providerRow], List.pairwise_singleton _ _⟩

def nestedCatalog : Catalog where
  entries := [customerRow, providerRow]
  sorted := List.pairwise_pair.mpr ((Threshold.less_eq_false_iff _ _).mpr (.inl (by decide)))

theorem nested_retuned : Retuned 2 .icmpFlood outerCatalog nestedCatalog where
  others v := by cases v <;> rfl
  hostgroup t first u second row _ := by
    obtain rfl := List.mem_singleton.mp first
    contradiction

/-- One run of actions under two catalogs, of which the first alone reports the flood. -/
def Silences (a b : Catalog) : Prop :=
  ∃ (trace other : Trace Nat) (final last : Engine Nat),
    Run (Engine.act countingULID) (Engine.new (Store.new 1 1) a (Chan.make 256) 0) trace final ∧
      Run (Engine.act countingULID) (Engine.new (Store.new 1 1) b (Chan.make 256) 0) other last ∧
      trace.map Entry.action = other.map Entry.action ∧
      (keyEvents sampleKey (eventsFor sampleHost trace)).map AttackEvent.state = [.started] ∧
      keyEvents sampleKey (eventsFor sampleHost other) = []

def mixedStates (catalog : Catalog) : Option (List State) :=
  (Run.replay (Engine.act countingULID) [] (Engine.new (Store.new 1 1) catalog (Chan.make 256) 0)
    mixedActions).map fun made : Trace Nat × Engine Nat =>
      (keyEvents sampleKey (eventsFor sampleHost made.1)).map AttackEvent.state

theorem silences_of_states {a b : Catalog} (started : mixedStates a = some [.started])
    (silent : mixedStates b = some []) : Silences a b := by
  obtain ⟨⟨trace, final⟩, replayed, first⟩ := Option.map_eq_some_iff.mp started
  obtain ⟨⟨other, last⟩, again, second⟩ := Option.map_eq_some_iff.mp silent
  refine ⟨trace, other, final, last, Run.of_replay .start replayed, Run.of_replay .start again, ?_,
    first, List.map_eq_nil_iff.mp second⟩
  rw [Run.actions_of_replay replayed, Run.actions_of_replay again]

/-- A wider window of the ICMP rule silences the UDP rule of its hostgroup, and an ICMP rule of a
smaller network that of the network around it. -/
theorem icmp_silences_udp :
    Retuned 1 .icmpFlood (tunedCatalog 5 1) (tunedCatalog 5 2) ∧
      Silences (tunedCatalog 5 1) (tunedCatalog 5 2) ∧
      Retuned 2 .icmpFlood outerCatalog nestedCatalog ∧ Silences outerCatalog nestedCatalog :=
  ⟨tuned_retuned .., silences_of_states (by decide +kernel) (by decide +kernel), nested_retuned,
    silences_of_states (by decide +kernel) (by decide +kernel)⟩

end Mitigador.Detect
