import Mitigador.Aggregate.Window
import Mitigador.Detect.Average
import Mitigador.Detect.Flicker

/-! Detecting a UDP flood. The newest bucket of a window is that of the tick's own second, of
which the writer may have counted nothing yet. -/

namespace Mitigador.Detect

open Go Mitigador.Flow Lib Aggregate

variable {ρ : Type*} {newULID : ρ → Time → String × ρ}

section Verdict

variable {defaultNumShards numShards : Int} {catalog : Catalog} {ip : Addr} {t : Threshold}
  {now : Int} {history : List Op}

/-- A window of UDP records only is classified as such, short of 2^63 packets in the minute. -/
theorem classify_window (timed : Timed ip now (.tick now :: history))
    (udp : ∀ sec r, Op.update ip sec r ∈ history → r.proto = protoUDP)
    (bounded : packetsIn (appliedIn history ip now 60) < 2 ^ 63) {n : Nat} (short : n ≤ 60)
    (busy : 0 < packetsIn (inWindow (.tick now :: history) ip now n)) :
    classify ((List.range n).map fun i : Nat =>
      totals (held (.tick now :: history) ip (now - i))) = some .udpFlood := by
  have below := calc
    packetsIn (inWindow (.tick now :: history) ip now n)
      ≤ packetsIn (appliedIn history ip now 60) :=
        packetsIn_mono (inWindow_le_appliedIn timed short)
    _ < 2 ^ 63 := bounded
  have counted : ∀ counter : Bucket → UInt64, counter 0 = 0 →
      (∀ b o, counter (b + o) = counter b + counter o) →
      sumOf counter ((List.range n).map fun i : Nat =>
        totals (held (.tick now :: history) ip (now - i))) =
      counter (totals (inWindow (.tick now :: history) ip now n)) := by
    intro counter zero additive
    rw [inWindow, ← sumOf_totals counter zero additive, List.map_map]
    rfl
  have all : (totals (inWindow (.tick now :: history) ip now n)).ppsUDP =
      (totals (inWindow (.tick now :: history) ip now n)).pps := by
    apply totals_udp
    intro r member
    obtain ⟨sec, applied⟩ := mem_inWindow timed short member
    exact udp sec r applied
  have packets : (totals (inWindow (.tick now :: history) ip now n)).pps.toNat =
      packetsIn (inWindow (.tick now :: history) ip now n) := by
    rw [totals_pps]
    exact Nat.mod_eq_of_lt (by omega)
  have total := counted Bucket.pps rfl fun _ _ => rfl
  apply classify_udp
  · rw [counted Bucket.ppsUDP rfl fun _ _ => rfl, total, all]
  · rw [total]
    intro zero
    rw [zero] at packets
    have none : (0 : UInt64).toNat = 0 := rfl
    omega
  · rw [total, packets]
    exact below

theorem flooded_verdict (covered : catalog.lookupByVector ip .udpFlood = some t)
    (low : 1 ≤ t.minWindowSec) (high : t.minWindowSec ≤ 59)
    (timed : Timed ip now (.tick now :: history))
    (udp : ∀ sec r, Op.update ip sec r ∈ history → r.proto = protoUDP)
    (filled : t.minWindowSec.toNat * (t.pps.toNat + 1) ≤
      packetsIn (appliedIn history ip now t.minWindowSec.toNat))
    (bounded : packetsIn (appliedIn history ip now 60) < 2 ^ 63) :
    ∃ j, verdict ((Store.new defaultNumShards numShards).after (.tick now :: history)) catalog
      ⟨ip, .udpFlood⟩ now = some j ∧ j.violating = true ∧ j.threshold = t := by
  have fresh := Store.host_new defaultNumShards numShards
  have widest := le_maxWindow (Catalog.lookupByVector_spec covered).1
  have window : inWindow (.tick now :: history) ip now t.minWindowSec.toNat =
      appliedIn history ip now t.minWindowSec.toNat := inWindow_eq_appliedIn timed (by omega)
  have positive : 0 < t.minWindowSec.toNat * (t.pps.toNat + 1) := by
    apply Nat.mul_pos <;> omega
  rw [← window] at filled
  cases reported : ((Store.new defaultNumShards numShards).after (.tick now :: history)).snapshot
      ip now (maxWindow (catalog.lookup ip)) with
  | none =>
      have silent : appliedIn history ip now t.minWindowSec.toNat = 0 := by
        unfold appliedIn
        apply List.sum_eq_zero
        intro group listed
        obtain ⟨i, member, rfl⟩ := List.mem_map.mp listed
        rw [List.mem_range] at member
        exact silent_of_nil_snapshot timed fresh (by omega) reported _ (by omega) (by omega)
      rw [window, silent] at filled
      have none : packetsIn 0 = 0 := rfl
      omega
  | some buckets =>
      have shown := snapshot_after _ fresh _ ip now _ _ reported
      have length := Store.snapshot_length reported
      obtain ⟨current, older, rfl⟩ := List.exists_cons_of_ne_nil (l := buckets) (by
        rintro rfl
        simp only [List.length_nil, Nat.cast_zero, windowSize] at length
        omega)
      have wider : t.minWindowSec.toNat ≤
          (min (maxWindow (catalog.lookup ip)) windowSize).toNat := by
        simp only [windowSize]
        omega
      have classified : classify (current :: older) = some .udpFlood := by
        rw [shown]
        apply classify_window timed udp bounded (by simp only [windowSize]; omega)
        have more := packetsIn_mono (inWindow_mono (.tick now :: history) ip now wider)
        omega
      obtain ⟨j, compared⟩ := compare_total .udpFlood (by omega : 0 < t.minWindowSec)
        (by omega : (current :: older).length ≤ windowSize)
      obtain ⟨vector, rfl, -⟩ := compare_fields compared
      have judged : judge ((Store.new defaultNumShards numShards).after (.tick now :: history))
          catalog ip now = some (some j) := by
        apply judge_eq_some.mpr
        rw [vector]
        exact ⟨current, older, reported, classified, covered, compared⟩
      refine ⟨j, verdict_eq_some.mpr ⟨judged, vector⟩, ?_, rfl⟩
      rw [judged_exceeds _ judged (by omega)]
      left
      have spanned : seconds j.threshold = j.threshold.minWindowSec.toNat := by
        simp only [seconds, windowSize]
        omega
      have short : j.threshold.minWindowSec.toNat ≤ 60 := by omega
      have below := calc
        packetsIn (inWindow (.tick now :: history) ip now j.threshold.minWindowSec.toNat)
          ≤ packetsIn (appliedIn history ip now 60) :=
            packetsIn_mono (inWindow_le_appliedIn timed short)
        _ < 2 ^ 63 := bounded
      rw [spanned, Nat.mod_eq_of_lt (by omega), Nat.lt_iff_add_one_le,
        Nat.le_div_iff_mul_le (by omega), mul_comm]
      exact filled

end Verdict

/-- Every violating tick raises the streak, and nothing but a judged tick lowers it. -/
theorem violatingTicks_le_streak {store : Store} {catalog : Catalog} {out : Chan AttackEvent}
    {rnd : ρ} {k : Key} {trace : Trace ρ} {final : Engine ρ}
    (run : Run (Engine.act newULID) (Engine.new store catalog out rnd) trace final) :
    (violatingTicks k trace : Int) ≤ final.streak k := by
  induction run with
  | start => exact le_rfl
  | @step trace e next action events past acted ih =>
      cases action with
      | update | receive =>
          have frame := Engine.act_frame acted rfl k
          rw [frame.streak, violatingTicks, ticksOf_cons_other trace rfl]
          exact ih
      | tick now hosts =>
          have ticked := Engine.act_tick acted k
          generalize decided : verdict (e.store.tick now.unix) e.catalog k now.unix = outcome
            at ticked
          cases ticked with
          | skip frame =>
              have gap : violatingTicks k (⟨e, .tick now hosts, events⟩ :: trace) = 0 := by
                rw [violatingTicks, ticksOf_cons_tick trace rfl, streak_cons_neg]
                simp only [violated, decided]
              have nonneg : (0 : Int) ≤ violatingTicks k trace := Int.natCast_nonneg _
              rw [gap, frame.streak]
              exact nonneg.trans ih
          | judged j _ _ _ counted =>
              rw [violatingTicks_judged decided, counted]
              split
              · push_cast
                omega
              · simp

def Detected (k : Key) (a : Int) (trace : Trace ρ) : Prop :=
  ∃ entry ∈ trace, (∃ sec, entry.action.second = some sec ∧ a ≤ sec) ∧
    ∃ ev ∈ keyEvents k entry.output, ev.state = .started

theorem Detected.later {k : Key} {a : Int} {back : Trace ρ} (detected : Detected k a back)
    (front : Trace ρ) : Detected k a (front ++ back) := by
  obtain ⟨entry, member, facts⟩ := detected
  exact ⟨entry, List.mem_append_right front member, facts⟩

theorem idle_or_started {k : Key} {e next : Engine ρ} {now : Time} {hosts : List HostInfo}
    {events : List AttackEvent} (idle : (e.sm.entry k).state = .idle)
    (acted : e.act newULID (.tick now hosts) = some (next, events)) :
    (∃ ev ∈ keyEvents k events, ev.state = .started) ∨ (next.sm.entry k).state = .idle := by
  have ticked := Engine.act_tick acted k
  generalize verdict (e.store.tick now.unix) e.catalog k now.unix = decided at ticked
  cases ticked with
  | skip frame =>
      right
      rw [frame.entry]
      exact idle
  | judged j _ _ output _ moved produced =>
      rw [produced]
      generalize after : next.sm.entry k = new at moved ⊢
      generalize before : e.sm.entry k = old at moved idle
      cases moved with
      | wait => exact Or.inr idle
      | start => exact Or.inl ⟨_, List.mem_singleton_self _, rfl⟩
      | ease active | finish active | hold active | update active =>
          rw [active] at idle
          contradiction
      | cool cooldown | thaw cooldown =>
          rw [cooldown] at idle
          contradiction

theorem idle_or_detected {store : Store} {catalog : Catalog} {out : Chan AttackEvent} {rnd : ρ}
    {k : Key} {a : Int} {trace : Trace ρ} {final : Engine ρ}
    (run : Run (Engine.act newULID) (Engine.new store catalog out rnd) trace final)
    (consecutive : Consecutive (historyOf trace))
    (idle : ∀ entry ∈ trace, entry.action.second = some a →
      (entry.before.sm.entry k).state = .idle) :
    (lastTick (historyOf trace) = none → (final.sm.entry k).state = .idle) ∧
      ∀ last, lastTick (historyOf trace) = some last → a ≤ last →
        Detected k a trace ∨ (final.sm.entry k).state = .idle := by
  induction run with
  | start =>
      exact ⟨fun _ => by simp [Engine.new, Watch.new, StateMachine.entry, StateMachine.new, newEntry],
        fun _ impossible => by contradiction⟩
  | @step trace e next action events past acted ih =>
      have earlier := ih (consecutive_of_append [_] consecutive)
        fun entry member => idle entry (List.mem_cons_of_mem _ member)
      cases action with
      | update | receive =>
          have frame := Engine.act_frame acted rfl k
          rw [frame.entry]
          refine ⟨earlier.1, fun last latest reached => ?_⟩
          rcases earlier.2 last latest reached with detected | calm
          · exact Or.inl (detected.later [_])
          · exact Or.inr calm
      | tick now hosts =>
          refine ⟨fun impossible => by contradiction, ?_⟩
          intro last latest reached
          obtain rfl : now.unix = last := Option.some.inj latest
          have before : Detected k a trace ∨ (e.sm.entry k).state = .idle := by
            cases previous : lastTick (historyOf trace) with
            | none => exact Or.inr (earlier.1 previous)
            | some last =>
                have advanced := consecutive.1 last previous
                by_cases first : now.unix = a
                · right
                  exact idle _ List.mem_cons_self (by rw [← first]; rfl)
                · exact earlier.2 last previous (by omega)
          rcases before with detected | calm
          · exact Or.inl (detected.later [_])
          · rcases idle_or_started calm acted with started | calm
            · exact Or.inl ⟨_, List.mem_cons_self, ⟨_, rfl, reached⟩, started⟩
            · exact Or.inr calm

theorem started_of_streak {k : Key} {e next : Engine ρ} {now : Time} {hosts : List HostInfo}
    {events : List AttackEvent} {j : Judgement} (idle : (e.sm.entry k).state = .idle)
    (acted : e.act newULID (.tick now hosts) = some (next, events))
    (decided : verdict (e.store.tick now.unix) e.catalog k now.unix = some j)
    (violating : j.violating = true) (long : j.threshold.minWindowSec ≤ next.streak k) :
    ∃ ev ∈ keyEvents k events, ev.state = .started := by
  have ticked := Engine.act_tick acted k
  rw [decided] at ticked
  cases ticked with
  | judged _ _ _ output _ moved produced =>
      obtain ⟨ev, rfl, started⟩ := (started_iff moved).mpr ⟨idle, violating, long⟩
      rw [produced]
      exact ⟨ev, List.mem_singleton_self _, started⟩

/-- A run up to second `a + 2n` in which an idle host is flooded from second `a` on. -/
structure Flood (trace : Trace ρ) (final : Engine ρ) (ip : Addr) (t : Threshold) (a : Int) :
    Prop where
  covered : final.catalog.lookupByVector ip .udpFlood = some t
  window : 1 ≤ t.minWindowSec ∧ t.minWindowSec ≤ 59
  prompt : Prompt ip (a + 2 * t.minWindowSec) (historyOf trace)
  reached : lastTick (historyOf trace) = some (a + 2 * t.minWindowSec)
  ticked : ∃ entry ∈ trace, entry.action.second = some a
  idle : ∀ entry ∈ trace, entry.action.second = some a →
    (entry.before.sm.entry ⟨ip, .udpFlood⟩).state = .idle
  udp : ∀ sec r, Op.update ip sec r ∈ historyOf trace → r.proto = protoUDP
  full : ∀ sec, a ≤ sec → sec < a + 2 * t.minWindowSec →
    t.pps.toNat + 1 ≤ packetsIn (recordsAt (historyOf trace) ip sec)

/-- Each of `n` ticks from second `b` on finds enough packets already counted for its `n` most
recent seconds, and less than 2^63 in the minute. -/
def FilledFrom (trace : Trace ρ) (ip : Addr) (t : Threshold) (b : Int) : Prop :=
  ∀ front entry back sec, trace = front ++ entry :: back → entry.action.second = some sec →
    b ≤ sec → sec < b + t.minWindowSec →
      t.minWindowSec.toNat * (t.pps.toNat + 1) ≤
        packetsIn (appliedIn (historyOf back) ip sec t.minWindowSec.toNat) ∧
      packetsIn (appliedIn (historyOf back) ip sec 60) < 2 ^ 63

def Filled (trace : Trace ρ) (ip : Addr) (t : Threshold) (a : Int) : Prop :=
  ∃ b, a ≤ b ∧ b ≤ a + t.minWindowSec + 1 ∧ FilledFrom trace ip t b

section Flooded

variable {defaultNumShards numShards : Int} {catalog : Catalog} {out : Chan AttackEvent} {rnd : ρ}
  {ip : Addr} {t : Threshold} {a : Int} {trace : Trace ρ} {final : Engine ρ}

theorem Flood.violating (flood : Flood trace final ip t a)
    (run : Run (Engine.act newULID)
      (Engine.new (Store.new defaultNumShards numShards) catalog out rnd) trace final)
    {front back : Trace ρ} {e : Engine ρ} {now : Time} {hosts : List HostInfo}
    {events : List AttackEvent} (split : trace = front ++ ⟨e, .tick now hosts, events⟩ :: back)
    (filled : t.minWindowSec.toNat * (t.pps.toNat + 1) ≤
      packetsIn (appliedIn (historyOf back) ip now.unix t.minWindowSec.toNat))
    (bounded : packetsIn (appliedIn (historyOf back) ip now.unix 60) < 2 ^ 63) :
    ∃ j, verdict (e.store.tick now.unix) e.catalog ⟨ip, .udpFlood⟩ now.unix = some j ∧
      j.violating = true ∧ j.threshold = t := by
  subst split
  obtain ⟨past, -⟩ := run.cut
  have seen : historyOf (front ++ ⟨e, .tick now hosts, events⟩ :: back) =
      historyOf front ++ .tick now.unix :: historyOf back := by
    simp [historyOf, Action.op]
  have timed := timed_of_prompt flood.prompt
  rw [seen] at timed
  have store : e.store.tick now.unix = (Store.new defaultNumShards numShards).after
      (.tick now.unix :: historyOf back) := by
    rw [Engine.store_run past]
    rfl
  have covered : catalog.lookupByVector ip .udpFlood = some t := by
    have same := Engine.catalog_run run
    rw [← flood.covered, same]
    rfl
  have rows : e.catalog = catalog := Engine.catalog_run past
  rw [store, rows]
  refine flooded_verdict covered flood.window.1 flood.window.2 (timed_of_append timed) ?_ filled
    bounded
  intro sec r applied
  apply flood.udp sec r
  rw [seen]
  simp [applied]

theorem Flood.tick_at (flood : Flood trace final ip t a) (sec : Int) (low : a ≤ sec)
    (high : sec ≤ a + 2 * t.minWindowSec) :
    ∃ (front back : Trace ρ) (e : Engine ρ) (now : Time) (hosts : List HostInfo)
      (events : List AttackEvent), trace = front ++ ⟨e, .tick now hosts, events⟩ :: back ∧
      now.unix = sec ∧ ticksOf (⟨e, .tick now hosts, events⟩ :: back) =
        (ticksOf trace).drop (a + 2 * t.minWindowSec - sec).toNat := by
  have consecutive := (consecutive_of_timed (timed_of_prompt flood.prompt)).1
  obtain ⟨first, member, second⟩ := flood.ticked
  have listed : first ∈ ticksOf trace := by
    refine List.mem_filter.mpr ⟨member, ?_⟩
    cases action : first.action with
    | tick => rfl
    | update | receive => rw [action] at second; contradiction
  obtain ⟨i, place⟩ := List.mem_iff_getElem?.mp listed
  have reached := second_of_tick consecutive flood.reached place
  rw [second, Option.some.injEq] at reached
  obtain ⟨bound, -⟩ := List.getElem?_eq_some_iff.mp place
  have inside : (a + 2 * t.minWindowSec - sec).toNat < (ticksOf trace).length := by omega
  obtain ⟨⟨e, action, events⟩, found⟩ : ∃ entry,
      (ticksOf trace)[(a + 2 * t.minWindowSec - sec).toNat]? = some entry :=
    ⟨_, List.getElem?_eq_getElem inside⟩
  have seconds := second_of_tick consecutive flood.reached found
  obtain ⟨front, back, split, dropped⟩ := split_tick found
  cases action with
  | update | receive => contradiction
  | tick now hosts =>
      have same : now.unix = a + 2 * t.minWindowSec -
          ((a + 2 * t.minWindowSec - sec).toNat : Int) := Option.some.inj seconds
      exact ⟨front, back, e, now, hosts, events, split, by omega, dropped⟩

theorem Flood.streak_full (flood : Flood trace final ip t a)
    (run : Run (Engine.act newULID)
      (Engine.new (Store.new defaultNumShards numShards) catalog out rnd) trace final)
    {b : Int} (fromA : a ≤ b) (toEnd : b ≤ a + t.minWindowSec + 1)
    (each : FilledFrom trace ip t b) {back : Trace ρ}
    {entry : Entry (Engine ρ) Action (List AttackEvent)}
    (dropped : ticksOf (entry :: back) =
      (ticksOf trace).drop (a + 2 * t.minWindowSec - (b + t.minWindowSec - 1)).toNat) :
    t.minWindowSec.toNat ≤ violatingTicks ⟨ip, .udpFlood⟩ (entry :: back) := by
  unfold violatingTicks
  rw [le_streak_iff]
  intro i below
  obtain ⟨front, older, e, now, hosts, events, split, sec, rest⟩ :=
    flood.tick_at (b + t.minWindowSec - 1 - i) (by omega) (by omega)
  have filled := each front _ older now.unix split rfl (by omega) (by omega)
  obtain ⟨j, decided, hot, -⟩ := flood.violating run split filled.1 filled.2
  refine ⟨⟨e, .tick now hosts, events⟩, ?_, ?_⟩
  · have place := congrArg (fun ticks => ticks[0]?) rest
    rw [ticksOf_cons_tick older rfl] at place
    simp only [List.getElem?_cons_zero, List.getElem?_drop, Nat.add_zero] at place
    rw [dropped, List.getElem?_drop, place]
    congr 1
    omega
  · simp only [violated, decided]
    exact hot

/-- A flood whose windows are filled when the ticks look at them is detected. -/
theorem flood_detected
    (run : Run (Engine.act newULID)
      (Engine.new (Store.new defaultNumShards numShards) catalog out rnd) trace final)
    (flood : Flood trace final ip t a) (filled : Filled trace ip t a) :
    Detected ⟨ip, .udpFlood⟩ a trace := by
  obtain ⟨b, fromA, toEnd, each⟩ := filled
  obtain ⟨low, high⟩ := flood.window
  have consecutive := (consecutive_of_timed (timed_of_prompt flood.prompt)).1
  obtain ⟨front, back, e, now, hosts, events, split, sec, dropped⟩ :=
    flood.tick_at (b + t.minWindowSec - 1) (by omega) (by omega)
  have full := flood.streak_full run fromA toEnd each dropped
  have last := each front _ back now.unix split rfl (by omega) (by omega)
  obtain ⟨j, decided, hot, row⟩ := flood.violating run split last.1 last.2
  subst split
  obtain ⟨past, next, acted, upTo⟩ := run.cut
  have streak := violatingTicks_le_streak (k := ⟨ip, .udpFlood⟩) upTo
  have ordered := consecutive_of_append front consecutive
  have before := idle_or_detected past ordered.2 fun entry member =>
    flood.idle entry (by simp [member])
  have calm : Detected ⟨ip, .udpFlood⟩ a back ∨ (e.sm.entry ⟨ip, .udpFlood⟩).state = .idle := by
    cases previous : lastTick (historyOf back) with
    | none => exact Or.inr (before.1 previous)
    | some latest =>
        have advanced := ordered.1 latest previous
        by_cases first : now.unix = a
        · exact Or.inr (flood.idle ⟨e, .tick now hosts, events⟩ (by simp) (by rw [← first]; rfl))
        · exact before.2 latest previous (by omega)
  rcases calm with detected | idle
  · exact (detected.later [_]).later front
  · have started := started_of_streak idle acted decided hot (by rw [row]; omega)
    exact ⟨_, by simp, ⟨now.unix, rfl, by omega⟩, started⟩

end Flooded

def timelyActions : List Action :=
  [sampleUpdate 100 11 0, sampleTick 100 100, sampleUpdate 101 11 0, sampleTick 101 101,
    sampleTick 102 101]

def tardyActions : List Action :=
  [.tick (Time.ofUnix 100) [], sampleUpdate 100 11 0, sampleTick 101 100, sampleUpdate 101 11 0,
    sampleTick 102 101]

theorem flood_of_replay {trace : Trace Nat} {final : Engine Nat} {history : List Op}
    (seen : historyOf trace = history) (prompt : Prompt sampleHost 102 history)
    (reached : lastTick history = some 102)
    (covered : final.catalog.lookupByVector sampleHost .udpFlood =
      some (sampleThreshold 10 1000 1 1))
    (ticked : (trace.any fun entry => entry.action.second = some 100) = true)
    (idle : (trace.all fun entry => entry.action.second = some 100 →
      (entry.before.sm.entry sampleKey).state = .idle) = true)
    (udp : (history.all fun op => match op with
      | .update _ _ r => r.proto = protoUDP
      | .tick _ => true) = true)
    (full : 11 ≤ packetsIn (recordsAt history sampleHost 100) ∧
      11 ≤ packetsIn (recordsAt history sampleHost 101)) :
    Flood trace final sampleHost (sampleThreshold 10 1000 1 1) 100 where
  covered := covered
  window := by decide
  prompt := by rw [seen]; exact prompt
  reached := by rw [seen]; exact reached
  ticked := by simpa using ticked
  idle := by
    intro entry member second
    simp only [List.all_eq_true, decide_eq_true_eq] at idle
    exact idle entry member second
  udp := by
    intro sec r applied
    rw [seen] at applied
    simpa using List.all_eq_true.mp udp _ applied
  full := by
    intro sec low high
    have one : (sampleThreshold 10 1000 1 1).minWindowSec = 1 := rfl
    have cases : sec = 100 ∨ sec = 101 := by omega
    rw [seen]
    rcases cases with rfl | rfl
    · exact full.1
    · exact full.2

def sampleFlow : Record := sampleRecord protoUDP 11 0

theorem flood_detected_sample : ∃ (trace : Trace Nat) (final : Engine Nat),
    Flood trace final sampleHost (sampleThreshold 10 1000 1 1) 100 ∧
      Detected sampleKey 100 trace := by
  have executed : (Run.replay (Engine.act countingULID) []
      (sampleEngine (sampleThreshold 10 1000 1 1)) timelyActions).map
        (fun made => (historyOf made.1,
          made.2.catalog.lookupByVector sampleHost .udpFlood,
          made.1.any fun entry => entry.action.second = some 100,
          (made.1.all fun entry => entry.action.second = some 100 →
            (entry.before.sm.entry sampleKey).state = .idle) &&
          made.1.tails.all fun suffix => match suffix with
            | [] => true
            | entry :: back => entry.action.second = some 100 →
                1 * 11 ≤ packetsIn (appliedIn (historyOf back) sampleHost 100 1) ∧
                packetsIn (appliedIn (historyOf back) sampleHost 100 60) < 2 ^ 63)) =
      some ([.tick 102, .tick 101, .update sampleHost 101 sampleFlow, .tick 100,
        .update sampleHost 100 sampleFlow], some (sampleThreshold 10 1000 1 1), true, true) := by
    decide +kernel
  obtain ⟨⟨trace, final⟩, replayed, observed⟩ := Option.map_eq_some_iff.mp executed
  simp only [Prod.mk.injEq, Bool.and_eq_true] at observed
  obtain ⟨seen, covered, ticked, idle, filled⟩ := observed
  have flood := flood_of_replay seen (by decide) rfl covered ticked idle (by decide)
    (by decide +kernel)
  refine ⟨trace, final, flood, ?_⟩
  apply flood_detected (Run.of_replay .start replayed) flood
  refine ⟨100, le_rfl, by decide, ?_⟩
  intro front entry back sec split second low high
  have one : (sampleThreshold 10 1000 1 1).minWindowSec = 1 := rfl
  obtain rfl : sec = 100 := by omega
  have member : entry :: back ∈ trace.tails := by
    rw [List.mem_tails]
    exact ⟨front, split.symm⟩
  have checked := List.all_eq_true.mp filled _ member
  simp only [decide_eq_true_eq] at checked
  exact checked second

/-- A flood whose seconds are counted after their own ticks is not seen. -/
theorem tardy_flood_missed : ∃ (trace : Trace Nat) (final : Engine Nat),
    Run (Engine.act countingULID) (sampleEngine (sampleThreshold 10 1000 1 1)) trace final ∧
      Flood trace final sampleHost (sampleThreshold 10 1000 1 1) 100 ∧
      ¬ Detected sampleKey 100 trace ∧ (final.sm.entry sampleKey).state = .idle := by
  have executed : (Run.replay (Engine.act countingULID) []
      (sampleEngine (sampleThreshold 10 1000 1 1)) tardyActions).map
        (fun made => (historyOf made.1,
          made.2.catalog.lookupByVector sampleHost .udpFlood,
          made.1.any fun entry => entry.action.second = some 100,
          (made.1.all fun entry => entry.action.second = some 100 →
            (entry.before.sm.entry sampleKey).state = .idle) &&
          ((made.1.all fun entry => (keyEvents sampleKey entry.output).all fun ev =>
            ev.state ≠ .started) &&
          decide ((made.2.sm.entry sampleKey).state = .idle)))) =
      some ([.tick 102, .update sampleHost 101 sampleFlow, .tick 101,
        .update sampleHost 100 sampleFlow, .tick 100], some (sampleThreshold 10 1000 1 1),
        true, true) := by
    decide +kernel
  obtain ⟨⟨trace, final⟩, replayed, observed⟩ := Option.map_eq_some_iff.mp executed
  simp only [Prod.mk.injEq, Bool.and_eq_true, decide_eq_true_eq] at observed
  obtain ⟨seen, covered, ticked, idle, silent, calm⟩ := observed
  refine ⟨trace, final, Run.of_replay .start replayed,
    flood_of_replay seen (by decide) rfl covered ticked idle (by decide) (by decide +kernel), ?_,
    calm⟩
  rintro ⟨entry, member, -, ev, produced, started⟩
  have quiet := List.all_eq_true.mp (List.all_eq_true.mp silent entry member) ev produced
  simp only [decide_eq_true_eq] at quiet
  exact quiet started

end Mitigador.Detect
