import Mitigador.Aggregate.Seconds
import Mitigador.Detect.EngineRun

/-! The detection loop over the store on the machine's own integers. As long as its ticks stay
between the epoch and the end of the range, its runs are runs of the loop over unbounded seconds,
and whatever holds of the events of those holds of its own. -/

namespace Mitigador.Detect

/-- Every window is an int. -/
def Catalog.Fits (catalog : Catalog) : Prop := ∀ t ∈ catalog.entries, t.minWindowSec < 2 ^ 63

namespace Seconds

open Go Mitigador.Flow Lib
open Aggregate.Machine

structure Engine (ρ : Type*) extends Watch ρ where
  store : Store

inductive Action
  | update (ip : Addr) (sec : Int64) (r : Record)
  | tick (now : Time) (hosts : List HostInfo)
  | receive

def second (now : Time) : Int64 := Int64.ofInt now.unix

def judge (store : Store) (catalog : Catalog) (ip : Addr) (sec : Int64) :
    Option (Option Judgement) :=
  let thresholds := catalog.lookup ip
  if thresholds.length = 0 then some none
  else (store.snapshot ip sec (Int64.ofInt (maxWindow thresholds))).bind (assess catalog ip)

namespace Engine

section

variable {ρ : Type*} (newULID : ρ → Time → String × ρ)

def evalHost (sec : Int64) (now : Time) (e : Engine ρ) (ip : Addr) :
    Option (Engine ρ × Option AttackEvent) :=
  match judge e.store e.catalog ip sec with
  | none => none
  | some none => some (e, none)
  | some (some j) =>
      (e.count newULID now ip j).map fun counted => (⟨counted.1, e.store⟩, counted.2)

def evalHosts (sec : Int64) (now : Time) :
    Engine ρ → List HostInfo → Option (Engine ρ × List AttackEvent)
  | e, [] => some (e, [])
  | e, h :: rest =>
      match evalHost newULID sec now e h.ip with
      | none => none
      | some (next, ev) =>
          match evalHosts sec now next rest with
          | none => none
          | some (final, events) => some (final, ev.toList ++ events)

def act (e : Engine ρ) : Action → Option (Engine ρ × List AttackEvent)
  | .update ip sec r => (e.store.update ip sec r).map fun store => ({ e with store := store }, [])
  | .tick now hosts =>
      let store := e.store.tick (second now)
      if hosts.Perm (activeHosts (second now) store.inOrder) then
        evalHosts newULID (second now) now { e with store := store } hosts
      else none
  | .receive =>
      match e.out.receive with
      | none => none
      | some (_, out) => some ({ e with out := out }, [])

def new (store : Store) (catalog : Catalog) (out : Chan AttackEvent) (rnd : ρ) : Engine ρ :=
  ⟨Watch.new catalog out rnd, store⟩

def ideal (e : Engine ρ) (store : Aggregate.Store) : Detect.Engine ρ := ⟨e.toWatch, store⟩

end

end Engine

def Action.ideal : Action → Detect.Action
  | .update ip sec r => .update ip sec.toInt r
  | .tick now hosts => .tick now (hosts.map HostInfo.ideal)
  | .receive => .receive

def Action.op : Action → Option Op
  | .update ip sec r => some (.update ip sec r)
  | .tick now _ => some (.tick (second now))
  | .receive => none

def Action.InRange : Action → Prop
  | .tick now _ => 0 ≤ now.unix ∧ now.unix + 1 < 2 ^ 63
  | _ => True

theorem toInt_second {now : Time} (low : 0 ≤ now.unix) (high : now.unix + 1 < 2 ^ 63) :
    (second now).toInt = now.unix :=
  Int64.toInt_ofInt_of_le (by omega) (by omega)

theorem toInt_maxWindow {catalog : Catalog} (fits : catalog.Fits) (ip : Addr) :
    (Int64.ofInt (maxWindow (catalog.lookup ip))).toInt = maxWindow (catalog.lookup ip) := by
  have positive := maxWindow_pos (catalog.lookup ip)
  have bound : maxWindow (catalog.lookup ip) ≤ 2 ^ 63 - 1 := by
    apply maxWindow_le (by decide)
    intro t member
    have window := fits t ((Catalog.mem_lookup catalog ip t).mp member).1
    omega
  exact Int64.toInt_ofInt_of_le (by omega) (by omega)

/-- Two stores after the same calls, one on int64 seconds and one over unbounded seconds. -/
structure Beside (start : Store) (origin : Aggregate.Store) (history : List Op) (s : Store)
    (ideal : Aggregate.Store) : Prop where
  ran : start.after history = some s
  same : ideal = origin.after (history.map Op.ideal)
  ranged : ∀ op ∈ history, op.InRange

section

variable {maxLen : Nat} {defaultNumShards numShards : Int64} {start s : Store}
  {origin ideal : Aggregate.Store} {history : List Op}

theorem Beside.step (beside : Beside start origin history s ideal) {op : Op} {next : Store}
    (applied : s.apply op = some next) (ranged : op.InRange) :
    Beside start origin (op :: history) next (ideal.apply op.ideal) where
  ran := by rw [Store.after, beside.ran, Option.bind_some, applied]
  same := by
    rw [beside.same]
    rfl
  ranged := by
    intro other member
    rcases List.mem_cons.mp member with rfl | earlier
    · exact ranged
    · exact beside.ranged other earlier

theorem judge_ideal (made : Store.new maxLen defaultNumShards numShards = some start)
    (fresh : ∀ ip, origin.host ip = none) (beside : Beside start origin history s ideal)
    {catalog : Catalog} (fits : catalog.Fits) {ip : Addr}
    (known : ip ∈ Hosts.after history) {sec : Int64} (kept : -2 ^ 63 + 59 ≤ sec.toInt) :
    judge s catalog ip sec = Detect.judge ideal catalog ip sec.toInt := by
  obtain ⟨answer, answered⟩ := (stands_after made beside.ran).answers ip sec
    (Int64.ofInt (maxWindow (catalog.lookup ip))) known
  have reported := snapshot_of_made made beside.ran fresh beside.ranged kept answered
  rw [toInt_maxWindow fits, ← beside.same] at reported
  simp only [judge, Detect.judge, answered, reported, Option.bind_some]

variable {ρ : Type*} {newULID : ρ → Time → String × ρ}

theorem evalHost_ideal (newULID : ρ → Time → String × ρ) {e : Engine ρ} {sec : Int64} {ip : Addr}
    (now : Time)
    (judged : judge e.store e.catalog ip sec = Detect.judge ideal e.catalog ip sec.toInt) :
    (e.ideal ideal).evalHost newULID sec.toInt now ip =
      (e.evalHost newULID sec now ip).map fun evaluated =>
        (evaluated.1.ideal ideal, evaluated.2) := by
  cases found : Detect.judge ideal e.catalog ip sec.toInt with
  | none =>
      simp only [Detect.Engine.evalHost, Engine.evalHost, Engine.ideal, judged, found,
        Option.map_none]
  | some outcome =>
      cases outcome with
      | none =>
          simp only [Detect.Engine.evalHost, Engine.evalHost, Engine.ideal, judged, found,
            Option.map_some]
      | some j =>
          simp only [Detect.Engine.evalHost, Engine.evalHost, Engine.ideal, judged, found,
            Option.map_map]
          rfl

theorem evalHost_fixed {e next : Engine ρ} {sec : Int64} {now : Time} {ip : Addr}
    {ev : Option AttackEvent} (evaluated : e.evalHost newULID sec now ip = some (next, ev)) :
    next.store = e.store ∧ next.catalog = e.catalog := by
  unfold Engine.evalHost at evaluated
  split at evaluated
  · contradiction
  · cases evaluated
    exact ⟨rfl, rfl⟩
  · obtain ⟨⟨watch, output⟩, counted, same⟩ := Option.map_eq_some_iff.mp evaluated
    cases same
    exact ⟨rfl, (Watch.count_cases counted).1⟩

theorem evalHosts_fixed {e next : Engine ρ} {sec : Int64} {now : Time} {hosts : List HostInfo}
    {events : List AttackEvent}
    (evaluated : e.evalHosts newULID sec now hosts = some (next, events)) :
    next.store = e.store ∧ next.catalog = e.catalog := by
  induction hosts generalizing e events with
  | nil =>
      cases evaluated
      exact ⟨rfl, rfl⟩
  | cons h rest ih =>
      simp only [Engine.evalHosts] at evaluated
      split at evaluated
      · contradiction
      · next middle ev first =>
          split at evaluated
          · contradiction
          · next final later second =>
              cases evaluated
              obtain ⟨store, catalog⟩ := evalHost_fixed first
              obtain ⟨sameStore, sameCatalog⟩ := ih second
              exact ⟨sameStore.trans store, sameCatalog.trans catalog⟩

theorem evalHosts_ideal (newULID : ρ → Time → String × ρ) {e : Engine ρ} {sec : Int64}
    (now : Time) {hosts : List HostInfo}
    (judged : ∀ h ∈ hosts,
      judge e.store e.catalog h.ip sec = Detect.judge ideal e.catalog h.ip sec.toInt) :
    (e.ideal ideal).evalHosts newULID sec.toInt now (hosts.map HostInfo.ideal) =
      (e.evalHosts newULID sec now hosts).map fun evaluated =>
        (evaluated.1.ideal ideal, evaluated.2) := by
  induction hosts generalizing e with
  | nil => rfl
  | cons h rest ih =>
      have first := evalHost_ideal newULID now (judged h List.mem_cons_self)
      simp only [List.map_cons, Detect.Engine.evalHosts, Engine.evalHosts, HostInfo.ideal, first]
      cases evaluated : e.evalHost newULID sec now h.ip with
      | none => rfl
      | some result =>
          obtain ⟨next, ev⟩ := result
          obtain ⟨store, catalog⟩ := evalHost_fixed evaluated
          have kept : ∀ h ∈ rest, judge next.store next.catalog h.ip sec =
              Detect.judge ideal next.catalog h.ip sec.toInt := by
            rw [store, catalog]
            exact fun other member => judged other (List.mem_cons_of_mem _ member)
          have later := ih kept
          simp only [Option.map_some, later]
          cases next.evalHosts newULID sec now rest <;> rfl

theorem mem_of_active (made : Store.new maxLen defaultNumShards numShards = some start)
    (ran : start.after history = some s) {sec : Int64} {h : HostInfo}
    (listed : h ∈ activeHosts sec s.inOrder) : h.ip ∈ Hosts.after history := by
  rw [activeHosts_eq] at listed
  obtain ⟨entry, active, rfl⟩ := List.mem_map.mp listed
  have known := mem_active ((stands_after made ran).walk _ (visits_inOrder s)) active
  exact AList.lookup_isSome.mp (by rw [known]; rfl)

theorem order_ideal (made : Store.new maxLen defaultNumShards numShards = some start)
    (fresh : ∀ ip, origin.host ip = none) (beside : Beside start origin history s ideal)
    {sec : Int64} (nonneg : 0 ≤ sec.toInt) {hosts : List HostInfo}
    (order : hosts.Perm (activeHosts sec s.inOrder)) :
    (hosts.map HostInfo.ideal).Perm (ideal.activeHosts sec.toInt) := by
  have walked := (stands_after made beside.ran).walk _ (visits_inOrder s)
  rw [beside.same]
  exact (order.map _).trans (activeHosts_ideal fresh beside.ranged walked nonneg)

theorem Beside.tick (beside : Beside start origin history s ideal) {now : Time}
    (low : 0 ≤ now.unix) (high : now.unix + 1 < 2 ^ 63) :
    Beside start origin (.tick (second now) :: history) (s.tick (second now))
      (ideal.tick now.unix) := by
  have exact := toInt_second low high
  have ticked : Beside start origin (.tick (second now) :: history) (s.tick (second now))
      (ideal.tick (second now).toInt) :=
    beside.step rfl (by rw [Op.InRange, exact]; exact ⟨low, high⟩)
  rwa [exact] at ticked

/-- A tick in the range does what the tick over unbounded seconds does. -/
theorem tick_ideal (newULID : ρ → Time → String × ρ)
    (made : Store.new maxLen defaultNumShards numShards = some start)
    (fresh : ∀ ip, origin.host ip = none) {e : Engine ρ}
    (beside : Beside start origin history e.store ideal) (fits : e.catalog.Fits)
    {now : Time} (low : 0 ≤ now.unix) (high : now.unix + 1 < 2 ^ 63) {hosts : List HostInfo}
    (order : hosts.Perm (activeHosts (second now) (e.store.tick (second now)).inOrder)) :
    (hosts.map HostInfo.ideal).Perm ((ideal.tick now.unix).activeHosts now.unix) ∧
      (e.ideal ideal).act newULID (.tick now (hosts.map HostInfo.ideal)) =
        (e.act newULID (.tick now hosts)).map fun acted =>
          (acted.1.ideal (ideal.tick now.unix), acted.2) := by
  have exact := toInt_second low high
  have nonneg : 0 ≤ (second now).toInt := exact ▸ low
  have ticked := beside.tick low high
  have visited := order_ideal made fresh ticked nonneg order
  have judged : ∀ h ∈ hosts, judge (e.store.tick (second now)) e.catalog h.ip (second now) =
      Detect.judge (ideal.tick now.unix) e.catalog h.ip (second now).toInt := fun h member =>
    judge_ideal made fresh ticked fits
      (mem_of_active made ticked.ran (order.mem_iff.mp member)) (by omega)
  have evaluated : Detect.Engine.evalHosts newULID (second now).toInt now
      (Engine.ideal ⟨e.toWatch, e.store.tick (second now)⟩ (ideal.tick now.unix))
        (hosts.map HostInfo.ideal) = _ := evalHosts_ideal newULID now judged
  rw [exact] at visited
  refine ⟨visited, ?_⟩
  have followed : (hosts.map HostInfo.ideal).Perm
      (((e.ideal ideal).store.tick now.unix).activeHosts now.unix) := visited
  rw [Detect.Engine.act, if_pos followed, Engine.act, if_pos order, ← evaluated, exact]
  rfl

theorem act_ideal (made : Store.new maxLen defaultNumShards numShards = some start)
    (fresh : ∀ ip, origin.host ip = none) {e next : Engine ρ}
    (beside : Beside start origin history e.store ideal) (fits : e.catalog.Fits)
    {action : Action} (ranged : action.InRange) {events : List AttackEvent}
    (acted : e.act newULID action = some (next, events)) :
    ∃ after, (e.ideal ideal).act newULID action.ideal = some (next.ideal after, events) ∧
      Beside start origin (action.op.toList ++ history) next.store after ∧
      next.catalog = e.catalog := by
  cases action with
  | update ip sec r =>
      obtain ⟨store, updated, same⟩ := Option.map_eq_some_iff.mp acted
      cases same
      exact ⟨ideal.update ip sec.toInt r, rfl, beside.step updated ranged, rfl⟩
  | tick now hosts =>
      have order : hosts.Perm
          (activeHosts (second now) (e.store.tick (second now)).inOrder) := by
        by_contra other
        simp only [Engine.act, if_neg other] at acted
        contradiction
      obtain ⟨-, followed⟩ :=
        tick_ideal newULID made fresh beside fits ranged.1 ranged.2 order
      refine ⟨ideal.tick now.unix, ?_, ?_⟩
      · rw [Action.ideal, followed, acted]
        rfl
      · rw [Engine.act, if_pos order] at acted
        obtain ⟨store, catalog⟩ := evalHosts_fixed acted
        exact ⟨store ▸ beside.tick ranged.1 ranged.2, catalog⟩
  | receive =>
      simp only [Engine.act] at acted
      split at acted
      · contradiction
      · next value out received =>
          cases acted
          refine ⟨ideal, ?_, beside, rfl⟩
          simp only [Action.ideal, Detect.Engine.act, Engine.ideal, received]

theorem run_beside (made : Store.new maxLen defaultNumShards numShards = some start)
    (fresh : ∀ ip, origin.host ip = none) {watch : Watch ρ} (fits : watch.catalog.Fits)
    {trace : List (Entry (Engine ρ) Action (List AttackEvent))} {final : Engine ρ}
    (run : Run (Engine.act newULID) ⟨watch, start⟩ trace final)
    (ranged : ∀ entry ∈ trace, entry.action.InRange) :
    ∃ taken last, Run (Detect.Engine.act newULID) ⟨watch, origin⟩ taken (final.ideal last) ∧
      taken.map (fun entry => (entry.action, entry.output)) =
        trace.map (fun entry => (entry.action.ideal, entry.output)) ∧
      Beside start origin (trace.filterMap fun entry => entry.action.op) final.store last ∧
      final.catalog = watch.catalog := by
  induction run with
  | start => exact ⟨[], origin, .start, rfl, ⟨rfl, rfl, by simp⟩, rfl⟩
  | @step trace state next action output past moved ih =>
      obtain ⟨taken, ideal, followed, told, beside, catalog⟩ :=
        ih fun entry member => ranged entry (List.mem_cons_of_mem _ member)
      have inRange : action.InRange := ranged ⟨state, action, output⟩ List.mem_cons_self
      obtain ⟨after, acted, advanced, kept⟩ :=
        act_ideal made fresh beside (catalog ▸ fits) inRange moved
      refine ⟨_, after, .step followed acted, ?_, ?_, kept.trans catalog⟩
      · rw [List.map_cons, List.map_cons, told]
      · cases seen : action.op with
        | none => simpa [seen] using advanced
        | some op => simpa [seen] using advanced

/-- No tick in the range panics. -/
theorem tick_total (made : Store.new maxLen defaultNumShards numShards = some start)
    {catalog : Catalog} (checked : catalog.Checked) (fits : catalog.Fits) {capacity : Nat}
    {rnd : ρ} {trace : List (Entry (Engine ρ) Action (List AttackEvent))} {final : Engine ρ}
    (run : Run (Engine.act newULID) (Engine.new start catalog (Chan.make capacity) rnd) trace final)
    (ranged : ∀ entry ∈ trace, entry.action.InRange) {now : Time} (low : 0 ≤ now.unix)
    (high : now.unix + 1 < 2 ^ 63) {hosts : List HostInfo}
    (order : hosts.Perm (activeHosts (second now) (final.store.tick (second now)).inOrder)) :
    ∃ next events, final.act newULID (.tick now hosts) = some (next, events) := by
  have fresh := Aggregate.Store.host_new 1 1
  obtain ⟨taken, last, followed, -, beside, same⟩ := run_beside made fresh
    (show (Watch.new catalog (Chan.make capacity) rnd).catalog.Fits from fits) run ranged
  have sound := Detect.Engine.sound_run followed
    (Detect.Engine.sound_new (Aggregate.Store.new 1 1) checked capacity rnd)
  obtain ⟨visited, ticked⟩ := tick_ideal newULID made fresh beside (same ▸ fits) low high order
  obtain ⟨next, events, acted, -⟩ := Detect.Engine.tick_total newULID sound now visited
  rw [ticked] at acted
  obtain ⟨⟨reached, output⟩, done, -⟩ := Option.map_eq_some_iff.mp acted
  exact ⟨reached, output, done⟩

/-- Every run in the range is, action by action and with the same events, a run of the engine over
unbounded seconds. -/
theorem run_ideal (made : Store.new maxLen defaultNumShards numShards = some start)
    {catalog : Catalog} (fits : catalog.Fits) {out : Chan AttackEvent} {rnd : ρ}
    {trace : List (Entry (Engine ρ) Action (List AttackEvent))} {final : Engine ρ}
    (run : Run (Engine.act newULID) (Engine.new start catalog out rnd) trace final)
    (ranged : ∀ entry ∈ trace, entry.action.InRange) (shards : Int) :
    ∃ taken last,
      Run (Detect.Engine.act newULID)
        (Detect.Engine.new (Aggregate.Store.new shards shards) catalog out rnd) taken last ∧
      taken.map (fun entry => (entry.action, entry.output)) =
        trace.map (fun entry => (entry.action.ideal, entry.output)) ∧
      last.toWatch = final.toWatch := by
  obtain ⟨taken, last, followed, told, -⟩ :=
    run_beside made (Aggregate.Store.host_new shards shards)
      (show (Watch.new catalog out rnd).catalog.Fits from fits) run ranged
  exact ⟨taken, final.ideal last, followed, told, rfl⟩

end

def sampleCatalog : Catalog := (sampleEngine (sampleThreshold 1000 800 1 1)).catalog

def sampleActions : List Action :=
  [.update sampleHost 101 (sampleRecord protoUDP 2000 2000),
    .tick (Time.ofUnix 101) [⟨sampleHost, 101⟩], .receive]

theorem run_ideal_sample : ∃ trace final taken last,
    (trace.flatMap Entry.output).map AttackEvent.state = [.started] ∧
    Run (Engine.act countingULID)
      (Engine.new (Store.fresh 3) sampleCatalog (Chan.make 256) 0) trace final ∧
    Run (Detect.Engine.act countingULID)
      (Detect.Engine.new (Aggregate.Store.new 1 1) sampleCatalog (Chan.make 256) 0) taken last ∧
    taken.map (fun entry => (entry.action, entry.output)) =
      trace.map (fun entry => (entry.action.ideal, entry.output)) ∧
    last.toWatch = final.toWatch := by
  have executed : (Run.replay (Engine.act countingULID) []
      (Engine.new (Store.fresh 3) sampleCatalog (Chan.make 256) 0) sampleActions).map
        (fun made => (made.1.flatMap Entry.output).map AttackEvent.state) = some [.started] := by
    decide +kernel
  obtain ⟨⟨trace, final⟩, replayed, states⟩ := Option.map_eq_some_iff.mp executed
  have run := Run.of_replay .start replayed
  have made : Store.new (2 ^ 45) 8 3 = some (Store.fresh 3) := by
    simp only [Store.new, chosen_of_pos 8 (show (1 : Int64) ≤ 3 by decide)]
    exact if_pos (by decide)
  have fits : sampleCatalog.Fits := by
    intro t member
    obtain rfl := List.mem_singleton.mp member
    decide
  have ranged : ∀ entry ∈ trace, entry.action.InRange := by
    have taken := Run.actions_of_replay replayed
    intro entry member
    have listed : entry.action ∈ sampleActions := by
      have inside := List.mem_map_of_mem (f := Entry.action) member
      rw [taken] at inside
      simpa using inside
    simp only [sampleActions, List.mem_cons, List.not_mem_nil, or_false] at listed
    rcases listed with same | same | same
    · rw [same]
      trivial
    · rw [same]
      exact ⟨by decide, by decide⟩
    · rw [same]
      trivial
  obtain ⟨taken, last, followed, told, kept⟩ := run_ideal made fits run ranged 1
  exact ⟨trace, final, taken, last, states, run, followed, told, kept⟩

end Seconds

end Mitigador.Detect
