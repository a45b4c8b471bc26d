import Mitigador.Aggregate.Store
import Mitigador.Detect.Classify
import Mitigador.Detect.State
import Mitigador.Go.Chan

/-! The detection loop (internal/detect/engine.go). -/

namespace Mitigador.Detect

open Go Mitigador.Flow Lib Aggregate

def maxWindow (thresholds : List Threshold) : Int :=
  let widest := thresholds.foldl
    (fun widest t => if t.minWindowSec > widest then t.minWindowSec else widest) 0
  if widest < 1 then 5 else widest

structure Judgement where
  vector : Vector
  threshold : Threshold
  current : Bucket
  avgPps : UInt64
  avgBps : UInt64
  violating : Bool

def width (t : Threshold) (buckets : List Bucket) : Int :=
  if t.minWindowSec > buckets.length then buckets.length else t.minWindowSec

/-- The comparison of the averages with the threshold; `none` is a division by zero. -/
def compare (vec : Vector) (t : Threshold) (current : Bucket) (older : List Bucket) :
    Option Judgement :=
  let buckets := current :: older
  let n := width t buckets
  let sumPps := sumOf Bucket.pps (buckets.take n.toNat)
  let sumBps := sumOf Bucket.bps (buckets.take n.toNat)
  if UInt64.ofInt n = 0 then none
  else
    let avgPps := sumPps / UInt64.ofInt n
    let avgBps := sumBps / UInt64.ofInt n
    some ⟨vec, t, current, avgPps, avgBps, decide (avgPps > t.pps) || decide (avgBps > t.bps)⟩

/-- What `evalHost` makes of the buckets of a host: the inner `none` is an early return, the outer
one a panic. -/
def assess (catalog : Catalog) (ip : Addr) : Option (List Bucket) → Option (Option Judgement)
  | none => some none
  | some [] => some none
  | some (current :: older) =>
      match classify (current :: older) with
      | none => some none
      | some vec =>
          match catalog.lookupByVector ip vec with
          | none => some none
          | some t => (compare vec t current older).map some

def judge (store : Store) (catalog : Catalog) (ip : Addr) (sec : Int) :
    Option (Option Judgement) :=
  let thresholds := catalog.lookup ip
  if thresholds.length = 0 then some none
  else assess catalog ip (store.snapshot ip sec (maxWindow thresholds))

def Judgement.input (j : Judgement) (now : Time) (streak : Int) : Input where
  now := now
  currentPps := j.current.pps
  currentBps := j.current.bps
  avgPpsLastWindow := j.avgPps
  avgBpsLastWindow := j.avgBps
  violating := j.violating
  durationViolated := streak
  hostgroup := j.threshold.hostgroupName
  confidence := confidence j.avgPps j.avgBps j.threshold streak

structure Watch (ρ : Type*) where
  catalog : Catalog
  out : Chan AttackEvent
  sm : StateMachine ρ
  dropped : UInt64
  streak : Key → Int

structure Engine (ρ : Type*) extends Watch ρ where
  store : Store

/-- What happens to an engine and its store: the writer counts a record, the loop ticks and visits
the active hosts in some order of the maps, the consumer takes an event. -/
inductive Action
  | update (ip : Addr) (sec : Int) (r : Record)
  | tick (now : Time) (hosts : List HostInfo)
  | receive

section

variable {ρ : Type*} (newULID : ρ → Time → String × ρ)

namespace Watch

def new (catalog : Catalog) (out : Chan AttackEvent) (rnd : ρ) : Watch ρ :=
  ⟨catalog, out, StateMachine.new rnd, 0, fun _ => 0⟩

/-- `evalHost` from the streak counter on, with the event that `Step` returned, whether or not the
channel took it. -/
def count (now : Time) (w : Watch ρ) (ip : Addr) (j : Judgement) :
    Option (Watch ρ × Option AttackEvent) :=
  let k : Key := ⟨ip, j.vector⟩
  let streak := Function.update w.streak k (if j.violating then w.streak k + 1 else 0)
  match w.sm.step newULID k (j.input now (streak k)) j.threshold with
  | none => none
  | some (sm, none) => some ({ w with streak := streak, sm := sm }, none)
  | some (sm, some ev) =>
      match w.out.offer ev with
      | none => none
      | some (out, sent) =>
          some ({ w with
            streak := streak
            sm := sm
            out := out
            dropped := if sent then w.dropped else w.dropped + 1 }, some ev)

end Watch

namespace Engine

def new (store : Store) (catalog : Catalog) (out : Chan AttackEvent) (rnd : ρ) : Engine ρ :=
  ⟨Watch.new catalog out rnd, store⟩

def evalHost (sec : Int) (now : Time) (e : Engine ρ) (ip : Addr) :
    Option (Engine ρ × Option AttackEvent) :=
  match judge e.store e.catalog ip sec with
  | none => none
  | some none => some (e, none)
  | some (some j) =>
      (e.count newULID now ip j).map fun counted => (⟨counted.1, e.store⟩, counted.2)

def evalHosts (sec : Int) (now : Time) :
    Engine ρ → List HostInfo → Option (Engine ρ × List AttackEvent)
  | e, [] => some (e, [])
  | e, h :: rest =>
      match evalHost newULID sec now e h.ip with
      | none => none
      | some (next, ev) =>
          match evalHosts sec now next rest with
          | none => none
          | some (final, events) => some (final, ev.toList ++ events)

def tick (now : Time) (e : Engine ρ) (hosts : List HostInfo) :
    Option (Engine ρ × List AttackEvent) :=
  evalHosts newULID now.unix now { e with store := e.store.tick now.unix } hosts

/-- One action and the events it produced; `none` where it panics or is not possible. -/
def act (e : Engine ρ) : Action → Option (Engine ρ × List AttackEvent)
  | .update ip sec r => some ({ e with store := e.store.update ip sec r }, [])
  | .tick now hosts =>
      if hosts.Perm ((e.store.tick now.unix).activeHosts now.unix) then e.tick newULID now hosts
      else none
  | .receive =>
      match e.out.receive with
      | none => none
      | some (_, out) => some ({ e with out := out }, [])

end Engine

end

theorem foldl_widest (thresholds : List Threshold) (widest : Int) :
    let folded := thresholds.foldl
      (fun widest t => if t.minWindowSec > widest then t.minWindowSec else widest) widest
    widest ≤ folded ∧ ∀ t ∈ thresholds, t.minWindowSec ≤ folded := by
  induction thresholds generalizing widest with
  | nil => simp
  | cons head tail ih =>
      obtain ⟨grown, each⟩ := ih (if head.minWindowSec > widest then head.minWindowSec else widest)
      have kept : widest ≤ if head.minWindowSec > widest then head.minWindowSec else widest := by
        split <;> omega
      have taken : head.minWindowSec ≤
          if head.minWindowSec > widest then head.minWindowSec else widest := by
        split <;> omega
      simp only [List.foldl_cons, List.mem_cons, forall_eq_or_imp]
      exact ⟨kept.trans grown, taken.trans grown, each⟩

theorem foldl_widest_le {thresholds : List Threshold} {widest n : Int} (low : widest ≤ n)
    (upper : ∀ t ∈ thresholds, t.minWindowSec ≤ n) :
    thresholds.foldl
      (fun widest t => if t.minWindowSec > widest then t.minWindowSec else widest) widest ≤ n := by
  induction thresholds generalizing widest with
  | nil => exact low
  | cons head tail ih =>
      apply ih
      · dsimp only
        split
        · exact upper head List.mem_cons_self
        · exact low
      · intro t member
        exact upper t (List.mem_cons_of_mem head member)

theorem le_maxWindow {thresholds : List Threshold} {t : Threshold} (member : t ∈ thresholds) :
    t.minWindowSec ≤ maxWindow thresholds := by
  have bound := (foldl_widest thresholds 0).2 t member
  simp only [maxWindow]
  split <;> omega

theorem maxWindow_le {thresholds : List Threshold} {n : Int} (five : 5 ≤ n)
    (upper : ∀ t ∈ thresholds, t.minWindowSec ≤ n) : maxWindow thresholds ≤ n := by
  have bound := foldl_widest_le (show 0 ≤ n by omega) upper
  simp only [maxWindow]
  split <;> omega

theorem maxWindow_pos (thresholds : List Threshold) : 0 < maxWindow thresholds := by
  simp only [maxWindow]
  split <;> omega

theorem compare_fields {vec : Vector} {t : Threshold} {current : Bucket} {older : List Bucket}
    {j : Judgement} (compared : compare vec t current older = some j) :
    j.vector = vec ∧ j.threshold = t ∧ j.current = current := by
  simp only [compare] at compared
  split at compared
  · contradiction
  · cases compared
    exact ⟨rfl, rfl, rfl⟩

theorem judge_eq_some {store : Store} {catalog : Catalog} {ip : Addr} {sec : Int}
    {j : Judgement} :
    judge store catalog ip sec = some (some j) ↔ ∃ current older,
      store.snapshot ip sec (maxWindow (catalog.lookup ip)) = some (current :: older) ∧
      classify (current :: older) = some j.vector ∧
      catalog.lookupByVector ip j.vector = some j.threshold ∧
      compare j.vector j.threshold current older = some j := by
  constructor
  · intro judged
    unfold judge assess at judged
    dsimp only at judged
    split at judged
    · cases judged
    · split at judged
      · cases judged
      · cases judged
      · next current older reported =>
          split at judged
          · cases judged
          · next vec classified =>
              split at judged
              · cases judged
              · next t found =>
                  obtain ⟨made, compared, same⟩ := Option.map_eq_some_iff.mp judged
                  obtain rfl : made = j := Option.some.inj same
                  obtain ⟨rfl, rfl, -⟩ := compare_fields compared
                  exact ⟨current, older, reported, classified, found, compared⟩
  · intro ⟨current, older, reported, classified, found, compared⟩
    have listed : (catalog.lookup ip).length ≠ 0 := by
      intro empty
      obtain ⟨member, -⟩ := Catalog.lookupByVector_spec found
      rw [List.length_eq_zero_iff.mp empty] at member
      contradiction
    simp only [judge, assess, if_neg listed, reported, classified, found, compared,
      Option.map_some]

/-- The judgement on a key at the evaluation of its host, if its vector is the one judged. -/
def verdict (store : Store) (catalog : Catalog) (k : Key) (sec : Int) : Option Judgement :=
  match judge store catalog k.hostIP sec with
  | some (some j) => if j.vector = k.vector then some j else none
  | _ => none

theorem verdict_eq_some {store : Store} {catalog : Catalog} {k : Key} {sec : Int} {j : Judgement} :
    verdict store catalog k sec = some j ↔
      judge store catalog k.hostIP sec = some (some j) ∧ j.vector = k.vector := by
  unfold verdict
  split
  · next found judged =>
      rw [judged, Option.some.injEq, Option.some.injEq]
      by_cases same : found.vector = k.vector
      · rw [if_pos same, Option.some.injEq]
        exact ⟨fun equal => ⟨equal, equal ▸ same⟩, And.left⟩
      · rw [if_neg same]
        exact ⟨fun impossible => by contradiction,
          fun reached => absurd (reached.1 ▸ reached.2) same⟩
  · next other =>
      refine ⟨fun impossible => by contradiction, fun ⟨judged, _⟩ => ?_⟩
      exact absurd judged (other j)

theorem verdict_eq_none_of_host {store : Store} {k : Key} (catalog : Catalog) (sec : Int)
    (unknown : store.host k.hostIP = none) : verdict store catalog k sec = none := by
  have early : judge store catalog k.hostIP sec = some none := by
    simp only [judge, assess, Store.snapshot_eq_none_of_host _ _ unknown]
    split <;> rfl
  rw [verdict, early]

def keyEvents (k : Key) (events : List AttackEvent) : List AttackEvent :=
  events.filter fun ev => ev.hostIP = k.hostIP ∧ ev.vector = k.vector

theorem keyEvents_append (k : Key) (first second : List AttackEvent) :
    keyEvents k (first ++ second) = keyEvents k first ++ keyEvents k second :=
  List.filter_append ..

variable {ρ : Type*} {newULID : ρ → Time → String × ρ}

theorem event_key {rnd rest : ρ} {k : Key} {i : Input} {t : Threshold} {e next : MachineEntry}
    {ev : AttackEvent} (moved : Transition newULID rnd k i t e next rest (some ev)) :
    ev.hostIP = k.hostIP ∧ ev.vector = k.vector := by
  cases moved with
  | start | update | finish => exact ⟨rfl, rfl⟩

/-- All that an evaluation does once it has judged: it counts, takes one step and offers the event
of the step. -/
theorem Watch.count_cases {now : Time} {w next : Watch ρ} {ip : Addr} {j : Judgement}
    {ev : Option AttackEvent} (counted : w.count newULID now ip j = some (next, ev)) :
    next.catalog = w.catalog ∧
      next.streak = Function.update w.streak ⟨ip, j.vector⟩
        (if j.violating then w.streak ⟨ip, j.vector⟩ + 1 else 0) ∧
      w.sm.step newULID ⟨ip, j.vector⟩ (j.input now (next.streak ⟨ip, j.vector⟩)) j.threshold =
        some (next.sm, ev) ∧
      (ev = none ∧ next.out = w.out ∨
        ∃ found sent, ev = some found ∧ w.out.offer found = some (next.out, sent)) := by
  unfold count at counted
  dsimp only at counted
  split at counted
  · contradiction
  · next sm stepped =>
      cases counted
      exact ⟨rfl, rfl, stepped, .inl ⟨rfl, rfl⟩⟩
  · next sm found stepped =>
      split at counted
      · contradiction
      · next out sent offered =>
          cases counted
          exact ⟨rfl, rfl, stepped, .inr ⟨found, sent, rfl, offered⟩⟩

namespace Engine

structure Frame (k : Key) (e next : Engine ρ) (events : List AttackEvent) : Prop where
  streak : next.streak k = e.streak k
  entry : next.sm.entry k = e.sm.entry k
  silent : keyEvents k events = []

inductive KeyTick (newULID : ρ → Time → String × ρ) (now : Time) (k : Key) (e next : Engine ρ)
    (events : List AttackEvent) : Option Judgement → Prop
  | skip (frame : Frame k e next events) : KeyTick newULID now k e next events none
  | judged (j : Judgement) (rnd rest : ρ) (output : Option AttackEvent)
      (counted : next.streak k = if j.violating then e.streak k + 1 else 0)
      (moved : Transition newULID rnd k (j.input now (next.streak k)) j.threshold
        (e.sm.entry k) (next.sm.entry k) rest output)
      (produced : keyEvents k events = output.toList) :
      KeyTick newULID now k e next events (some j)

theorem evalHost_fixed {sec : Int} {now : Time} {e next : Engine ρ} {ip : Addr}
    {ev : Option AttackEvent} (evaluated : evalHost newULID sec now e ip = some (next, ev)) :
    next.store = e.store ∧ next.catalog = e.catalog := by
  unfold evalHost at evaluated
  split at evaluated
  · contradiction
  · cases evaluated
    exact ⟨rfl, rfl⟩
  · obtain ⟨⟨watch, output⟩, counted, same⟩ := Option.map_eq_some_iff.mp evaluated
    cases same
    exact ⟨rfl, (Watch.count_cases counted).1⟩

theorem evalHost_counted {sec : Int} {now : Time} {e next : Engine ρ} {ip : Addr}
    {ev : Option AttackEvent} {j : Judgement}
    (evaluated : evalHost newULID sec now e ip = some (next, ev))
    (judged : judge e.store e.catalog ip sec = some (some j)) :
    e.count newULID now ip j = some (next.toWatch, ev) := by
  unfold evalHost at evaluated
  rw [judged] at evaluated
  obtain ⟨⟨watch, output⟩, counted, same⟩ := Option.map_eq_some_iff.mp evaluated
  cases same
  exact counted

theorem evalHost_judged {sec : Int} {now : Time} {e next : Engine ρ} {ip : Addr}
    {ev : Option AttackEvent} {j : Judgement}
    (evaluated : evalHost newULID sec now e ip = some (next, ev))
    (judged : judge e.store e.catalog ip sec = some (some j)) :
    next.streak = Function.update e.streak ⟨ip, j.vector⟩
        (if j.violating then e.streak ⟨ip, j.vector⟩ + 1 else 0) ∧
      e.sm.step newULID ⟨ip, j.vector⟩ (j.input now (next.streak ⟨ip, j.vector⟩)) j.threshold =
        some (next.sm, ev) := by
  obtain ⟨-, streak, stepped, -⟩ := Watch.count_cases (evalHost_counted evaluated judged)
  exact ⟨streak, stepped⟩

theorem evalHost_early {sec : Int} {now : Time} {e next : Engine ρ} {ip : Addr}
    {ev : Option AttackEvent} (evaluated : evalHost newULID sec now e ip = some (next, ev))
    (early : judge e.store e.catalog ip sec = some none) : next = e ∧ ev = none := by
  unfold evalHost at evaluated
  rw [early] at evaluated
  cases evaluated
  exact ⟨rfl, rfl⟩

theorem evalHost_frame {sec : Int} {now : Time} {e next : Engine ρ} {ip : Addr}
    {ev : Option AttackEvent} (evaluated : evalHost newULID sec now e ip = some (next, ev))
    (k : Key)
    (other : ∀ j, judge e.store e.catalog ip sec = some (some j) → (⟨ip, j.vector⟩ : Key) ≠ k) :
    Frame k e next ev.toList := by
  cases found : judge e.store e.catalog ip sec with
  | none =>
      simp only [evalHost, found] at evaluated
      contradiction
  | some outcome =>
      cases outcome with
      | none =>
          obtain ⟨rfl, rfl⟩ := evalHost_early evaluated found
          exact ⟨rfl, rfl, rfl⟩
      | some j =>
          have different := other j found
          obtain ⟨streak, stepped⟩ := evalHost_judged evaluated found
          obtain ⟨moved, untouched⟩ := StateMachine.step_cases stepped
          refine ⟨?_, ?_, ?_⟩
          · rw [streak, Function.update_of_ne different.symm]
          · rw [StateMachine.entry, StateMachine.entry, untouched k different.symm]
          · cases ev with
            | none => rfl
            | some ev =>
                obtain ⟨host, vector⟩ := event_key moved
                have apart : ¬ (ev.hostIP = k.hostIP ∧ ev.vector = k.vector) := by
                  intro same
                  apply different
                  rw [Key.mk.injEq]
                  exact ⟨host.symm.trans same.1, vector.symm.trans same.2⟩
                simp [keyEvents, apart]

theorem evalHost_key {sec : Int} {now : Time} {e next : Engine ρ} {k : Key}
    {ev : Option AttackEvent} (evaluated : evalHost newULID sec now e k.hostIP = some (next, ev)) :
    KeyTick newULID now k e next ev.toList (verdict e.store e.catalog k sec) := by
  cases decided : verdict e.store e.catalog k sec with
  | none =>
      apply KeyTick.skip
      apply evalHost_frame evaluated k
      intro j judged same
      have reached := verdict_eq_some.mpr ⟨judged, congrArg Key.vector same⟩
      rw [decided] at reached
      contradiction
  | some j =>
      obtain ⟨judged, vector⟩ := verdict_eq_some.mp decided
      have same : (⟨k.hostIP, j.vector⟩ : Key) = k := by rw [vector]
      obtain ⟨streak, stepped⟩ := evalHost_judged evaluated judged
      rw [same] at streak stepped
      obtain ⟨moved, -⟩ := StateMachine.step_cases stepped
      refine .judged j _ _ ev (by rw [streak, Function.update_self]) moved ?_
      cases ev with
      | none => rfl
      | some ev => simp [keyEvents, event_key moved]

theorem Frame.trans {k : Key} {e middle next : Engine ρ} {first second : List AttackEvent}
    (before : Frame k e middle first) (after : Frame k middle next second) :
    Frame k e next (first ++ second) where
  streak := after.streak.trans before.streak
  entry := after.entry.trans before.entry
  silent := by rw [keyEvents_append, before.silent, after.silent]; rfl

theorem KeyTick.after_frame {now : Time} {k : Key} {e middle next : Engine ρ}
    {first second : List AttackEvent} {decided : Option Judgement} (frame : Frame k e middle first)
    (ticked : KeyTick newULID now k middle next second decided) :
    KeyTick newULID now k e next (first ++ second) decided := by
  cases ticked with
  | skip after => exact .skip (frame.trans after)
  | judged j rnd rest output counted moved produced =>
      rw [frame.streak] at counted
      rw [frame.entry] at moved
      refine .judged j rnd rest output counted moved ?_
      rw [keyEvents_append, frame.silent, produced]
      rfl

theorem KeyTick.before_frame {now : Time} {k : Key} {e middle next : Engine ρ}
    {first second : List AttackEvent} {decided : Option Judgement}
    (ticked : KeyTick newULID now k e middle first decided) (frame : Frame k middle next second) :
    KeyTick newULID now k e next (first ++ second) decided := by
  cases ticked with
  | skip before => exact .skip (before.trans frame)
  | judged j rnd rest output counted moved produced =>
      rw [← frame.streak] at counted moved
      rw [← frame.entry] at moved
      refine .judged j rnd rest output counted moved ?_
      rw [keyEvents_append, frame.silent, produced, List.append_nil]

theorem KeyTick.rebase {now : Time} {k : Key} {e base next : Engine ρ}
    {events : List AttackEvent} {decided : Option Judgement}
    (ticked : KeyTick newULID now k base next events decided) (streak : base.streak = e.streak)
    (sm : base.sm = e.sm) : KeyTick newULID now k e next events decided := by
  cases ticked with
  | skip frame =>
      obtain ⟨kept, entry, silent⟩ := frame
      rw [streak] at kept
      rw [sm] at entry
      exact .skip ⟨kept, entry, silent⟩
  | judged j rnd rest output counted moved produced =>
      rw [streak] at counted
      rw [sm] at moved
      exact .judged j rnd rest output counted moved produced

theorem evalHosts_fixed {sec : Int} {now : Time} {hosts : List HostInfo} {e next : Engine ρ}
    {events : List AttackEvent}
    (evaluated : evalHosts newULID sec now e hosts = some (next, events)) :
    next.store = e.store ∧ next.catalog = e.catalog := by
  induction hosts generalizing e events with
  | nil =>
      cases evaluated
      exact ⟨rfl, rfl⟩
  | cons h rest ih =>
      simp only [evalHosts] at evaluated
      split at evaluated
      · contradiction
      · next middle ev first =>
          split at evaluated
          · contradiction
          · next final later second =>
              cases evaluated
              obtain ⟨store, catalog⟩ := evalHost_fixed first
              obtain ⟨sameStore, sameCatalog⟩ := ih second
              exact ⟨sameStore.trans store, sameCatalog.trans catalog⟩

theorem evalHosts_frame {sec : Int} {now : Time} {hosts : List HostInfo} {e next : Engine ρ}
    {events : List AttackEvent} {k : Key}
    (evaluated : evalHosts newULID sec now e hosts = some (next, events))
    (absent : k.hostIP ∉ hosts.map HostInfo.ip) : Frame k e next events := by
  induction hosts generalizing e events with
  | nil =>
      cases evaluated
      exact ⟨rfl, rfl, rfl⟩
  | cons h rest ih =>
      simp only [List.map_cons, List.mem_cons, not_or] at absent
      simp only [evalHosts] at evaluated
      split at evaluated
      · contradiction
      · next middle ev first =>
          split at evaluated
          · contradiction
          · next final later second =>
              cases evaluated
              have frame := evalHost_frame first k (by
                rintro j - rfl
                exact absent.1 rfl)
              exact frame.trans (ih second absent.2)

theorem evalHosts_key {sec : Int} {now : Time} {hosts : List HostInfo} {e next : Engine ρ}
    {events : List AttackEvent} {k : Key}
    (evaluated : evalHosts newULID sec now e hosts = some (next, events))
    (distinct : (hosts.map HostInfo.ip).Nodup) (present : k.hostIP ∈ hosts.map HostInfo.ip) :
    KeyTick newULID now k e next events (verdict e.store e.catalog k sec) := by
  induction hosts generalizing e events with
  | nil => simp at present
  | cons h rest ih =>
      rw [List.map_cons, List.nodup_cons] at distinct
      simp only [evalHosts] at evaluated
      split at evaluated
      · contradiction
      · next middle ev first =>
          split at evaluated
          · contradiction
          · next final later second =>
              cases evaluated
              by_cases here : h.ip = k.hostIP
              · rw [here] at first distinct
                exact (evalHost_key first).before_frame (evalHosts_frame second distinct.1)
              · have later : k.hostIP ∈ rest.map HostInfo.ip := by
                  simpa [Ne.symm here] using present
                have frame := evalHost_frame first k (by
                  rintro j - rfl
                  exact here rfl)
                obtain ⟨store, catalog⟩ := evalHost_fixed first
                have rested := ih second distinct.2 later
                rw [store, catalog] at rested
                exact rested.after_frame frame

end Engine

end Mitigador.Detect
