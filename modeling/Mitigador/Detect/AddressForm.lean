import Mathlib.Data.List.Perm.Basic
import Mitigador.Detect.Isolation
import Mitigador.Ingest.Mapped

/-! Two engines on one stream, where the second gets some of the IPv4 destinations in their
IPv4-mapped form. Nothing on the counting path unmaps an address: the forms are two hosts. -/

namespace Mitigador.Detect

open Go Mitigador.Flow Lib Aggregate
open Ingest (Decoded)

/-- The engine of the stream as it is, and the engine of the replaced one. -/
structure Twins (ρ : Type*) where
  original : Engine ρ
  replaced : Engine ρ

/-- The writer of cmd/mitigador/serve.go on a record of the channel. -/
def Action.write (r : Record) : Action := .update r.dstIP r.received.unix r

/-- What both engines go through. Each visits the hosts in an order of its own and has a consumer
of its own. -/
inductive Paired
  | record (d : Decoded) (mapped : Bool)
  | tick (now : Time) (hosts others : List HostInfo)
  | receive
  | receiveOther

def Paired.original : Paired → Option Action
  | record d _ => some (.write d.record)
  | tick now hosts _ => some (.tick now hosts)
  | receive => some .receive
  | receiveOther => none

def Paired.replaced : Paired → Option Action
  | record d mapped => some (.write (if mapped then d.mapped.record else d.record))
  | tick now _ others => some (.tick now others)
  | receive => none
  | receiveOther => some .receive

def AttackEvent.unmapped (ev : AttackEvent) : AttackEvent :=
  { ev.erase with hostIP := ev.hostIP.unmap }

def Engine.written {ρ : Type*} (e : Engine ρ) (r : Record) : Engine ρ :=
  { e with store := e.store.update r.dstIP r.received.unix r }

theorem perm_of_filter {α β : Type*} [DecidableEq β] (f : α → β) {first second : List α}
    (same : ∀ b, first.filter (fun a => f a = b) = second.filter (fun a => f a = b)) :
    first.Perm second := by
  classical
  rw [List.perm_iff_count]
  intro a
  have counted : ∀ values : List α,
      (values.filter fun value => f value = f a).count a = values.count a := fun values =>
    List.count_filter (by simp)
  rw [← counted first, same, counted second]

theorem perm_unmapped {events others : List AttackEvent}
    (same : ∀ h, (hostEvents h events).map AttackEvent.erase =
      (hostEvents h others).map AttackEvent.erase) :
    (events.map AttackEvent.unmapped).Perm (others.map AttackEvent.unmapped) := by
  have erased : (events.map AttackEvent.erase).Perm (others.map AttackEvent.erase) := by
    refine perm_of_filter AttackEvent.hostIP fun h => ?_
    rw [List.filter_map, List.filter_map]
    exact same h
  have forms : ∀ values : List AttackEvent, values.map AttackEvent.unmapped =
      (values.map AttackEvent.erase).map fun ev => { ev with hostIP := ev.hostIP.unmap } := by
    intro values
    rw [List.map_map]
    rfl
  rw [forms, forms]
  exact erased.map _

def Absorbs (store : Store) (ip : Addr) (r : Record) : Prop :=
  ∃ hr, store.host ip = some hr ∧ r.packets = 0 ∧ r.bytes = 0 ∧ r.received.unix ≤ hr.lastSec

theorem absorbs_iff (store : Store) (ip : Addr) (r : Record) :
    Absorbs store ip r ↔
      some (((store.host ip).getD HostRing.new).update r.received.unix r) = store.host ip := by
  unfold Absorbs
  cases known : store.host ip with
  | none => simp
  | some hr => simp [HostRing.update_eq_self_iff]

theorem absorbs_mapped (store : Store) (d : Decoded) :
    Absorbs store d.mapped.record.dstIP d.record ↔
      Absorbs store d.mapped.record.dstIP d.mapped.record := by
  rw [Decoded.record_mapped]
  rfl

theorem Alike.written {ρ : Type*} {h : Addr} {e : Engine ρ} {s : Solo} (alike : Alike h e s)
    {r : Record} (absorbs : Absorbs e.store r.dstIP r) : Alike h (e.written r) s := by
  refine alike.frame ?_ (fun _ => rfl) fun _ => rfl
  rw [Engine.written, Store.host_update, ← alike.ring]
  split
  · next own => rw [(absorbs_iff ..).mp absorbs, own]
  · rfl

instance (store : Store) (ip : Addr) (r : Record) : Decidable (Absorbs store ip r) :=
  decidable_of_iff _ (absorbs_iff store ip r).symm

namespace Twins

variable {ρ : Type*} (newULID : ρ → Time → String × ρ)

def move (e : Engine ρ) : Option Action → Option (Engine ρ × List AttackEvent)
  | none => some (e, [])
  | some action => e.act newULID action

def step (t : Twins ρ) (action : Paired) :
    Option (Twins ρ × (List AttackEvent × List AttackEvent)) :=
  match move newULID t.original action.original, move newULID t.replaced action.replaced with
  | some (original, events), some (replaced, others) =>
      some (⟨original, replaced⟩, (events, others))
  | _, _ => none

abbrev History (ρ : Type*) :=
  List (Entry (Twins ρ) Paired (List AttackEvent × List AttackEvent))

/-- The counters and last seconds under all keys are the same, and so are the events of every
step, up to the order in which a tick visits the hosts. -/
def Unchanged (trace : History ρ) (t : Twins ρ) : Prop :=
  (∀ ip, t.original.store.host ip = t.replaced.store.host ip) ∧
    ∀ entry ∈ trace, (entry.output.1.map AttackEvent.unmapped).Perm
      (entry.output.2.map AttackEvent.unmapped)

/-- A replaced record that neither form of its destination notices: both are hosts already, the
record counts nothing, and its second is not a new one. -/
def Idle (t : Twins ρ) : Paired → Prop
  | .record d true => d.Short →
      Absorbs t.original.store d.record.dstIP d.record ∧
        Absorbs t.original.store d.mapped.record.dstIP d.record
  | _ => True

instance (t : Twins ρ) : (action : Paired) → Decidable (Idle t action)
  | .record d true => inferInstanceAs (Decidable (d.Short →
      Absorbs t.original.store d.record.dstIP d.record ∧
        Absorbs t.original.store d.mapped.record.dstIP d.record))
  | .record _ false | .tick .. | .receive | .receiveOther => .isTrue trivial

variable {newULID} {t next : Twins ρ} {action : Paired} {events others : List AttackEvent}

theorem step_eq_some : t.step newULID action = some (next, (events, others)) ↔
    move newULID t.original action.original = some (next.original, events) ∧
      move newULID t.replaced action.replaced = some (next.replaced, others) := by
  unfold step
  constructor
  · intro moved
    split at moved
    · next first second =>
        cases moved
        exact ⟨first, second⟩
    · contradiction
  · rintro ⟨first, second⟩
    rw [first, second]

structure Twinned (t : Twins ρ) : Prop where
  alike : ∀ h, ∃ s, Alike h t.original s ∧ Alike h t.replaced s
  catalog : t.original.catalog = t.replaced.catalog

namespace Twinned

theorem hosts (twinned : Twinned t) (ip : Addr) :
    t.original.store.host ip = t.replaced.store.host ip := by
  obtain ⟨s, original, replaced⟩ := twinned.alike ip
  exact original.ring.trans replaced.ring.symm

variable (newULID) in
theorem receive {e after : Engine ρ} {events : List AttackEvent}
    (received : e.act newULID .receive = some (after, events)) :
    events = [] ∧ after.catalog = e.catalog ∧ ∀ h s, Alike h e s → Alike h after s := by
  simp only [Engine.act] at received
  split at received
  · contradiction
  · cases received
    exact ⟨rfl, rfl, fun h s alike => ⟨alike.ring, alike.streak, alike.entry⟩⟩

theorem write (twinned : Twinned t) (r : Record) :
    Twinned ⟨t.original.written r, t.replaced.written r⟩ where
  alike h := by
    obtain ⟨s, original, replaced⟩ := twinned.alike h
    exact ⟨_, original.update _ _ _, replaced.update _ _ _⟩
  catalog := twinned.catalog

theorem write_mapped (twinned : Twinned t) {d : Decoded} (idle : Idle t (.record d true)) :
    Twinned ⟨t.original.written d.record, t.replaced.written d.mapped.record⟩ := by
  by_cases short : d.Short
  · obtain ⟨own, other⟩ := idle short
    rw [absorbs_mapped, absorbs_iff, twinned.hosts, ← absorbs_iff] at other
    refine ⟨fun h => ?_, twinned.catalog⟩
    obtain ⟨s, original, replaced⟩ := twinned.alike h
    exact ⟨s, original.written own, replaced.written other⟩
  · rw [Decoded.mapped_of_long short]
    exact twinned.write d.record

theorem tick (twinned : Twinned t) {now : Time} {hosts rest : List HostInfo}
    {original replaced : Engine ρ}
    (acted : t.original.act newULID (.tick now hosts) = some (original, events))
    (again : t.replaced.act newULID (.tick now rest) = some (replaced, others)) :
    Twinned ⟨original, replaced⟩ ∧
      (events.map AttackEvent.unmapped).Perm (others.map AttackEvent.unmapped) := by
  refine ⟨⟨fun h => ?_, ?_⟩, perm_unmapped fun h => ?_⟩
  · obtain ⟨s, first, second⟩ := twinned.alike h
    have moved := (second.tick again).1
    rw [← twinned.catalog] at moved
    exact ⟨_, (first.tick acted).1, moved⟩
  · rw [Engine.act_catalog acted, Engine.act_catalog again]
    exact twinned.catalog
  · obtain ⟨s, first, second⟩ := twinned.alike h
    rw [(first.tick acted).2, (second.tick again).2, twinned.catalog]

theorem step (twinned : Twinned t) (idle : Idle t action)
    (moved : t.step newULID action = some (next, (events, others))) :
    Twinned next ∧ (events.map AttackEvent.unmapped).Perm (others.map AttackEvent.unmapped) := by
  obtain ⟨first, second⟩ := step_eq_some.mp moved
  rcases next with ⟨original, replaced⟩
  cases action with
  | record d mapped =>
      cases mapped with
      | false =>
          cases first
          cases second
          exact ⟨twinned.write d.record, .refl _⟩
      | true =>
          cases first
          cases second
          exact ⟨twinned.write_mapped idle, .refl _⟩
  | tick now hosts rest => exact twinned.tick first second
  | receive =>
      obtain ⟨rfl, catalog, kept⟩ := receive newULID first
      cases second
      refine ⟨⟨fun h => ?_, catalog.trans twinned.catalog⟩, .refl _⟩
      obtain ⟨s, before, other⟩ := twinned.alike h
      exact ⟨s, kept h s before, other⟩
  | receiveOther =>
      obtain ⟨rfl, catalog, kept⟩ := receive newULID second
      cases first
      refine ⟨⟨fun h => ?_, twinned.catalog.trans catalog.symm⟩, .refl _⟩
      obtain ⟨s, before, other⟩ := twinned.alike h
      exact ⟨s, before, kept h s other⟩

end Twinned

theorem idle_of_hosts {d : Decoded}
    (before : ∀ ip, t.original.store.host ip = t.replaced.store.host ip)
    (after : ∀ ip, (t.original.written d.record).store.host ip =
      (t.replaced.written d.mapped.record).store.host ip) : Idle t (.record d true) := by
  intro short
  have apart := Decoded.dstIP_mapped_ne short
  rw [absorbs_mapped, absorbs_iff, absorbs_iff]
  constructor
  · have own := after d.record.dstIP
    simp only [Engine.written, Store.host_update, if_true, if_neg apart.symm] at own
    rw [own, before]
  · have other := after d.mapped.record.dstIP
    simp only [Engine.written, Store.host_update, if_true, if_neg apart] at other
    rw [before, ← other, before]

def start (defaultNumShards numShards : Int) (catalog : Catalog) (capacity : Nat)
    (rnd rest : ρ) : Twins ρ :=
  ⟨Engine.new (Store.new defaultNumShards numShards) catalog (Chan.make capacity) rnd,
    Engine.new (Store.new defaultNumShards numShards) catalog (Chan.make capacity) rest⟩

theorem twinned_start (defaultNumShards numShards : Int) (catalog : Catalog) (capacity : Nat)
    (rnd rest : ρ) : Twinned (start defaultNumShards numShards catalog capacity rnd rest) where
  alike h := ⟨Solo.start, alike_new h .., alike_new h ..⟩
  catalog := rfl

theorem twinned_run {begin final : Twins ρ} {trace : History ρ}
    (run : Run (Twins.step newULID) begin trace final) (twinned : Twinned begin)
    (idle : ∀ front entry back, trace = front ++ entry :: back →
      Idle entry.before entry.action) :
    Twinned final ∧ ∀ entry ∈ trace, (entry.output.1.map AttackEvent.unmapped).Perm
      (entry.output.2.map AttackEvent.unmapped) := by
  refine run.invariant (fun _ t action => Idle t action) (fun trace t => Twinned t ∧
    ∀ entry ∈ trace, (entry.output.1.map AttackEvent.unmapped).Perm
      (entry.output.2.map AttackEvent.unmapped)) ⟨twinned, by simp⟩ ?_ idle
  intro past t action next output _ held quiet moved
  obtain ⟨after, alike⟩ := held.1.step quiet moved
  refine ⟨after, fun entry member => ?_⟩
  rcases List.mem_cons.mp member with rfl | earlier
  · exact alike
  · exact held.2 entry earlier

/-- The replacement goes unnoticed throughout a run exactly when every replaced record is idle. -/
theorem unchanged_iff_idle {defaultNumShards numShards : Int} {catalog : Catalog} {capacity : Nat}
    {rnd rest : ρ} {trace : History ρ} {final : Twins ρ}
    (run : Run (Twins.step newULID)
      (start defaultNumShards numShards catalog capacity rnd rest) trace final) :
    (∀ front back middle, trace = front ++ back → Run (Twins.step newULID)
        (start defaultNumShards numShards catalog capacity rnd rest) back middle →
      Unchanged back middle) ↔
      ∀ front entry back, trace = front ++ entry :: back → Idle entry.before entry.action := by
  constructor
  · rintro unchanged front ⟨before, action, events, others⟩ back rfl
    obtain ⟨past, next, moved, more⟩ := run.cut
    cases action with
    | tick | receive | receiveOther => trivial
    | record d mapped =>
        cases mapped with
        | false => trivial
        | true =>
            have earlier := (unchanged (front ++ [_]) back before
              (List.append_cons front _ back) past).1
            have later := (unchanged front _ next rfl more).1
            obtain ⟨first, second⟩ := step_eq_some.mp moved
            rcases next with ⟨original, replaced⟩
            cases first
            cases second
            exact idle_of_hosts earlier later
  · rintro idle front back middle rfl reached
    have kept := twinned_run reached (twinned_start ..)
      (Run.guarded_of_suffix (List.suffix_append ..) idle)
    exact ⟨kept.1.hosts, kept.2⟩

theorem halves_run {begin final : Twins ρ} {trace : History ρ}
    (run : Run (Twins.step newULID) begin trace final) : ∃ first second,
      Run (Engine.act newULID) begin.original first final.original ∧
        Run (Engine.act newULID) begin.replaced second final.replaced := by
  have extended : ∀ {e middle after : Engine ρ} {events : List AttackEvent} {trace : Trace ρ}
      {action : Option Action}, Run (Engine.act newULID) e trace middle →
      move newULID middle action = some (after, events) →
      ∃ longer, Run (Engine.act newULID) e longer after := by
    intro e middle after events trace action past moved
    cases action with
    | none =>
        cases moved
        exact ⟨trace, past⟩
    | some action => exact ⟨_, past.step moved⟩
  induction run with
  | start => exact ⟨[], [], .start, .start⟩
  | @step trace state next action output past moved ih =>
      obtain ⟨first, second, original, replaced⟩ := ih
      obtain ⟨one, other⟩ := step_eq_some.mp moved
      obtain ⟨first, original⟩ := extended original one
      obtain ⟨second, replaced⟩ := extended replaced other
      exact ⟨first, second, original, replaced⟩

theorem tick_total {defaultNumShards numShards : Int} {catalog : Catalog}
    (checked : catalog.Checked) {capacity : Nat} {rnd rest : ρ} {trace : History ρ}
    {final : Twins ρ} (run : Run (Twins.step newULID)
      (start defaultNumShards numShards catalog capacity rnd rest) trace final) (now : Time)
    {hosts others : List HostInfo}
    (order : hosts.Perm ((final.original.store.tick now.unix).activeHosts now.unix))
    (another : others.Perm ((final.replaced.store.tick now.unix).activeHosts now.unix)) :
    ∃ next output, final.step newULID (.tick now hosts others) = some (next, output) := by
  obtain ⟨first, second, original, replaced⟩ := halves_run run
  obtain ⟨one, events, acted⟩ :=
    Engine.tick_run_total newULID _ checked capacity rnd original now order
  obtain ⟨other, later, again⟩ :=
    Engine.tick_run_total newULID _ checked capacity rest replaced now another
  exact ⟨⟨one, other⟩, (events, later), step_eq_some.mpr ⟨acted, again⟩⟩

def sampleDecoded (packets bytes : UInt64) : Decoded where
  exp := ⟨.v4 0x0a000002, 0⟩
  received := Time.ofUnix 100
  now := Time.ofUnix 100
  m := ⟨17, bytes, packets, 1, [198, 51, 100, 7], [192, 0, 2, 1]⟩

def sampleTwins : Twins Nat :=
  start 16 1 ⟨[sampleThreshold 1 1 1 1], List.pairwise_singleton _ _⟩ 256 0 7

theorem unchanged_iff_idle_sample : ∃ trace final,
    Run (Twins.step countingULID) sampleTwins trace final ∧
      trace.map (fun entry => entry.output.1.map AttackEvent.state) = [[.started], [], [], []] ∧
        Unchanged trace final := by
  have checked : (Run.replay (Twins.step countingULID) [] sampleTwins
      [.record (sampleDecoded 7 700) false, .record (sampleDecoded 9 900).mapped false,
        .record (sampleDecoded 0 0) true,
        .tick (Time.ofUnix 100) [⟨sampleHost, 100⟩, ⟨.v6 0xffffc0000201 "", 100⟩]
          [⟨sampleHost, 100⟩, ⟨.v6 0xffffc0000201 "", 100⟩]]).map (fun made =>
        (made.1.map (fun entry => entry.output.1.map AttackEvent.state),
          Run.checks (fun _ entry => decide (Idle entry.before entry.action)) made.1)) =
      some ([[.started], [], [], []], true) := by
    decide +kernel
  obtain ⟨⟨trace, final⟩, replayed, observed⟩ := Option.map_eq_some_iff.mp checked
  simp only [Prod.mk.injEq] at observed
  obtain ⟨states, passed⟩ := observed
  have run := Run.of_replay .start replayed
  refine ⟨trace, final, run, states, (unchanged_iff_idle run).mpr ?_ [] trace final rfl run⟩
  intro front entry back split
  exact of_decide_eq_true (Run.of_checks passed front entry back split)

/-- One flood: as it is, it starts an incident; in the mapped form the hostgroup does not contain
it, and the host is unknown under its address. -/
theorem mapped_flood_missed : ∃ trace final,
    Run (Twins.step countingULID) sampleTwins trace final ∧
      trace.map (fun entry => (entry.output.1.map AttackEvent.state,
        entry.output.2.map AttackEvent.state)) = [([.started], []), ([], [])] ∧
      (final.original.store.snapshot sampleHost 100 1).isSome ∧
      final.replaced.store.snapshot sampleHost 100 1 = none ∧
      ¬ Unchanged trace final := by
  have checked : (Run.replay (Twins.step countingULID) [] sampleTwins
      [.record (sampleDecoded 7 700) true,
        .tick (Time.ofUnix 100) [⟨sampleHost, 100⟩] [⟨.v6 0xffffc0000201 "", 100⟩]]).map
      (fun made => (made.1.map (fun entry => (entry.output.1.map AttackEvent.state,
          entry.output.2.map AttackEvent.state)),
        (made.2.original.store.snapshot sampleHost 100 1).isSome,
        made.2.replaced.store.snapshot sampleHost 100 1)) =
      some ([([.started], []), ([], [])], true, none) := by
    decide +kernel
  obtain ⟨⟨trace, final⟩, replayed, observed⟩ := Option.map_eq_some_iff.mp checked
  simp only [Prod.mk.injEq] at observed
  obtain ⟨states, seen, unseen⟩ := observed
  refine ⟨trace, final, Run.of_replay .start replayed, states, seen, unseen, fun unchanged => ?_⟩
  have same : final.original.store.snapshot sampleHost 100 1 =
      final.replaced.store.snapshot sampleHost 100 1 := by
    simp only [Store.snapshot, unchanged.1]
  rw [same, unseen] at seen
  contradiction

end Twins

end Mitigador.Detect
