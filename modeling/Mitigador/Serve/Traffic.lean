import Mathlib.Algebra.BigOperators.Fin
import Mitigador.Aggregate.Window
import Mitigador.Detect.Average
import Mitigador.Incident.Origin
import Mitigador.Serve.Refinement

/-! Where the rows of incidents come from: every record is counted at most once, and every new row
goes back to a tick at which the counted records of its host were above a threshold. -/

namespace Mitigador.Detect

open Go Lib Aggregate

variable {ρ : Type*} {newULID : ρ → Time → String × ρ} {ev : AttackEvent}

theorem started_event {rnd rest : ρ} {k : Key} {i : Input} {t : Threshold} {e next : MachineEntry}
    (moved : Transition newULID rnd k i t e next rest (some ev)) (started : ev.state = .started) :
    i.violating = true ∧ ev.hostIP = k.hostIP ∧ ev.vector = k.vector ∧
      ev.hostgroup = i.hostgroup ∧ ev.startedAt = i.now := by
  cases moved with
  | start idle violating long => exact ⟨violating, rfl, rfl, rfl, rfl⟩
  | finish | update => contradiction

theorem Engine.evalHost_started {sec : Int} {now : Time} {e next : Engine ρ} {ip : Addr}
    (evaluated : evalHost newULID sec now e ip = some (next, some ev))
    (started : ev.state = .started) :
    ∃ j, judge e.store e.catalog ip sec = some (some j) ∧ j.violating = true ∧ ev.hostIP = ip ∧
      ev.vector = j.vector ∧ ev.hostgroup = j.threshold.hostgroupName ∧ ev.startedAt = now := by
  rcases evalHost_cases evaluated with ⟨-, impossible⟩ | ⟨j, judged, stepped, -⟩
  · contradiction
  · exact ⟨j, judged, started_event (StateMachine.step_cases stepped).1 started⟩

end Mitigador.Detect

namespace Mitigador.Serve

open Go Mitigador.Flow Lib Aggregate Detect Incident

def Writer.held : Writer → Multiset Record
  | .holding r => {r}
  | .selecting | .returned => 0

namespace Pipeline

def Seen.calledRecords : Seen → Multiset Record
  | .called records => records
  | _ => 0

def Seen.countedRecord : Seen → Multiset Record
  | .counted r => {r}
  | _ => 0

def Seen.op : Seen → Option Op
  | .counted r => some (.update r.dstIP r.received.unix r)
  | .ticked sec => some (.tick sec)
  | _ => none

variable {ρ : Type*} {Packet : Type} {newULID : ρ → Time → String × ρ}
  {pp : Ingest.ProtoProducer Packet}

def reported (trace : Trace ρ Packet) : Multiset Record :=
  (trace.map fun entry => entry.output.calledRecords).sum

def counted (trace : Trace ρ Packet) : Multiset Record :=
  (trace.map fun entry => entry.output.countedRecord).sum

def history (trace : Trace ρ Packet) : List Op := trace.filterMap fun entry => entry.output.op

def onTheWay (s : Pipeline ρ) : Multiset Record :=
  (∑ n, ((s.calls n).records : Multiset Record)) + s.producer.out.buffer + s.writer.held

@[simp] theorem reported_cons (entry : Entry (Pipeline ρ) (Action Packet) Seen)
    (back : Trace ρ Packet) :
    reported (entry :: back) = entry.output.calledRecords + reported back := List.sum_cons

@[simp] theorem counted_cons (entry : Entry (Pipeline ρ) (Action Packet) Seen)
    (back : Trace ρ Packet) :
    counted (entry :: back) = entry.output.countedRecord + counted back := List.sum_cons

@[simp] theorem history_cons (entry : Entry (Pipeline ρ) (Action Packet) Seen)
    (back : Trace ρ Packet) :
    history (entry :: back) = entry.output.op.toList ++ history back := by
  cases seen : entry.output.op with
  | none => simp [history, seen]
  | some op => simp [history, seen]

theorem appliedTo_history (trace : Trace ρ Packet) (ip : Addr) :
    appliedTo (history trace) ip = (counted trace).filter fun r => r.dstIP = ip := by
  induction trace with
  | nil => rfl
  | cons entry back ih =>
      rw [counted_cons, Multiset.filter_add, ← ih]
      obtain ⟨before, action, seen⟩ := entry
      cases seen with
      | counted r =>
          change appliedTo (.update r.dstIP r.received.unix r :: history back) ip = _
          rw [appliedTo, add_comm, Seen.countedRecord, Multiset.filter_singleton]
          simp only [eq_comm]
          rfl
      | nothing | called | ticked | evaluated | stored => exact (zero_add _).symm

theorem sum_calls (calls : Fin 3 → Ingest.Pending) (n : Fin 3) (pending : Ingest.Pending) :
    (∑ m, ((Function.update calls n pending m).records : Multiset Record)) + (calls n).records =
      (∑ m, ((calls m).records : Multiset Record)) + pending.records := by
  have updated : (fun m => ((Function.update calls n pending m).records : Multiset Record)) =
      Function.update (fun m => ((calls m).records : Multiset Record)) n pending.records :=
    funext fun m => Function.apply_update (fun _ call => (Ingest.Pending.records call :
      Multiset Record)) calls n pending m
  have rest := Finset.add_sum_erase Finset.univ
    (fun m => ((calls m).records : Multiset Record)) (Finset.mem_univ n)
  rw [updated, Finset.sum_update_of_mem (Finset.mem_univ n), ← rest, ← Finset.erase_eq]
  abel

/-- The engine sees what was counted, and what was counted or is on its way was reported. -/
structure Conserved (inv : Ingest.Inventory) (store : Store) (catalog : Catalog)
    (trace : Trace ρ Packet) (s : Pipeline ρ) : Prop where
  store : s.engine.store = store.after (history trace)
  catalog : s.engine.catalog = catalog
  inventory : s.producer.inv = inv
  balance : counted trace + s.onTheWay ≤ reported trace
  origin : ∀ r ∈ reported trace, ∃ sampler exp, inv.lookup sampler = some exp ∧
    r.exporter = exp.sourceIP

variable {inv : Ingest.Inventory} {store : Store} {catalog : Catalog} {trace : Trace ρ Packet}
  {s next : Pipeline ρ} {action : Action Packet} {seen : Seen}

theorem offer_buffer {p next : Ingest.ChannelProducer} {sampler : Addr} {r : Record}
    (offered : p.offer sampler r = some next) :
    (next.out.buffer : Multiset Record) ≤ {r} + p.out.buffer := by
  have grown : ∀ {out : Chan Record} {sent : Bool}, p.out.offer r = some (out, sent) →
      (out.buffer : Multiset Record) ≤ {r} + p.out.buffer := by
    intro out sent tried
    obtain ⟨-, -, buffer, -⟩ := Chan.offer_spec tried
    rw [buffer, ← Multiset.coe_add, add_comm]
    apply Multiset.add_le_add_right
    cases sent with
    | true => exact le_rfl
    | false => exact Multiset.zero_le _
  unfold Ingest.ChannelProducer.offer at offered
  split at offered
  · contradiction
  · next tried =>
      split at offered
      · contradiction
      · cases offered
        exact grown tried
  · next tried =>
      cases offered
      exact grown tried

theorem Conserved.quiet (conserved : Conserved inv store catalog trace s)
    (kept : next.engine.store = s.engine.store) (rows : next.engine.catalog = s.engine.catalog)
    (inventory : next.producer.inv = s.producer.inv) (less : next.onTheWay ≤ s.onTheWay)
    (silent : seen.calledRecords = 0) (uncounted : seen.countedRecord = 0)
    (still : seen.op = none) :
    Conserved inv store catalog (⟨s, action, seen⟩ :: trace) next where
  store := by rw [kept, conserved.store, history_cons, still, Option.toList_none, List.nil_append]
  catalog := rows.trans conserved.catalog
  inventory := inventory.trans conserved.inventory
  balance := by
    rw [reported_cons, counted_cons, silent, uncounted, zero_add, zero_add]
    exact (Multiset.add_le_add_left less).trans conserved.balance
  origin := by
    rw [reported_cons, silent, zero_add]
    exact conserved.origin

theorem Conserved.step (conserved : Conserved inv store catalog trace s)
    (stepped : s.step newULID pp action = some (next, seen)) :
    Conserved inv store catalog (⟨s, action, seen⟩ :: trace) next := by
  cases step_cases stepped with
  | @call n call pipe output called =>
      obtain ⟨idle, -, records, -⟩ := Ingest.step_call called
      have sums := sum_calls s.calls n pipe.pending
      have none : (s.calls n).records = [] := idle
      rw [none, Multiset.coe_nil, add_zero] at sums
      refine ⟨conserved.store, conserved.catalog, conserved.inventory, ?_, ?_⟩
      · simp only [reported_cons, counted_cons, Seen.calledRecords, Seen.countedRecord, onTheWay,
          sums, zero_add]
        calc _ = (pipe.pending.records : Multiset Record) + (counted trace + s.onTheWay) := by
              rw [onTheWay]
              abel
          _ ≤ pipe.pending.records + reported trace := Multiset.add_le_add_left conserved.balance
      · intro r listed
        rw [reported_cons, Multiset.mem_add] at listed
        rcases listed with here | earlier
        · rw [Seen.calledRecords, Multiset.mem_coe, records] at here
          rw [← conserved.inventory]
          exact Ingest.inventory_of_offers here
        · exact conserved.origin r earlier
  | @offer n pipe output offered =>
      obtain ⟨r, held, tried, -⟩ := Ingest.step_offer offered
      have sums := sum_calls s.calls n pipe.pending
      have before : (s.calls n).records = r :: pipe.pending.records := held
      rw [before, ← Multiset.cons_coe, ← Multiset.singleton_add, ← add_assoc] at sums
      have fewer := add_right_cancel sums
      refine conserved.quiet rfl rfl (Ingest.ChannelProducer.offer_inv tried) ?_ rfl rfl rfl
      simp only [onTheWay, ← fewer]
      apply Multiset.add_le_add_right
      calc _ ≤ _ + ({r} + (s.producer.out.buffer : Multiset Record)) :=
            Multiset.add_le_add_left (offer_buffer tried)
        _ = _ := by abel
  | @take r out selecting received =>
      refine conserved.quiet rfl rfl rfl ?_ rfl rfl rfl
      have shifted := Chan.receive_value received
      simp only [onTheWay, Writer.held, selecting, shifted, ← Multiset.cons_coe,
        ← Multiset.singleton_add, add_zero]
      apply le_of_eq
      abel
  | leave selecting =>
      refine conserved.quiet rfl rfl rfl ?_ rfl rfl rfl
      simp only [onTheWay, Writer.held, selecting, le_refl]
  | @update r holding =>
      refine ⟨?_, conserved.catalog, conserved.inventory, ?_, ?_⟩
      · dsimp only
        rw [conserved.store]
        rfl
      · simp only [reported_cons, counted_cons, Seen.calledRecords, Seen.countedRecord, onTheWay,
          Writer.held, zero_add, add_zero]
        calc _ = counted trace + s.onTheWay := by
              rw [onTheWay, holding, Writer.held]
              abel
          _ ≤ reported trace := conserved.balance
      · simpa [Seen.calledRecords] using conserved.origin
  | tick selecting =>
      refine ⟨?_, conserved.catalog, conserved.inventory, ?_, ?_⟩
      · dsimp only
        rw [conserved.store]
        rfl
      · simp only [reported_cons, counted_cons, Seen.calledRecords, Seen.countedRecord, zero_add]
        exact conserved.balance
      · simpa [Seen.calledRecords] using conserved.origin
  | evalHost evaluating evaluated =>
      obtain ⟨kept, rows⟩ := Engine.evalHost_fixed evaluated
      exact conserved.quiet kept rows rfl le_rfl rfl rfl rfl
  | activeHosts | rest | bus | recorder | store | cancel =>
      exact conserved.quiet rfl rfl rfl le_rfl rfl rfl rfl

theorem conserved_run {defaultNumShards numCPU : Int} {rnd : ρ} {db : Database}
    {final : Pipeline ρ}
    (run : Run (step newULID pp) (start inv defaultNumShards numCPU catalog rnd db) trace final) :
    Conserved inv (Store.new defaultNumShards numCPU) catalog trace final := by
  induction run with
  | start => exact ⟨rfl, rfl, rfl, le_rfl, nofun⟩
  | step past moved ih => exact ih.step moved

theorem rooted_run {defaultNumShards numCPU : Int} {rnd : ρ} {db : Database} {final : Pipeline ρ}
    (run : Run (step newULID pp) (start inv defaultNumShards numCPU catalog rnd db) trace final) :
    Rooted db (stored trace) final.db := by
  induction run with
  | start => exact rooted_start db
  | @step trace s next action seen past moved ih =>
      rw [stored_cons]
      cases step_cases moved with
      | store handling finished => exact ih.handle _ _ _
      | _ => simpa [Seen.storedEvent] using ih

theorem emitted_of_stored {defaultNumShards numCPU : Int} {rnd : ρ} {db : Database}
    {final : Pipeline ρ}
    (run : Run (step newULID pp) (start inv defaultNumShards numCPU catalog rnd db) trace final)
    {ev : AttackEvent} (listed : ev ∈ stored trace) : ev ∈ emitted trace := by
  obtain ⟨taken, p, followed, matched⟩ := matches_run run
  rw [← matched.recorded] at listed
  rw [← matched.emitted]
  exact Process.emitted_of_recorded followed (List.mem_append_left _ listed)

/-- Before the tick at which a row starts, its host was above the threshold of its vector, by the
records that exporters of the inventory had reported for it. -/
def Warranted (inv : Ingest.Inventory) (catalog : Catalog) (hostgroups : String → Option Int)
    (row : IncidentRow) (back : Trace ρ Packet) : Prop :=
  ∃ t, catalog.lookupByVector row.hostIP row.vector = some t ∧
    row.hostgroupID = hostgroups t.hostgroupName ∧
    let window := inWindow (history back) row.hostIP row.startedAt.unix (seconds t)
    Exceeds t (seconds t) (packetsIn window % 2 ^ 64) (bytesIn window % 2 ^ 64) ∧
      window ≤ (reported back).filter (fun r => r.dstIP = row.hostIP) ∧
      ∀ r ∈ window, ∃ sampler exp, inv.lookup sampler = some exp ∧ r.exporter = exp.sourceIP

/-- Whatever the goroutines' pace and whatever is lost, a new row starts at a tick at which it was
warranted. -/
theorem incident_traffic (inv : Ingest.Inventory) (defaultNumShards numCPU : Int)
    {catalog : Catalog} (checked : catalog.Checked) (rnd : ρ) (db : Database)
    {trace : Trace ρ Packet} {final : Pipeline ρ}
    (run : Run (step newULID pp) (start inv defaultNumShards numCPU catalog rnd db) trace final)
    {id : String} {row : IncidentRow} (found : final.db.incidents.lookup id = some row)
    (absent : id ∉ db.incidents) :
    ∃ front entry back ev, trace = front ++ entry :: back ∧
      entry.output = .evaluated row.hostIP row.startedAt (some ev) ∧
      Warranted inv catalog db.hostgroups row back := by
  obtain ⟨ev, listed, started, origin⟩ := (rooted_run run).rows id row found absent
  obtain ⟨entry, member, output⟩ := Run.mem_collect.mp (emitted_of_stored run listed)
  obtain ⟨front, back, rfl⟩ := List.append_of_mem member
  obtain ⟨past, next, stepped, -⟩ := run.cut
  obtain ⟨store, rows, -, balance, reporters⟩ := conserved_run past
  obtain ⟨s, action, seen⟩ := entry
  cases step_cases stepped with
  | @evalHost now h rest engine produced evaluating evaluated =>
      obtain rfl : produced = some ev := output
      obtain ⟨j, judged, violating, host, vector, hostgroup, start⟩ :=
        Engine.evalHost_started evaluated started
      dsimp only at judged
      rw [store, rows] at judged
      obtain ⟨_, _, -, -, known, -⟩ := judge_eq_some.mp judged
      have positive := (lookup_checked checked known).1
      have exceeds := (judged_exceeds _ judged positive).mp violating
      simp only [IncidentRow.origin, originOf, Prod.mk.injEq] at origin
      obtain ⟨rowHost, rowVector, rowGroup, rowStart⟩ := origin
      rw [host] at rowHost
      rw [vector] at rowVector
      rw [hostgroup] at rowGroup
      rw [start] at rowStart
      have short : seconds j.threshold ≤ 60 := by
        unfold seconds windowSize
        omega
      have window : inWindow (history back) h.ip now.unix (seconds j.threshold) ≤
          (reported back).filter fun r => r.dstIP = h.ip := by
        calc _ ≤ appliedTo (history back) h.ip := inWindow_le_appliedTo _ _ _ short
          _ = (counted back).filter fun r => r.dstIP = h.ip := appliedTo_history back h.ip
          _ ≤ _ := Multiset.filter_le_filter _ ((Multiset.le_add_right ..).trans balance)
      refine ⟨front, _, back, ev, rfl, ?_, j.threshold, ?_, rowGroup, ?_⟩
      · rw [rowHost, rowStart]
      · rw [rowHost, rowVector]
        exact known
      · rw [rowHost, rowStart]
        refine ⟨exceeds, window, fun r inside => reporters r ?_⟩
        exact Multiset.mem_of_mem_filter (Multiset.mem_of_le window inside)
  | _ => contradiction

theorem incident_traffic_sample : ∃ (trace : Trace Nat Empty) (final : Pipeline Nat)
    (row : IncidentRow), final.db.incidents.lookup "0" = some row ∧
      ∃ front entry back ev, trace = front ++ entry :: back ∧
        entry.output = .evaluated row.hostIP row.startedAt (some ev) ∧
        Warranted Ingest.sampleInventory
          ⟨[sampleThreshold 1000 800 1 1], List.pairwise_singleton _ _⟩ (fun _ => none) row back := by
  obtain ⟨trace, final, row, run, found⟩ := sample_run
  refine ⟨trace, final, row, found, ?_⟩
  apply incident_traffic Ingest.sampleInventory 1 1 ?_ 0 Process.emptyDatabase run found ?_
  · intro t member
    rw [List.mem_singleton.mp member]
    decide
  · exact AList.notMem_empty _

end Pipeline

end Mitigador.Serve
