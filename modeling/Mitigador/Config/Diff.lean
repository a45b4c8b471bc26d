import Mitigador.Config.Merge

/-! What the counts of a sync say of its rows. Each turn compares what its SELECT has shown with the
entry, and a SELECT does not show every column as it is. -/

namespace Mitigador.Config

open Lib

inductive Verdict
  | added
  | updated
  | unchanged
  deriving DecidableEq, Repr

namespace SyncCounts

def add (counts : SyncCounts) : Verdict → SyncCounts
  | .added => { counts with added := counts.added + 1 }
  | .updated => { counts with updated := counts.updated + 1 }
  | .unchanged => { counts with unchanged := counts.unchanged + 1 }

def total (counts : SyncCounts) : Nat := counts.added + counts.updated + counts.unchanged

theorem total_add (counts : SyncCounts) (verdict : Verdict) :
    (counts.add verdict).total = counts.total + 1 := by
  cases verdict <;> simp only [add, total] <;> omega

theorem add_inj {counts : SyncCounts} {verdict other : Verdict} :
    counts.add verdict = counts.add other ↔ verdict = other := by
  cases verdict <;> cases other <;> simp [add]

end SyncCounts

namespace Verdict

variable {ν : Type}

def ofRows [DecidableEq ν] (before : Option ν) (after : ν) : Verdict :=
  match before with
  | none => .added
  | some old => if old = after then .unchanged else .updated

def ofShown (changed : ν → Bool) : Option ν → Verdict
  | none => .added
  | some old => if changed old then .updated else .unchanged

/-- A comparison that sees no more than is there is right where it misses nothing. -/
theorem ofShown_eq_iff [DecidableEq ν] {before : Option ν} {after : ν} {changed : ν → Bool}
    (sees : ∀ old, changed old = true → old ≠ after) :
    ofShown changed before = ofRows before after ↔
      ∀ old, before = some old → ¬ (changed old = false ∧ old ≠ after) := by
  cases before with
  | none => simp [ofShown, ofRows]
  | some old =>
      cases seen : changed old with
      | true =>
          have different := sees old seen
          simp [ofShown, ofRows, seen, different]
      | false =>
          by_cases same : old = after
          · subst same
            simp [ofShown, ofRows, seen]
          · simp [ofShown, ofRows, seen, same]

end Verdict

variable {Inet Cidr : Type} [DecidableEq Inet] [DecidableEq Cidr]

/-- A loop of the sync: each of its turns writes the row of its entry, and counts the entry as the
rows before and after have it exactly where the change is not hidden. -/
structure Tells {ι κ ν α : Type} [DecidableEq κ] [DecidableEq ν]
    (body : α → ι → SyncProgram Inet Cidr α) (counts : α → SyncCounts)
    (row : ι → Option (κ × ν)) (look : Tables Inet Cidr → κ → Option ν) (hidden : ν → ν → Prop)
    (items : List ι) (zero sum : α) (start finish : Work (Tables Inet Cidr)) : Prop where
  ran : items.foldlM body zero start = (.ok sum, finish)
  total : (counts sum).total = items.length
  each : ∀ front item back, items = front ++ item :: back →
    ∃ past before next after key value, front.foldlM body zero start = (.ok past, before) ∧
      body past item before = (.ok next, after) ∧ row item = some (key, value) ∧
      look after.copy = Function.update (look before.copy) key (some value) ∧
      (counts next = (counts past).add (.ofRows (look before.copy key) value) ↔
        ∀ old, look before.copy key = some old → ¬ hidden old value)

def selectRow {γ ν : Type} (view : ν → γ) : Option ν → Except DbError γ
  | none => .error .noRows
  | some old => .ok (view old)

section Turns

variable {casts : Casts Inet Cidr} {fails : Nat → Option DbError} {nextID : Nat → Int}
  {before after : Work (Tables Inet Cidr)}

theorem count_verdict {γ ν : Type} {counts next : SyncCounts} {row : String} {changed : γ → Bool}
    {stored : Option ν} {view : ν → γ}
    (ran : (counts.count row changed (selectRow view stored) : SyncProgram Inet Cidr _) before =
      (.ok next, after)) :
    next = counts.add (.ofShown (fun old => changed (view old)) stored) := by
  cases stored with
  | none =>
      cases ran
      rfl
  | some old =>
      change (if changed (view old) then pure { counts with updated := counts.updated + 1 }
        else pure { counts with unchanged := counts.unchanged + 1 } :
          SyncProgram Inet Cidr SyncCounts) before = _ at ran
      cases seen : changed (view old) with
      | true =>
          rw [seen, if_pos rfl] at ran
          cases ran
          simp [Verdict.ofShown, seen, SyncCounts.add]
      | false =>
          rw [seen, if_neg Bool.false_ne_true] at ran
          cases ran
          simp [Verdict.ofShown, seen, SyncCounts.add]

theorem count_selected {γ ν : Type} {row : String} {select : Tables Inet Cidr → Except DbError γ}
    {selected : Except DbError γ} {changed : γ → Bool} {counts next : SyncCounts}
    {stored : Option ν} {view : ν → γ} {middle later : Work (Tables Inet Cidr)}
    (driver : ∀ number, fails number ≠ some .noRows)
    (shown : select before.copy = selectRow view stored)
    (first : (Program.query fails select : SyncProgram Inet Cidr _) before = (.ok selected, middle))
    (ran : counts.count row changed selected later = (.ok next, after)) :
    next = counts.add (.ofShown (fun old => changed (view old)) stored) := by
  have answer : selected = selectRow view stored := by
    rw [← shown]
    cases selected with
    | ok existing => exact ((Program.query_eq_ok first).2 existing rfl).symm
    | error cause =>
        rcases Program.query_eq_error first with failed | refused
        · -- a failed request is no `noRows`, and on another report the turn has not ended well
          cases cause with
          | noRows => exact absurd failed (driver _)
          | invalidInput | outOfRange | violates | lost => cases ran
        · exact refused.symm
  rw [answer] at ran
  exact count_verdict ran

theorem upsertRow_verdict {γ ν : Type} {row : String} {select : Tables Inet Cidr → Except DbError γ}
    {upsert : Tables Inet Cidr → Except DbError (Tables Inet Cidr)} {changed : γ → Bool}
    {counts next : SyncCounts} {stored : Option ν} {view : ν → γ}
    (driver : ∀ number, fails number ≠ some .noRows)
    (shown : select before.copy = selectRow view stored)
    (ran : upsertRow fails row select upsert changed counts before = (.ok next, after)) :
    next = counts.add (.ofShown (fun old => changed (view old)) stored) := by
  obtain ⟨middle, selected, first, ran⟩ := Program.bind_eq_ok ran
  obtain ⟨later, upserted, second, ran⟩ := Program.bind_eq_ok ran
  cases upserted with
  | error cause => cases ran
  | ok => exact count_selected driver shown first ran

theorem syncHostgroup_verdict {state next : SyncCounts × KeyedMap String Int} {h : HostgroupEntry}
    (driver : ∀ number, fails number ≠ some .noRows)
    (ran : syncHostgroup casts fails nextID state h before = (.ok next, after)) :
    next.1 = state.1.add (.ofShown (fun old => decide (old.2.getD "" ≠ h.description))
      (before.copy.hostgroup h.name)) := by
  have shown : before.copy.selectHostgroup h.name =
      selectRow (fun g => (g.id, g.description.getD "")) (before.copy.hostgroups.lookup h.name) := by
    unfold Tables.selectHostgroup
    cases before.copy.hostgroups.lookup h.name <;> simp [selectRow]
  obtain ⟨middle, selected, first, ran⟩ := Program.bind_eq_ok ran
  obtain ⟨later, upserted, second, ran⟩ := Program.bind_eq_ok ran
  cases upserted with
  | error cause => cases ran
  | ok upsertID =>
      obtain ⟨last, counts, third, ran⟩ := Program.bind_eq_ok ran
      have counted := count_selected driver shown first third
      have taken : next.1 = counts := by
        cases selected <;> cases ran <;> rfl
      rw [taken, counted, Tables.hostgroup]
      cases before.copy.hostgroups.lookup h.name <;> rfl

end Turns

section Loop

variable {ι κ ν α : Type} [DecidableEq κ] [DecidableEq ν]
  {body : α → ι → SyncProgram Inet Cidr α} {counts : α → SyncCounts}
  {row : ι → Option (κ × ν)} {look : Tables Inet Cidr → κ → Option ν} {hidden : ν → ν → Prop}
  (keeps : α → Tables Inet Cidr → Prop)
  (turn : ∀ sum item next before after, keeps sum before.copy →
    body sum item before = (.ok next, after) → keeps next after.copy ∧
      ∃ key value verdict, row item = some (key, value) ∧
        look after.copy = Function.update (look before.copy) key (some value) ∧
        counts next = (counts sum).add verdict ∧
        (verdict = .ofRows (look before.copy key) value ↔
          ∀ old, look before.copy key = some old → ¬ hidden old value))
  {items : List ι} {zero sum : α} {start finish : Work (Tables Inet Cidr)}
  (kept : keeps zero start.copy) (fresh : (counts zero).total = 0)
  (ran : items.foldlM body zero start = (.ok sum, finish))

include turn kept fresh ran

theorem counted_of_turns : keeps sum finish.copy ∧ (counts sum).total = items.length := by
  let counted (done : List ι) (sum : α) (copy : Tables Inet Cidr) : Prop :=
    keeps sum copy ∧ (counts sum).total = done.length
  have none : counted [] zero start.copy := ⟨kept, fresh⟩
  refine Program.foldlM_eq_ok counted ?_ none ran
  rintro done item sum next before after ⟨keeping, past⟩ turned
  obtain ⟨keeps, key, value, verdict, -, -, added, -⟩ :=
    turn sum item next before after keeping turned
  refine ⟨keeps, ?_⟩
  rw [added, SyncCounts.total_add, past, List.length_append]
  rfl

theorem tells_of_turns : Tells body counts row look hidden items zero sum start finish where
  ran := ran
  total := (counted_of_turns keeps turn kept fresh ran).2
  each := by
    rintro front item back rfl
    obtain ⟨past, before, next, after, earlier, turned⟩ := Program.foldlM_split ran
    obtain ⟨keeping, -⟩ := counted_of_turns keeps turn kept fresh earlier
    obtain ⟨-, key, value, verdict, proposed, written, added, truth⟩ :=
      turn past item next before after keeping turned
    refine ⟨past, before, next, after, key, value, earlier, turned, proposed, written, ?_⟩
    rw [added, SyncCounts.add_inj]
    exact truth

end Loop

/-! The changes that a comparison does not see: `COALESCE` shows NULL as an empty text, and that of
the hostgroups looks at no prefix. -/

def hiddenExporter (old value : ExporterRow) : Prop :=
  old.type = value.type ∧ old.sampleRateOverride = value.sampleRateOverride ∧
    old.description = none ∧ value.description = some ""

def hiddenHostgroup (old value : Cidr × Option String) : Prop :=
  old.2.getD "" = value.2.getD "" ∧ (old.1 ≠ value.1 ∨ old.2 = none)

def hiddenReason (old value : Option String) : Prop := old = none ∧ value = some ""

omit [DecidableEq Inet] [DecidableEq Cidr] in
theorem ExporterEntry.row_spec {casts : Casts Inet Cidr} {e : ExporterEntry} {ip : Inet}
    {row : ExporterRow} (proposed : e.row casts = some (ip, row)) :
    casts.inet e.sourceIP = some ip ∧ row.type = e.type ∧
      row.sampleRateOverride = e.sampleRateOverride ∧ row.description = some e.description := by
  unfold ExporterEntry.row excludedExporter at proposed
  split at proposed
  · split at proposed
    · contradiction
    · next ip cast =>
        split at proposed
        · cases proposed
          exact ⟨cast, rfl, rfl, rfl⟩
        · contradiction
  · contradiction

theorem excludedThreshold_eq_ok {pps bps window grace : Int} {row : ThresholdRow}
    (proposed : excludedThreshold pps bps window grace = .ok row) :
    row.pps = pps ∧ row.bps = bps ∧ row.minWindowSec = window ∧ row.graceSec = grace := by
  unfold excludedThreshold at proposed
  split_ifs at proposed
  cases proposed
  exact ⟨rfl, rfl, rfl, rfl⟩

theorem ThresholdEntry.row_spec {t : ThresholdEntry} {key : String × String} {row : ThresholdRow}
    (proposed : t.row = some (key, row)) : row.pps = t.pps ∧ row.bps = t.bps ∧
      row.minWindowSec = t.minWindowSec ∧ row.graceSec = t.graceSec := by
  unfold ThresholdEntry.row at proposed
  split at proposed
  · obtain ⟨same, excluded, equal⟩ := Option.map_eq_some_iff.mp proposed
    obtain ⟨-, rfl⟩ := Prod.mk.inj equal
    cases made : excludedThreshold t.pps t.bps t.minWindowSec t.graceSec with
    | error cause =>
        rw [made] at excluded
        contradiction
    | ok known =>
        rw [made] at excluded
        cases excluded
        exact excludedThreshold_eq_ok made
  · contradiction

theorem getD_empty {shown : String} {text : Option String} :
    text.getD "" = shown ∧ text ≠ some shown ↔ text = none ∧ shown = "" := by
  cases text with
  | none => simp [eq_comm]
  | some stored => simp

theorem hiddenExporter_iff {type description : String} {rate : Int} {old row : ExporterRow}
    (sameType : row.type = type) (sameRate : row.sampleRateOverride = rate)
    (sameDescription : row.description = some description) :
    (old.type ≠ type || old.sampleRateOverride ≠ rate || old.description.getD "" ≠ description)
        = false ∧ old ≠ row ↔ hiddenExporter old row := by
  have apart : old ≠ row ↔ ¬ (old.type = row.type ∧
      old.sampleRateOverride = row.sampleRateOverride ∧ old.description = row.description) := by
    cases old
    cases row
    simp
  have hides := @getD_empty description old.description
  rw [apart, sameType, sameRate, sameDescription, hiddenExporter, sameType, sameRate,
    sameDescription]
  simp only [Bool.or_eq_false_iff, decide_eq_false_iff_not, not_not, Option.some.injEq]
  grind

section Loops

variable {casts : Casts Inet Cidr} {fails : Nat → Option DbError} {nextID : Nat → Int}
  {start finish : Work (Tables Inet Cidr)}

def noCounts : SyncCounts := ⟨0, 0, 0⟩

theorem exporters_tell (driver : ∀ number, fails number ≠ some .noRows)
    {entries : List ExporterEntry} {sum : SyncCounts}
    (ran : entries.foldlM (syncExporter casts fails) noCounts start = (.ok sum, finish)) :
    Tells (syncExporter casts fails) id (ExporterEntry.row casts)
      (fun t => t.exporters.lookup) hiddenExporter entries noCounts sum start finish := by
  refine tells_of_turns (fun _ _ => True) ?_ trivial rfl ran
  intro past e next before after _ turned
  obtain ⟨-, ip, row, proposed, written⟩ := syncExporter_eq_ok turned
  obtain ⟨cast, type, rate, description⟩ := ExporterEntry.row_spec proposed
  have shown : before.copy.selectExporter casts e.sourceIP =
      selectRow (fun old => (old.type, old.sampleRateOverride, old.description.getD ""))
        (before.copy.exporters.lookup ip) := by
    unfold Tables.selectExporter
    rw [cast]
    cases known : before.copy.exporters.lookup ip <;> simp [selectRow, known]
  refine ⟨trivial, ip, row, _, proposed, congrArg View.exporters written,
    upsertRow_verdict driver shown turned, ?_⟩
  rw [Verdict.ofShown_eq_iff]
  · exact forall₂_congr fun old _ => not_congr (hiddenExporter_iff type rate description)
  · rintro old changed rfl
    simp [type, rate, description] at changed

theorem hostgroups_tell (driver : ∀ number, fails number ≠ some .noRows)
    {entries : List HostgroupEntry} {sum : SyncCounts × KeyedMap String Int}
    (ran : entries.foldlM (syncHostgroup casts fails nextID) (noCounts, ∅) start =
      (.ok sum, finish)) :
    Tells (syncHostgroup casts fails nextID) Prod.fst (HostgroupEntry.row casts) Tables.hostgroup
      hiddenHostgroup entries (noCounts, ∅) sum start finish := by
  have none : Named start.copy ∅ start.copy := by
    refine ⟨fun name id known => ?_, fun _ _ => id⟩
    rw [AList.lookup_empty] at known
    contradiction
  refine tells_of_turns (fun state t => Named start.copy state.2 t) ?_ none rfl ran
  intro past h next before after named turned
  obtain ⟨kept, name, columns, proposed, written⟩ := syncHostgroup_eq_ok named turned
  have verdict := syncHostgroup_verdict driver turned
  obtain ⟨block, cast, same⟩ := Option.map_eq_some_iff.mp proposed
  obtain ⟨rfl, rfl⟩ := Prod.mk.inj same
  refine ⟨kept, h.name, _, _, proposed, congrArg View.hostgroups written, verdict, ?_⟩
  rw [Verdict.ofShown_eq_iff]
  · refine forall₂_congr fun old _ => not_congr ?_
    obtain ⟨cidr, description⟩ := old
    cases description <;> simp [hiddenHostgroup]
    grind
  · rintro old changed rfl
    simp at changed

theorem thresholds_tell (driver : ∀ number, fails number ≠ some .noRows)
    {ids : KeyedMap String Int} {entries : List ThresholdEntry} {sum : SyncCounts}
    (known : ∀ name id, ids.lookup name = some id → start.copy.Named name id)
    (ran : entries.foldlM (syncThreshold fails ids) noCounts start = (.ok sum, finish)) :
    Tells (syncThreshold fails ids) id ThresholdEntry.row Tables.threshold (fun _ _ => False)
      entries noCounts sum start finish := by
  refine tells_of_turns (fun _ t => t.hostgroups = start.copy.hostgroups) ?_ rfl rfl ran
  intro past t next before after kept turned
  have named : ∀ name id, ids.lookup name = some id → before.copy.Named name id := by
    intro name id found
    rw [Tables.Named, kept]
    exact known name id found
  obtain ⟨hostgroups, row, proposed, written⟩ := syncThreshold_eq_ok named turned
  obtain ⟨pps, bps, window, grace⟩ := ThresholdEntry.row_spec proposed
  obtain ⟨middle, id, first, ran⟩ := Program.bind_eq_ok turned
  obtain ⟨unread, g, found, rfl⟩ := hostgroupID_eq_ok named first
  have shown : middle.copy.selectThreshold g.id t.vector =
      selectRow (fun row => (row.pps, row.bps, row.minWindowSec, row.graceSec))
        (before.copy.threshold (t.hostgroup, t.vector)) := by
    rw [unread, Tables.selectThreshold, Tables.threshold, found, Option.bind_some]
    cases before.copy.thresholds.lookup (g.id, t.vector) <;> simp [selectRow]
  refine ⟨hostgroups.trans kept, _, row, _, proposed, congrArg View.thresholds written,
    upsertRow_verdict driver shown ran, ?_⟩
  rw [Verdict.ofShown_eq_iff]
  · refine forall₂_congr fun old _ => not_congr ?_
    rw [iff_false, ← pps, ← bps, ← window, ← grace]
    rintro ⟨same, different⟩
    apply different
    cases old
    cases row
    simpa [and_assoc] using same
  · rintro old changed rfl
    simp [pps, bps, window, grace] at changed

theorem alertChannels_tell (driver : ∀ number, fails number ≠ some .noRows)
    {entries : List AlertChannelEntry} {sum : SyncCounts}
    (ran : entries.foldlM (syncAlertChannel fails) noCounts start = (.ok sum, finish)) :
    Tells (syncAlertChannel fails) id AlertChannelEntry.row (fun t => t.alertChannels.lookup)
      (fun _ _ => False) entries noCounts sum start finish := by
  refine tells_of_turns (fun _ _ => True) ?_ trivial rfl ran
  intro past ch next before after _ turned
  obtain ⟨-, proposed, written⟩ := syncAlertChannel_eq_ok turned
  have shown : before.copy.selectAlertChannel ch.type ch.target =
      selectRow id (before.copy.alertChannels.lookup (ch.type, ch.target)) := by
    unfold Tables.selectAlertChannel
    cases before.copy.alertChannels.lookup (ch.type, ch.target) <;> simp [selectRow]
  refine ⟨trivial, _, _, _, proposed, congrArg View.alertChannels written,
    upsertRow_verdict driver shown turned, ?_⟩
  rw [Verdict.ofShown_eq_iff]
  · simp
  · rintro old changed rfl
    simp at changed

theorem whitelist_tell (driver : ∀ number, fails number ≠ some .noRows)
    {entries : List WhitelistEntry} {sum : SyncCounts}
    (ran : entries.foldlM (syncWhitelist casts fails) noCounts start = (.ok sum, finish)) :
    Tells (syncWhitelist casts fails) id (WhitelistEntry.row casts) (fun t => t.whitelist.lookup)
      hiddenReason entries noCounts sum start finish := by
  refine tells_of_turns (fun _ _ => True) ?_ trivial rfl ran
  intro past w next before after _ turned
  obtain ⟨-, block, reason, proposed, written⟩ := syncWhitelist_eq_ok turned
  obtain ⟨known, cast, same⟩ := Option.map_eq_some_iff.mp proposed
  obtain ⟨rfl, rfl⟩ := Prod.mk.inj same
  have shown : before.copy.selectWhitelist casts w.cidr =
      selectRow (fun old => old.getD "") (before.copy.whitelist.lookup known) := by
    unfold Tables.selectWhitelist
    rw [cast]
    cases found : before.copy.whitelist.lookup known <;> simp [selectRow, found]
  refine ⟨trivial, known, _, _, proposed, congrArg View.whitelist written,
    upsertRow_verdict driver shown turned, ?_⟩
  rw [Verdict.ofShown_eq_iff]
  · refine forall₂_congr fun old _ => not_congr ?_
    simpa [hiddenReason] using @getD_empty w.reason old
  · rintro old changed rfl
    simp at changed

/-- The five loops of a sync that succeeds, one after another from the stored tables to the final
ones: the counts of each add up to its entries, and each entry is counted as its change is, except
where the comparison does not see the change. -/
theorem sync_tells (driver : ∀ number, fails number ≠ some .noRows)
    {commit : CommitFault DbError} {stored final : Tables Inet Cidr} {d : Domain} {diff : SyncDiff}
    (ran : sync casts fails nextID commit stored (some d) = (final, .ok diff)) :
    ∃ (first second third fourth last : Work (Tables Inet Cidr)) (ids : KeyedMap String Int),
      Tells (syncExporter casts fails) id (ExporterEntry.row casts) (fun t => t.exporters.lookup)
        hiddenExporter d.exporters noCounts diff.exporters ⟨stored, 1⟩ first ∧
      Tells (syncHostgroup casts fails nextID) Prod.fst (HostgroupEntry.row casts) Tables.hostgroup
        hiddenHostgroup d.hostgroups (noCounts, ∅) (diff.hostgroups, ids) first second ∧
      Tells (syncThreshold fails ids) id ThresholdEntry.row Tables.threshold (fun _ _ => False)
        d.thresholds noCounts diff.thresholds second third ∧
      Tells (syncAlertChannel fails) id AlertChannelEntry.row (fun t => t.alertChannels.lookup)
        (fun _ _ => False) d.alertChannels noCounts diff.alertChannels third fourth ∧
      Tells (syncWhitelist casts fails) id (WhitelistEntry.row casts) (fun t => t.whitelist.lookup)
        hiddenReason d.whitelist noCounts diff.whitelist fourth last ∧
      last.copy = final := by
  obtain ⟨requests, ended⟩ := Program.program_of_ok ran
  obtain ⟨first, exporters, ranExporters, ended⟩ := Program.bind_eq_ok ended
  obtain ⟨second, ⟨hostgroups, ids⟩, ranHostgroups, ended⟩ := Program.bind_eq_ok ended
  obtain ⟨third, thresholds, ranThresholds, ended⟩ := Program.bind_eq_ok ended
  obtain ⟨fourth, channels, ranChannels, ended⟩ := Program.bind_eq_ok ended
  obtain ⟨last, whitelist, ranWhitelist, ended⟩ := Program.bind_eq_ok ended
  obtain ⟨rfl, rfl⟩ := Program.pure_eq_ok ended
  obtain ⟨⟨known, -⟩, -, -⟩ := hostgroups_laid ranHostgroups
  exact ⟨first, second, third, fourth, _, ids, exporters_tell driver ranExporters,
    hostgroups_tell driver ranHostgroups, thresholds_tell driver known ranThresholds,
    alertChannels_tell driver ranChannels, whitelist_tell driver ranWhitelist, rfl⟩

end Loops

theorem sync_tells_sample : ∃ (final : Tables String String) (first second : Work _)
    (ids : KeyedMap String Int),
    sync sampleCasts (fun _ => none) (fun number => number) .none storedTables (some laterDomain) =
      (final, .ok ⟨⟨1, 1, 0⟩, ⟨1, 0, 0⟩, ⟨1, 1, 0⟩, ⟨0, 0, 0⟩, ⟨1, 0, 0⟩⟩) ∧
    Tells (syncExporter sampleCasts (fun _ => none)) id (ExporterEntry.row sampleCasts)
      (fun t => t.exporters.lookup) hiddenExporter laterDomain.exporters noCounts ⟨1, 1, 0⟩
      ⟨storedTables, 1⟩ first ∧
    Tells (syncHostgroup sampleCasts (fun _ => none) (fun number => number)) Prod.fst
      (HostgroupEntry.row sampleCasts) Tables.hostgroup hiddenHostgroup laterDomain.hostgroups
      (noCounts, ∅) (⟨1, 0, 0⟩, ids) first second := by
  have observed : (sync sampleCasts (fun _ => none) (fun number => number) .none storedTables
      (some laterDomain)).2 = .ok ⟨⟨1, 1, 0⟩, ⟨1, 0, 0⟩, ⟨1, 1, 0⟩, ⟨0, 0, 0⟩, ⟨1, 0, 0⟩⟩ := by
    decide +kernel
  generalize ran : sync sampleCasts (fun _ => none) (fun number => number) .none storedTables
    (some laterDomain) = made at observed ⊢
  have succeeded : made = (made.1, .ok ⟨⟨1, 1, 0⟩, ⟨1, 0, 0⟩, ⟨1, 1, 0⟩, ⟨0, 0, 0⟩, ⟨1, 0, 0⟩⟩) :=
    Prod.ext rfl observed
  obtain ⟨first, second, -, -, -, ids, exporters, hostgroups, -⟩ :=
    sync_tells (fun _ => by simp) (ran.trans succeeded)
  exact ⟨made.1, first, second, ids, succeeded, exporters, hostgroups⟩

def movedDomain : Domain where
  exporters := []
  hostgroups := [⟨"corporate", "203.0.113.0/24", ""⟩]
  thresholds := []
  alertChannels := []
  whitelist := []

/-- The prefix of a hostgroup changes and the diff says that nothing has. -/
theorem moved_unchanged :
    let outcome :=
      sync sampleCasts (fun _ => none) (fun number => number) .none storedTables (some movedDomain)
    outcome.2.toOption = some ⟨noCounts, ⟨0, 0, 1⟩, noCounts, noCounts, noCounts⟩ ∧
      storedTables.hostgroup "corporate" = some ("192.0.2.0/24", some "") ∧
      outcome.1.hostgroup "corporate" = some ("203.0.113.0/24", some "") := by
  decide +kernel

end Mitigador.Config
