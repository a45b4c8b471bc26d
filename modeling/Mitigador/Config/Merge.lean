import Mitigador.Config.Domain
import Mitigador.Lib.Overlay

/-! What the config sync is for: the domain laid over what the operator sees of the tables. -/

namespace Mitigador.Config

open Lib

variable {Inet Cidr : Type} [DecidableEq Inet] [DecidableEq Cidr]

/-- The columns that an operator sees, under the keys by which a domain names the rows. -/
@[ext] structure View (Inet Cidr : Type) where
  exporters : Inet → Option ExporterRow
  hostgroups : String → Option (Cidr × Option String)
  thresholds : String × String → Option ThresholdRow
  alertChannels : String × String → Option Bool
  whitelist : Cidr → Option (Option String)

namespace Tables

def hostgroup (t : Tables Inet Cidr) (name : String) : Option (Cidr × Option String) :=
  (t.hostgroups.lookup name).map fun g => (g.cidr, g.description)

def threshold (t : Tables Inet Cidr) (key : String × String) : Option ThresholdRow :=
  (t.hostgroups.lookup key.1).bind fun g => t.thresholds.lookup (g.id, key.2)

def view (t : Tables Inet Cidr) : View Inet Cidr where
  exporters := t.exporters.lookup
  hostgroups := t.hostgroup
  thresholds := t.threshold
  alertChannels := t.alertChannels.lookup
  whitelist := t.whitelist.lookup

end Tables

/-! The rows that the entries of a domain ask for; `none` is an entry that no table takes. -/

def ExporterEntry.row (casts : Casts Inet Cidr) (e : ExporterEntry) : Option (Inet × ExporterRow) :=
  (excludedExporter casts e.sourceIP e.type e.sampleRateOverride e.description).toOption

def HostgroupEntry.row (casts : Casts Inet Cidr) (h : HostgroupEntry) :
    Option (String × Cidr × Option String) :=
  (casts.cidr h.cidr).map fun block => (h.name, block, some h.description)

def ThresholdEntry.row (t : ThresholdEntry) : Option ((String × String) × ThresholdRow) :=
  if t.vector ∈ vectors then
    (excludedThreshold t.pps t.bps t.minWindowSec t.graceSec).toOption.map fun row =>
      ((t.hostgroup, t.vector), row)
  else none

def AlertChannelEntry.row (ch : AlertChannelEntry) : Option ((String × String) × Bool) :=
  if ch.type ∈ channelTypes then some ((ch.type, ch.target), ch.enabled) else none

def WhitelistEntry.row (casts : Casts Inet Cidr) (w : WhitelistEntry) :
    Option (Cidr × Option String) :=
  (casts.cidr w.cidr).map fun block => (block, some w.reason)

namespace Domain

variable (casts : Casts Inet Cidr) (d : Domain)

def merge (seen : View Inet Cidr) : View Inet Cidr where
  exporters := overlay (d.exporters.filterMap (ExporterEntry.row casts)) seen.exporters
  hostgroups := overlay (d.hostgroups.filterMap (HostgroupEntry.row casts)) seen.hostgroups
  thresholds := overlay (d.thresholds.filterMap ThresholdEntry.row) seen.thresholds
  alertChannels := overlay (d.alertChannels.filterMap AlertChannelEntry.row) seen.alertChannels
  whitelist := overlay (d.whitelist.filterMap (WhitelistEntry.row casts)) seen.whitelist

structure Valid : Prop where
  exporters : ∀ e ∈ d.exporters, (e.row casts).isSome
  hostgroups : ∀ h ∈ d.hostgroups, (h.row casts).isSome
  thresholds : ∀ t ∈ d.thresholds, t.row.isSome
  alertChannels : ∀ ch ∈ d.alertChannels, ch.row.isSome
  whitelist : ∀ w ∈ d.whitelist, (w.row casts).isSome

end Domain

def Tables.Named (t : Tables Inet Cidr) (name : String) (id : Int) : Prop :=
  ∃ g, t.hostgroups.lookup name = some g ∧ g.id = id

section Hostgroups

variable {t changed : Tables Inet Cidr} {name : String} {g : HostgroupRow Cidr}
  (same : ∀ h, t.hostgroups.lookup name = some h → h.id = g.id)
  (own : ∀ other h, t.hostgroups.lookup other = some h → h.id = g.id → other = name)

theorem putHostgroup_named : (t.putHostgroup name g same own).Named name g.id :=
  ⟨g, AList.lookup_insert _, rfl⟩

theorem putHostgroup_kept {other : String} {id : Int} (named : t.Named other id) :
    (t.putHostgroup name g same own).Named other id := by
  obtain ⟨h, found, rfl⟩ := named
  by_cases here : other = name
  · subst here
    exact ⟨g, AList.lookup_insert _, (same h found).symm⟩
  · exact ⟨h, (AList.lookup_insert_ne here).trans found, rfl⟩

theorem putHostgroup_threshold : (t.putHostgroup name g same own).threshold = t.threshold := by
  funext ⟨other, v⟩
  simp only [Tables.threshold, Tables.putHostgroup, KeyedMap.lookup_insert]
  split
  · next here =>
      subst here
      cases found : t.hostgroups.lookup other with
      | some h => rw [Option.bind_some, Option.bind_some, same h found]
      | none =>
          rw [Option.bind_some, Option.bind_none, AList.lookup_eq_none]
          intro member
          obtain ⟨owner, h, known, equal⟩ := t.references (g.id, v) member
          rw [own owner h known equal, found] at known
          contradiction
  · rfl

theorem putHostgroup_view : (t.putHostgroup name g same own).view = { t.view with
    hostgroups := Function.update t.view.hostgroups name (some (g.cidr, g.description)) } := by
  refine View.ext rfl ?_ (putHostgroup_threshold same own) rfl rfl
  funext other
  simp only [Tables.view, Tables.hostgroup, Tables.putHostgroup, KeyedMap.lookup_insert,
    Function.update_apply]
  split <;> rfl

omit same own in
theorem upsertHostgroup_eq_ok {casts : Casts Inet Cidr} {nextID id : Int}
    {cidr description : String}
    (ran : t.upsertHostgroup casts nextID name cidr description = .ok (id, changed)) :
    changed.Named name id ∧ (∀ other id, t.Named other id → changed.Named other id) ∧
      ∃ block, casts.cidr cidr = some block ∧ changed.view = { t.view with
        hostgroups := Function.update t.view.hostgroups name (some (block, some description)) } := by
  unfold Tables.upsertHostgroup at ran
  split at ran
  · contradiction
  · next block cast =>
      split at ran
      · next h found =>
          obtain ⟨rfl, rfl⟩ := Prod.mk.inj (Except.ok.inj ran)
          exact ⟨putHostgroup_named .., fun other id => putHostgroup_kept _ _, block, cast,
            putHostgroup_view ..⟩
      · split at ran
        · obtain ⟨rfl, rfl⟩ := Prod.mk.inj (Except.ok.inj ran)
          exact ⟨putHostgroup_named .., fun other id => putHostgroup_kept _ _, block, cast,
            putHostgroup_view ..⟩
        · contradiction

end Hostgroups

section Turns

variable {casts : Casts Inet Cidr} {fails : Nat → Option DbError} {nextID : Nat → Int}
  {before after : Work (Tables Inet Cidr)}

theorem count_eq_ok {γ : Type} {counts next : SyncCounts} {row : String} {changed : γ → Bool}
    {selected : Except DbError γ}
    (ran : counts.count row changed selected before = (.ok next, after)) :
    after.copy = before.copy ∧
      (selected = .error .noRows ∨ ∃ existing, selected = .ok existing) := by
  unfold SyncCounts.count at ran
  split at ran
  · cases ran
    exact ⟨rfl, .inl rfl⟩
  · cases ran
  · next existing =>
      split at ran
      · cases ran
        exact ⟨rfl, .inr ⟨existing, rfl⟩⟩
      · cases ran
        exact ⟨rfl, .inr ⟨existing, rfl⟩⟩

theorem upsertRow_eq_ok {γ : Type} {row : String} {select : Tables Inet Cidr → Except DbError γ}
    {upsert : Tables Inet Cidr → Except DbError (Tables Inet Cidr)} {changed : γ → Bool}
    {counts next : SyncCounts}
    (ran : upsertRow fails row select upsert changed counts before = (.ok next, after)) :
    upsert before.copy = .ok after.copy := by
  obtain ⟨middle, selected, first, ran⟩ := Program.bind_eq_ok ran
  obtain ⟨later, upserted, second, ran⟩ := Program.bind_eq_ok ran
  obtain ⟨unread, -⟩ := Program.query_eq_ok first
  cases upserted with
  | error cause => cases ran
  | ok =>
      obtain ⟨uncounted, -⟩ := count_eq_ok ran
      rw [uncounted, ← unread]
      exact Program.exec_eq_ok second

theorem syncExporter_eq_ok {counts next : SyncCounts} {e : ExporterEntry}
    (ran : syncExporter casts fails counts e before = (.ok next, after)) :
    after.copy.hostgroups = before.copy.hostgroups ∧ ∃ ip row, e.row casts = some (ip, row) ∧
      after.copy.view = { before.copy.view with
        exporters := Function.update before.copy.view.exporters ip (some row) } := by
  have written := upsertRow_eq_ok ran
  unfold Tables.upsertExporter at written
  unfold ExporterEntry.row
  cases proposed : excludedExporter casts e.sourceIP e.type e.sampleRateOverride e.description with
  | error cause =>
      rw [proposed] at written
      contradiction
  | ok entry =>
      obtain ⟨ip, row⟩ := entry
      rw [proposed] at written
      have copy := Except.ok.inj written
      rw [← copy]
      exact ⟨rfl, ip, row, rfl,
        View.ext (KeyedMap.lookup_insert_eq_update ..) rfl rfl rfl rfl⟩

theorem syncAlertChannel_eq_ok {counts next : SyncCounts} {ch : AlertChannelEntry}
    (ran : (syncAlertChannel fails counts ch : SyncProgram Inet Cidr _) before =
      (.ok next, after)) :
    after.copy.hostgroups = before.copy.hostgroups ∧
      ch.row = some ((ch.type, ch.target), ch.enabled) ∧
      after.copy.view = { before.copy.view with
        alertChannels := Function.update before.copy.view.alertChannels (ch.type, ch.target)
          (some ch.enabled) } := by
  have written := upsertRow_eq_ok ran
  unfold Tables.upsertAlertChannel at written
  split at written
  · next known =>
      rw [← Except.ok.inj written]
      exact ⟨rfl, if_pos known, View.ext rfl rfl rfl (KeyedMap.lookup_insert_eq_update ..) rfl⟩
  · contradiction

theorem syncWhitelist_eq_ok {counts next : SyncCounts} {w : WhitelistEntry}
    (ran : syncWhitelist casts fails counts w before = (.ok next, after)) :
    after.copy.hostgroups = before.copy.hostgroups ∧ ∃ block reason,
      w.row casts = some (block, reason) ∧
      after.copy.view = { before.copy.view with
        whitelist := Function.update before.copy.view.whitelist block (some reason) } := by
  have written := upsertRow_eq_ok ran
  unfold Tables.upsertWhitelist at written
  unfold WhitelistEntry.row
  split at written
  · contradiction
  · next block cast =>
      rw [← Except.ok.inj written]
      exact ⟨rfl, block, some w.reason, by rw [cast]; rfl,
        View.ext rfl rfl rfl rfl (KeyedMap.lookup_insert_eq_update ..)⟩

theorem threshold_insert {t changed : Tables Inet Cidr} {name vector : String} {id : Int}
    {row : ThresholdRow} (named : t.Named name id)
    (hostgroups : changed.hostgroups = t.hostgroups)
    (thresholds : changed.thresholds = t.thresholds.insert (id, vector) row) :
    changed.threshold = Function.update t.threshold (name, vector) (some row) := by
  obtain ⟨g, found, rfl⟩ := named
  funext ⟨other, v⟩
  simp only [Tables.threshold, hostgroups, thresholds, Function.update_apply, Prod.mk.injEq]
  by_cases here : other = name
  · subst here
    rw [found, Option.bind_some, Option.bind_some, KeyedMap.lookup_insert]
    simp
  · rw [if_neg fun both => here both.1]
    cases known : t.hostgroups.lookup other with
    | none => rfl
    | some h =>
        have apart : h.id ≠ g.id := fun equal => here (t.primaryKey other name h g known found equal)
        rw [Option.bind_some, Option.bind_some, KeyedMap.lookup_insert,
          if_neg fun equal => apart (congrArg Prod.fst equal)]

theorem hostgroupID_eq_ok {ids : KeyedMap String Int} {name : String} {id : Int}
    (known : ∀ name id, ids.lookup name = some id → before.copy.Named name id)
    (ran : hostgroupID fails ids name before = (.ok id, after)) :
    after.copy = before.copy ∧ before.copy.Named name id := by
  unfold hostgroupID at ran
  cases found : ids.lookup name with
  | some own =>
      rw [found] at ran
      cases ran
      exact ⟨rfl, known name id found⟩
  | none =>
      rw [found] at ran
      obtain ⟨middle, answer, first, ran⟩ := Program.bind_eq_ok ran
      obtain ⟨unread, reads⟩ := Program.query_eq_ok first
      cases answer with
      | error cause => cases ran
      | ok stored =>
          cases ran
          have selected := reads id rfl
          unfold Tables.selectHostgroupID at selected
          split at selected
          · contradiction
          · next g listed => exact ⟨unread, g, listed, Except.ok.inj selected⟩

theorem syncThreshold_eq_ok {ids : KeyedMap String Int} {counts next : SyncCounts}
    {t : ThresholdEntry} (known : ∀ name id, ids.lookup name = some id → before.copy.Named name id)
    (ran : syncThreshold fails ids counts t before = (.ok next, after)) :
    after.copy.hostgroups = before.copy.hostgroups ∧ ∃ row,
      t.row = some ((t.hostgroup, t.vector), row) ∧
      after.copy.view = { before.copy.view with
        thresholds := Function.update before.copy.view.thresholds (t.hostgroup, t.vector)
          (some row) } := by
  obtain ⟨middle, id, first, ran⟩ := Program.bind_eq_ok ran
  obtain ⟨unread, named⟩ := hostgroupID_eq_ok known first
  have written := upsertRow_eq_ok ran
  rw [unread] at written
  unfold Tables.upsertThreshold at written
  unfold ThresholdEntry.row
  cases proposed : excludedThreshold t.pps t.bps t.minWindowSec t.graceSec with
  | error cause =>
      rw [proposed] at written
      contradiction
  | ok row =>
      rw [proposed] at written
      dsimp only at written
      split at written
      · next listed =>
          split at written
          · have copy := Except.ok.inj written
            have attached : after.copy.threshold = Function.update before.copy.threshold
                (t.hostgroup, t.vector) (some row) :=
              threshold_insert named (by rw [← copy]) (by rw [← copy])
            rw [← copy] at attached ⊢
            refine ⟨rfl, row, ?_, View.ext rfl rfl attached rfl rfl⟩
            rw [if_pos listed]
            rfl
          · contradiction
      · contradiction

def Named (start : Tables Inet Cidr) (ids : KeyedMap String Int) (t : Tables Inet Cidr) : Prop :=
  (∀ name id, ids.lookup name = some id → t.Named name id) ∧
    ∀ name id, start.Named name id → t.Named name id

theorem syncHostgroup_eq_ok {start : Tables Inet Cidr}
    {state next : SyncCounts × KeyedMap String Int} {h : HostgroupEntry}
    (named : Named start state.2 before.copy)
    (ran : syncHostgroup casts fails nextID state h before = (.ok next, after)) :
    Named start next.2 after.copy ∧ ∃ name columns, h.row casts = some (name, columns) ∧
      after.copy.view = { before.copy.view with
        hostgroups := Function.update before.copy.view.hostgroups name (some columns) } := by
  obtain ⟨middle, selected, first, ran⟩ := Program.bind_eq_ok ran
  obtain ⟨later, upserted, second, ran⟩ := Program.bind_eq_ok ran
  obtain ⟨unread, reads⟩ := Program.query_eq_ok first
  cases upserted with
  | error cause => cases ran
  | ok upsertID =>
      obtain ⟨last, counts, third, ran⟩ := Program.bind_eq_ok ran
      obtain ⟨uncounted, outcome⟩ := count_eq_ok third
      have written := Program.request_eq_ok second
      rw [unread] at written
      obtain ⟨own, kept, block, cast, view⟩ := upsertHostgroup_eq_ok written
      have taken : ∃ id, next.2 = state.2.insert h.name id ∧ after = last ∧
          later.copy.Named h.name id := by
        cases selected with
        | error cause =>
            cases ran
            exact ⟨upsertID, rfl, rfl, own⟩
        | ok existing =>
            cases ran
            refine ⟨existing.1, rfl, rfl, kept h.name existing.1 ?_⟩
            have read := reads existing rfl
            unfold Tables.selectHostgroup at read
            split at read
            · contradiction
            · next g found =>
                rw [← Except.ok.inj read]
                exact ⟨g, found, rfl⟩
      obtain ⟨id, ids, rfl, mine⟩ := taken
      rw [uncounted]
      refine ⟨⟨?_, fun name id stored => kept name id (named.2 name id stored)⟩, h.name,
        (block, some h.description), by rw [HostgroupEntry.row, cast]; rfl, view⟩
      intro name other known
      rw [ids, KeyedMap.lookup_insert] at known
      split at known
      · next here =>
          cases known
          rw [here]
          exact mine
      · exact kept name other (named.1 name other known)

theorem exporters_laid {entries : List ExporterEntry} {counts next : SyncCounts}
    (ran : entries.foldlM (syncExporter casts fails) counts before = (.ok next, after)) :
    after.copy.hostgroups = before.copy.hostgroups ∧ (∀ e ∈ entries, (e.row casts).isSome) ∧
      after.copy.view = { before.copy.view with
        exporters := overlay (entries.filterMap (ExporterEntry.row casts))
          before.copy.view.exporters } := by
  refine Program.foldlM_overlay (fun _ t => t.hostgroups = before.copy.hostgroups) Tables.view
    (fun seen => { before.copy.view with exporters := seen }) (ExporterEntry.row casts) ?_ rfl rfl ran
  intro sum e next before after seen kept view turned
  obtain ⟨hostgroups, ip, row, proposed, written⟩ := syncExporter_eq_ok turned
  exact ⟨hostgroups.trans kept, ip, row, proposed, by rw [written, view]⟩

theorem hostgroups_laid {entries : List HostgroupEntry} {counts : SyncCounts}
    {next : SyncCounts × KeyedMap String Int}
    (ran : entries.foldlM (syncHostgroup casts fails nextID) (counts, ∅) before =
      (.ok next, after)) :
    Named before.copy next.2 after.copy ∧ (∀ h ∈ entries, (h.row casts).isSome) ∧
      after.copy.view = { before.copy.view with
        hostgroups := overlay (entries.filterMap (HostgroupEntry.row casts))
          before.copy.view.hostgroups } := by
  have start : Named before.copy ∅ before.copy := by
    refine ⟨fun name id known => ?_, fun _ _ => id⟩
    rw [AList.lookup_empty] at known
    contradiction
  refine Program.foldlM_overlay (fun state t => Named before.copy state.2 t) Tables.view
    (fun seen => { before.copy.view with hostgroups := seen }) (HostgroupEntry.row casts) ?_ start rfl
    ran
  intro sum h next middle after seen kept view turned
  obtain ⟨named, name, columns, proposed, written⟩ := syncHostgroup_eq_ok kept turned
  exact ⟨named, name, columns, proposed, by rw [written, view]⟩

theorem thresholds_laid {ids : KeyedMap String Int} {entries : List ThresholdEntry}
    {counts next : SyncCounts}
    (known : ∀ name id, ids.lookup name = some id → before.copy.Named name id)
    (ran : entries.foldlM (syncThreshold fails ids) counts before = (.ok next, after)) :
    after.copy.hostgroups = before.copy.hostgroups ∧ (∀ t ∈ entries, t.row.isSome) ∧
      after.copy.view = { before.copy.view with
        thresholds := overlay (entries.filterMap ThresholdEntry.row)
          before.copy.view.thresholds } := by
  refine Program.foldlM_overlay (fun _ t => t.hostgroups = before.copy.hostgroups) Tables.view
    (fun seen => { before.copy.view with thresholds := seen }) ThresholdEntry.row ?_ rfl rfl ran
  intro sum t next middle after seen kept view turned
  have named : ∀ name id, ids.lookup name = some id → middle.copy.Named name id := by
    intro name id found
    rw [Tables.Named, kept]
    exact known name id found
  obtain ⟨hostgroups, row, proposed, written⟩ := syncThreshold_eq_ok named turned
  exact ⟨hostgroups.trans kept, (t.hostgroup, t.vector), row, proposed, by rw [written, view]⟩

theorem alertChannels_laid {entries : List AlertChannelEntry} {counts next : SyncCounts}
    (ran : entries.foldlM (syncAlertChannel fails) counts before = (.ok next, after)) :
    after.copy.hostgroups = before.copy.hostgroups ∧ (∀ ch ∈ entries, ch.row.isSome) ∧
      after.copy.view = { before.copy.view with
        alertChannels := overlay (entries.filterMap AlertChannelEntry.row)
          before.copy.view.alertChannels } := by
  refine Program.foldlM_overlay (fun _ t => t.hostgroups = before.copy.hostgroups) Tables.view
    (fun seen => { before.copy.view with alertChannels := seen }) AlertChannelEntry.row ?_ rfl rfl ran
  intro sum ch next middle after seen kept view turned
  obtain ⟨hostgroups, proposed, written⟩ := syncAlertChannel_eq_ok turned
  exact ⟨hostgroups.trans kept, (ch.type, ch.target), ch.enabled, proposed, by rw [written, view]⟩

theorem whitelist_laid {entries : List WhitelistEntry} {counts next : SyncCounts}
    (ran : entries.foldlM (syncWhitelist casts fails) counts before = (.ok next, after)) :
    after.copy.hostgroups = before.copy.hostgroups ∧ (∀ w ∈ entries, (w.row casts).isSome) ∧
      after.copy.view = { before.copy.view with
        whitelist := overlay (entries.filterMap (WhitelistEntry.row casts))
          before.copy.view.whitelist } := by
  refine Program.foldlM_overlay (fun _ t => t.hostgroups = before.copy.hostgroups) Tables.view
    (fun seen => { before.copy.view with whitelist := seen }) (WhitelistEntry.row casts) ?_ rfl rfl ran
  intro sum w next middle after seen kept view turned
  obtain ⟨hostgroups, block, reason, proposed, written⟩ := syncWhitelist_eq_ok turned
  exact ⟨hostgroups.trans kept, block, reason, proposed, by rw [written, view]⟩

/-- The five loops lay the domain over the tables, and every stored hostgroup keeps its id. -/
theorem syncProgram_eq_ok {d : Domain} {diff : SyncDiff}
    (ran : syncProgram casts fails nextID d before = (.ok diff, after)) :
    d.Valid casts ∧ after.copy.view = d.merge casts before.copy.view ∧
      ∀ name id, before.copy.Named name id → after.copy.Named name id := by
  obtain ⟨first, exporters, ranExporters, ran⟩ := Program.bind_eq_ok ran
  obtain ⟨second, ⟨hostgroups, ids⟩, ranHostgroups, ran⟩ := Program.bind_eq_ok ran
  obtain ⟨third, thresholds, ranThresholds, ran⟩ := Program.bind_eq_ok ran
  obtain ⟨fourth, channels, ranChannels, ran⟩ := Program.bind_eq_ok ran
  obtain ⟨last, whitelist, ranWhitelist, ran⟩ := Program.bind_eq_ok ran
  obtain ⟨-, rfl⟩ := Program.pure_eq_ok ran
  obtain ⟨sameFirst, validExporters, laidExporters⟩ := exporters_laid ranExporters
  obtain ⟨⟨known, kept⟩, validHostgroups, laidHostgroups⟩ := hostgroups_laid ranHostgroups
  obtain ⟨sameThird, validThresholds, laidThresholds⟩ := thresholds_laid known ranThresholds
  obtain ⟨sameFourth, validChannels, laidChannels⟩ := alertChannels_laid ranChannels
  obtain ⟨sameLast, validWhitelist, laidWhitelist⟩ := whitelist_laid ranWhitelist
  refine ⟨⟨validExporters, validHostgroups, validThresholds, validChannels, validWhitelist⟩, ?_, ?_⟩
  · rw [laidWhitelist, laidChannels, laidThresholds, laidHostgroups, laidExporters]
    rfl
  · intro name id stored
    have grouped := kept name id (by rwa [Tables.Named, sameFirst])
    rwa [Tables.Named, sameLast, sameFourth, sameThird]

/-! The error of a commit is that of no loop. -/

def Uncommitted (cause : SyncError) : Prop := ∀ report, cause ≠ .commit report

theorem count_raises {γ : Type} (counts : SyncCounts) (row : String) (changed : γ → Bool)
    (selected : Except DbError γ) : (counts.count row changed selected :
      SyncProgram Inet Cidr SyncCounts).Raises Uncommitted := by
  unfold SyncCounts.count
  split
  · exact Program.raises_pure _
  · exact Program.raises_fail fun _ => SyncError.noConfusion
  · split <;> exact Program.raises_pure _

theorem upsertRow_raises {γ : Type} (row : String) (select : Tables Inet Cidr → Except DbError γ)
    (upsert : Tables Inet Cidr → Except DbError (Tables Inet Cidr)) (changed : γ → Bool)
    (counts : SyncCounts) :
    (upsertRow fails row select upsert changed counts).Raises Uncommitted := by
  refine Program.Raises.bind (Program.raises_request _ _) fun selected =>
    Program.Raises.bind (Program.raises_request _ _) fun upserted => ?_
  cases upserted with
  | error cause => exact Program.raises_fail fun _ => SyncError.noConfusion
  | ok _ => exact count_raises _ _ _ _

theorem syncHostgroup_raises (state : SyncCounts × KeyedMap String Int) (h : HostgroupEntry) :
    (syncHostgroup casts fails nextID state h).Raises Uncommitted := by
  refine Program.Raises.bind (Program.raises_request _ _) fun selected =>
    Program.Raises.bind (Program.raises_request _ _) fun upserted => ?_
  cases upserted with
  | error cause => exact Program.raises_fail fun _ => SyncError.noConfusion
  | ok upsertID =>
      refine (count_raises _ _ _ _).bind fun counts => ?_
      cases selected <;> exact Program.raises_pure _

theorem syncThreshold_raises (ids : KeyedMap String Int) (counts : SyncCounts)
    (t : ThresholdEntry) :
    (syncThreshold fails ids counts t : SyncProgram Inet Cidr SyncCounts).Raises Uncommitted := by
  have found : (hostgroupID fails ids t.hostgroup : SyncProgram Inet Cidr Int).Raises
      Uncommitted := by
    unfold hostgroupID
    split
    · exact Program.raises_pure _
    · refine Program.Raises.bind (Program.raises_request _ _) fun found => ?_
      cases found with
      | error cause => exact Program.raises_fail fun _ => SyncError.noConfusion
      | ok id => exact Program.raises_pure _
  exact found.bind fun id => upsertRow_raises _ _ _ _ _

theorem syncProgram_raises (d : Domain) :
    (syncProgram casts fails nextID d).Raises Uncommitted := by
  refine .bind (.foldlM (fun _ _ => upsertRow_raises _ _ _ _ _) _ _) fun exporters => ?_
  refine .bind (.foldlM syncHostgroup_raises _ _) fun (hostgroups, ids) => ?_
  refine .bind (.foldlM (syncThreshold_raises ids) _ _) fun thresholds => ?_
  refine .bind (.foldlM (fun _ _ => upsertRow_raises _ _ _ _ _) _ _) fun channels => ?_
  refine .bind (.foldlM (fun _ _ => upsertRow_raises _ _ _ _ _) _ _) fun whitelist => ?_
  exact Program.raises_pure _

variable {commit : CommitFault DbError} {stored final : Tables Inet Cidr} {domain : Option Domain}

theorem sync_of_lost {report : DbError} (applied : commit.applied = true)
    (ran : sync casts fails nextID commit stored domain = (final, .error (.commit report))) :
    ∃ diff, sync casts fails nextID .none stored domain = (final, .ok diff) := by
  cases domain with
  | none => cases ran
  | some d =>
      refine Program.applied_of_lost (fun _ => SyncError.noConfusion) ?_ applied ran
      exact fun before cause after ended => syncProgram_raises d before cause after ended report

theorem sync_of_error {cause : SyncError}
    (ran : sync casts fails nextID commit stored domain = (final, .error cause)) :
    final = stored ∨ ∃ report diff, commit = .failed report true ∧ cause = .commit report ∧
      sync casts fails nextID .none stored domain = (final, .ok diff) := by
  cases domain with
  | none =>
      cases ran
      exact .inl rfl
  | some d => exact Program.stored_of_error ran

theorem sync_of_ok {diff : SyncDiff}
    (ran : sync casts fails nextID commit stored domain = (final, .ok diff)) :
    ∃ d, domain = some d ∧ d.Valid casts ∧ final.view = d.merge casts stored.view ∧
      ∀ name id, stored.Named name id → final.Named name id := by
  cases domain with
  | none => cases ran
  | some d =>
      obtain ⟨requests, ended⟩ := Program.program_of_ok ran
      obtain ⟨valid, merged, named⟩ := syncProgram_eq_ok ended
      exact ⟨d, rfl, valid, merged, named⟩

end Turns

def Tables.empty : Tables Inet Cidr where
  exporters := ∅
  hostgroups := ∅
  thresholds := ∅
  alertChannels := ∅
  whitelist := ∅
  primaryKey name other g h found := by simp at found
  references key member := by simp at member
  vectorCheck key member := by simp at member
  typeCheck key member := by simp at member

def sampleCasts : Casts String String where
  inet text := if text = "10.0.0.2" ∨ text = "10.0.0.2/32" then some "10.0.0.2/32" else none
  cidr text := if text = "192.0.2.0/24" ∨ text = "203.0.113.0/24" then some text else none

def storedDomain : Domain where
  exporters := []
  hostgroups := [⟨"corporate", "192.0.2.0/24", ""⟩]
  thresholds := [⟨"corporate", "udp_flood", 1000, 1000000, 5, 60⟩]
  alertChannels := [⟨"email", "noc@example.net", true⟩]
  whitelist := []

def laterDomain : Domain where
  exporters := [⟨"10.0.0.2", "netflow", 0, "edge"⟩, ⟨"10.0.0.2/32", "ipfix", 100, "edge"⟩]
  hostgroups := [⟨"gaming", "203.0.113.0/24", "new"⟩]
  thresholds := [⟨"corporate", "udp_flood", 2000, 1000000, 5, 60⟩,
    ⟨"gaming", "udp_flood", 500, 500000, 5, 60⟩]
  alertChannels := []
  whitelist := [⟨"192.0.2.0/24", "core"⟩]

def storedTables : Tables String String :=
  (sync sampleCasts (fun _ => none) (fun number => number) .none Tables.empty
    (some storedDomain)).1

end Mitigador.Config
