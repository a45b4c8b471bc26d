import Mitigador.Config.Tables
import Mitigador.Lib.Transaction

/-! The config sync (internal/config/domain.go): one transaction of five upsert loops. -/

namespace Mitigador.Config

open Lib

structure ExporterEntry where
  sourceIP : String
  type : String
  sampleRateOverride : Int
  description : String

structure HostgroupEntry where
  name : String
  cidr : String
  description : String

structure ThresholdEntry where
  hostgroup : String
  vector : String
  pps : Int
  bps : Int
  minWindowSec : Int
  graceSec : Int

structure AlertChannelEntry where
  type : String
  target : String
  enabled : Bool

structure WhitelistEntry where
  cidr : String
  reason : String

structure Domain where
  exporters : List ExporterEntry
  hostgroups : List HostgroupEntry
  thresholds : List ThresholdEntry
  alertChannels : List AlertChannelEntry
  whitelist : List WhitelistEntry

structure SyncCounts where
  added : Nat
  updated : Nat
  unchanged : Nat
  deriving DecidableEq, Repr

structure SyncDiff where
  exporters : SyncCounts
  hostgroups : SyncCounts
  thresholds : SyncCounts
  alertChannels : SyncCounts
  whitelist : SyncCounts
  deriving DecidableEq, Repr

inductive SyncError
  | nilDomain
  | begin (cause : DbError)
  | upsert (row : String) (cause : DbError)
  | select (row : String) (cause : DbError)
  | unknownHostgroup (name : String) (cause : DbError)
  | commit (cause : DbError)
  deriving DecidableEq, Repr

def SyncError.text (causeText : DbError → String) (quote : String → String) : SyncError → String
  | .nilDomain => "domain: nil domain"
  | .begin cause => "domain: begin tx: " ++ causeText cause
  | .upsert row cause => "domain: upsert " ++ row ++ ": " ++ causeText cause
  | .select row cause => "domain: select " ++ row ++ ": " ++ causeText cause
  | .unknownHostgroup name cause =>
      "domain: threshold references unknown hostgroup " ++ quote name ++ ": " ++ causeText cause
  | .commit cause => "domain: commit: " ++ causeText cause

variable {Inet Cidr : Type} [DecidableEq Inet] [DecidableEq Cidr]

abbrev SyncProgram (Inet Cidr : Type) [DecidableEq Inet] [DecidableEq Cidr] :=
  Program (Tables Inet Cidr) SyncError

def SyncCounts.count {γ : Type} (counts : SyncCounts) (row : String) (changed : γ → Bool) :
    Except DbError γ → SyncProgram Inet Cidr SyncCounts
  | .error .noRows => pure { counts with added := counts.added + 1 }
  | .error cause => Program.fail (.select row cause)
  | .ok existing =>
      if changed existing then pure { counts with updated := counts.updated + 1 }
      else pure { counts with unchanged := counts.unchanged + 1 }

/-- The turn that the loops share: the SELECT, the upsert, and only then the two errors. -/
def upsertRow {γ : Type} (fails : Nat → Option DbError) (row : String)
    (select : Tables Inet Cidr → Except DbError γ)
    (upsert : Tables Inet Cidr → Except DbError (Tables Inet Cidr)) (changed : γ → Bool)
    (counts : SyncCounts) : SyncProgram Inet Cidr SyncCounts := do
  let selected ← Program.query fails select
  let upserted ← Program.exec fails upsert
  match upserted with
  | .error cause => Program.fail (.upsert row cause)
  | .ok _ => counts.count row changed selected

variable (casts : Casts Inet Cidr) (fails : Nat → Option DbError) (nextID : Nat → Int)

def syncExporter (counts : SyncCounts) (e : ExporterEntry) : SyncProgram Inet Cidr SyncCounts :=
  upsertRow fails ("exporter " ++ e.sourceIP)
    (fun t => t.selectExporter casts e.sourceIP)
    (fun t => t.upsertExporter casts e.sourceIP e.type e.sampleRateOverride e.description)
    (fun (type, sampleRate, description) =>
      type ≠ e.type || sampleRate ≠ e.sampleRateOverride || description ≠ e.description)
    counts

/-- The map of ids takes the id of the SELECT, or that of the new row. A new prefix alone is not
counted as a change. -/
def syncHostgroup (state : SyncCounts × KeyedMap String Int) (h : HostgroupEntry) :
    SyncProgram Inet Cidr (SyncCounts × KeyedMap String Int) := do
  let (counts, ids) := state
  let selected ← Program.query fails fun t => t.selectHostgroup h.name
  let upserted ← Program.request fails fun number t =>
    t.upsertHostgroup casts (nextID number) h.name h.cidr h.description
  match upserted with
  | .error cause => Program.fail (.upsert ("hostgroup " ++ h.name) cause)
  | .ok upsertID =>
      let counts ← counts.count ("hostgroup " ++ h.name)
        (fun (_, description) => description ≠ h.description) selected
      match selected with
      | .ok (id, _) => pure (counts, ids.insert h.name id)
      | .error _ => pure (counts, ids.insert h.name upsertID)

/-- The id of a hostgroup of this batch, or else that of a stored one. -/
def hostgroupID (ids : KeyedMap String Int) (name : String) : SyncProgram Inet Cidr Int :=
  match ids.lookup name with
  | some id => pure id
  | none => do
      let found ← Program.query fails fun t => t.selectHostgroupID name
      match found with
      | .error cause => Program.fail (.unknownHostgroup name cause)
      | .ok id => pure id

def syncThreshold (ids : KeyedMap String Int) (counts : SyncCounts) (t : ThresholdEntry) :
    SyncProgram Inet Cidr SyncCounts := do
  let id ← hostgroupID fails ids t.hostgroup
  upsertRow fails ("threshold " ++ t.hostgroup ++ "/" ++ t.vector)
    (fun tables => tables.selectThreshold id t.vector)
    (fun tables => tables.upsertThreshold id t.vector t.pps t.bps t.minWindowSec t.graceSec)
    (fun (pps, bps, window, grace) =>
      pps ≠ t.pps || bps ≠ t.bps || window ≠ t.minWindowSec || grace ≠ t.graceSec)
    counts

def syncAlertChannel (counts : SyncCounts) (ch : AlertChannelEntry) :
    SyncProgram Inet Cidr SyncCounts :=
  upsertRow fails ("alert_channel " ++ ch.type ++ "/" ++ ch.target)
    (fun t => t.selectAlertChannel ch.type ch.target)
    (fun t => t.upsertAlertChannel ch.type ch.target ch.enabled)
    (fun enabled => enabled ≠ ch.enabled)
    counts

def syncWhitelist (counts : SyncCounts) (w : WhitelistEntry) : SyncProgram Inet Cidr SyncCounts :=
  upsertRow fails ("whitelist " ++ w.cidr)
    (fun t => t.selectWhitelist casts w.cidr)
    (fun t => t.upsertWhitelist casts w.cidr w.reason)
    (fun reason => reason ≠ w.reason)
    counts

def syncProgram (d : Domain) : SyncProgram Inet Cidr SyncDiff := do
  let zero : SyncCounts := ⟨0, 0, 0⟩
  let exporters ← d.exporters.foldlM (syncExporter casts fails) zero
  let (hostgroups, ids) ← d.hostgroups.foldlM (syncHostgroup casts fails nextID) (zero, ∅)
  let thresholds ← d.thresholds.foldlM (syncThreshold fails ids) zero
  let alertChannels ← d.alertChannels.foldlM (syncAlertChannel fails) zero
  let whitelist ← d.whitelist.foldlM (syncWhitelist casts fails) zero
  pure ⟨exporters, hostgroups, thresholds, alertChannels, whitelist⟩

/-- `Sync`: what the tables are afterwards, and what it returns. The requests for which `fails`
has a report fail with it; `nextID` is what the sequence of the hostgroups gives to a request. -/
def sync (commit : CommitFault DbError) (stored : Tables Inet Cidr) :
    Option Domain → Tables Inet Cidr × Except SyncError SyncDiff
  | none => (stored, .error .nilDomain)
  | some d =>
      Program.atomically fails commit .begin .commit (syncProgram casts fails nextID d) stored

end Mitigador.Config
