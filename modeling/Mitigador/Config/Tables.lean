import Mathlib.Algebra.Ring.Int.Defs
import Mitigador.Lib.KeyedMap

/-! The domain tables (internal/storage/postgres/migrations/0003 to 0007) and the statements that
the config sync sends to them. The types `inet` and `cidr` and the casts to them are those of
Postgres; ids and times that no statement reads are left out. -/

namespace Mitigador.Config

open Lib

def IsInteger (n : Int) : Prop := -2 ^ 31 ≤ n ∧ n < 2 ^ 31

instance (n : Int) : Decidable (IsInteger n) := inferInstanceAs (Decidable (_ ∧ _))

def IsPositiveBigint (n : Int) : Prop := 0 < n ∧ n < 2 ^ 63

instance (n : Int) : Decidable (IsPositiveBigint n) := inferInstanceAs (Decidable (_ ∧ _))

def exporterTypes : List String := ["netflow", "ipfix", "sflow"]
def vectors : List String := ["udp_flood", "icmp_flood"]
def channelTypes : List String := ["telegram", "email"]

structure ExporterRow where
  type : String
  sampleRateOverride : Int
  description : Option String
  typeCheck : type ∈ exporterTypes
  integer : IsInteger sampleRateOverride
  deriving DecidableEq

structure HostgroupRow (Cidr : Type*) where
  id : Int
  cidr : Cidr
  description : Option String
  deriving DecidableEq

structure ThresholdRow where
  pps : Int
  bps : Int
  minWindowSec : Int
  graceSec : Int
  ppsCheck : IsPositiveBigint pps
  bpsCheck : IsPositiveBigint bps
  windowCheck : 0 < minWindowSec ∧ IsInteger minWindowSec
  graceCheck : 0 < graceSec ∧ IsInteger graceSec
  deriving DecidableEq

variable {Inet Cidr : Type*} [DecidableEq Inet] [DecidableEq Cidr]

structure Tables (Inet Cidr : Type*) [DecidableEq Inet] [DecidableEq Cidr] where
  exporters : KeyedMap Inet ExporterRow
  hostgroups : KeyedMap String (HostgroupRow Cidr)
  thresholds : KeyedMap (Int × String) ThresholdRow
  alertChannels : KeyedMap (String × String) Bool
  whitelist : KeyedMap Cidr (Option String)
  primaryKey : ∀ name other g h, hostgroups.lookup name = some g →
    hostgroups.lookup other = some h → g.id = h.id → name = other
  references : ∀ key ∈ thresholds, ∃ name g, hostgroups.lookup name = some g ∧ g.id = key.1
  vectorCheck : ∀ key ∈ thresholds, key.2 ∈ vectors
  typeCheck : ∀ key ∈ alertChannels, key.1 ∈ channelTypes

/-- The casts of Postgres; `none` is its complaint about the text. -/
structure Casts (Inet Cidr : Type*) where
  inet : String → Option Inet
  cidr : String → Option Cidr

/-- Why a statement has no result; `noRows` is `pgx.ErrNoRows`, and `lost` is anything that the
driver or the server may report of a request whatever the tables hold. -/
inductive DbError
  | noRows
  | invalidInput (type : String)
  | outOfRange (column : String)
  | violates (constraint : String)
  | lost (report : String)
  deriving DecidableEq, Repr

def excludedExporter (casts : Casts Inet Cidr) (sourceIP type : String) (sampleRateOverride : Int)
    (description : String) : Except DbError (Inet × ExporterRow) :=
  if integer : IsInteger sampleRateOverride then
    match casts.inet sourceIP with
    | none => .error (.invalidInput "inet")
    | some ip =>
        if typeCheck : type ∈ exporterTypes then
          .ok (ip, ⟨type, sampleRateOverride, some description, typeCheck, integer⟩)
        else .error (.violates "exporters_type_check")
  else .error (.outOfRange "sample_rate_override")

def excludedThreshold (pps bps minWindowSec graceSec : Int) : Except DbError ThresholdRow :=
  if window : IsInteger minWindowSec then
    if grace : IsInteger graceSec then
      if bpsCheck : IsPositiveBigint bps then
        if lasting : 0 < graceSec then
          if positive : 0 < minWindowSec then
            if ppsCheck : IsPositiveBigint pps then
              .ok ⟨pps, bps, minWindowSec, graceSec, ppsCheck, bpsCheck, ⟨positive, window⟩,
                ⟨lasting, grace⟩⟩
            else .error (.violates "thresholds_pps_check")
          else .error (.violates "thresholds_min_window_sec_check")
        else .error (.violates "thresholds_grace_sec_check")
      else .error (.violates "thresholds_bps_check")
    else .error (.outOfRange "grace_sec")
  else .error (.outOfRange "min_window_sec")

namespace Tables

variable (casts : Casts Inet Cidr) (t : Tables Inet Cidr)

/-- `SELECT type, sample_rate_override, COALESCE(description,'')`. -/
def selectExporter (sourceIP : String) : Except DbError (String × Int × String) :=
  match casts.inet sourceIP with
  | none => .error (.invalidInput "inet")
  | some ip =>
      match t.exporters.lookup ip with
      | none => .error .noRows
      | some row => .ok (row.type, row.sampleRateOverride, row.description.getD "")

def upsertExporter (sourceIP type : String) (sampleRateOverride : Int) (description : String) :
    Except DbError (Tables Inet Cidr) :=
  (excludedExporter casts sourceIP type sampleRateOverride description).map fun (ip, row) =>
    { t with exporters := t.exporters.insert ip row }

/-- `SELECT id, COALESCE(description,'')`. -/
def selectHostgroup (name : String) : Except DbError (Int × String) :=
  match t.hostgroups.lookup name with
  | none => .error .noRows
  | some g => .ok (g.id, g.description.getD "")

/-- A hostgroup under its name, with the id that it had before and that no other one has. -/
def putHostgroup (name : String) (g : HostgroupRow Cidr)
    (same : ∀ h, t.hostgroups.lookup name = some h → h.id = g.id)
    (own : ∀ other h, t.hostgroups.lookup other = some h → h.id = g.id → other = name) :
    Tables Inet Cidr :=
  { t with
    hostgroups := t.hostgroups.insert name g
    primaryKey := by
      intro first second row other
      rw [KeyedMap.lookup_insert, KeyedMap.lookup_insert]
      split
      · next here =>
          intro placed
          cases placed
          split
          · next there => exact fun _ _ => here.trans there.symm
          · exact fun found equal => here.trans (own second other found equal.symm).symm
      · intro found
        split
        · next there =>
            intro placed
            cases placed
            exact fun equal => (own first row found equal).trans there.symm
        · exact fun known equal => t.primaryKey first second row other found known equal
    references := by
      intro key member
      obtain ⟨owner, row, found, equal⟩ := t.references key member
      by_cases here : owner = name
      · subst here
        exact ⟨owner, g, AList.lookup_insert _, (same row found).symm.trans equal⟩
      · exact ⟨owner, row, (AList.lookup_insert_ne here).trans found, equal⟩ }

/-- Returns the id. A new row takes `nextID` from its sequence. -/
def upsertHostgroup (nextID : Int) (name cidr description : String) :
    Except DbError (Int × Tables Inet Cidr) :=
  match casts.cidr cidr with
  | none => .error (.invalidInput "cidr")
  | some block =>
      match found : t.hostgroups.lookup name with
      | some g =>
          .ok (g.id, t.putHostgroup name ⟨g.id, block, some description⟩
            (fun h known => by
              rw [found] at known
              cases known
              rfl)
            (fun other h known equal => t.primaryKey other name h g known found equal))
      | none =>
          if fresh : ∀ entry ∈ t.hostgroups.entries, entry.2.id ≠ nextID then
            .ok (nextID, t.putHostgroup name ⟨nextID, block, some description⟩
              (fun h known => absurd (known.symm.trans found) (by simp))
              (fun other h known equal =>
                absurd equal (fresh ⟨other, h⟩ ((KeyedMap.mem_entries _ _ _).mpr known))))
          else .error (.violates "hostgroups_pkey")

/-- `SELECT id FROM hostgroups WHERE name=$1`. -/
def selectHostgroupID (name : String) : Except DbError Int :=
  match t.hostgroups.lookup name with
  | none => .error .noRows
  | some g => .ok g.id

def selectThreshold (hostgroupID : Int) (vector : String) :
    Except DbError (Int × Int × Int × Int) :=
  match t.thresholds.lookup (hostgroupID, vector) with
  | none => .error .noRows
  | some row => .ok (row.pps, row.bps, row.minWindowSec, row.graceSec)

def upsertThreshold (hostgroupID : Int) (vector : String) (pps bps minWindowSec graceSec : Int) :
    Except DbError (Tables Inet Cidr) :=
  match excludedThreshold pps bps minWindowSec graceSec with
  | .error cause => .error cause
  | .ok row =>
      if check : vector ∈ vectors then
        if known : ∃ entry ∈ t.hostgroups.entries, entry.2.id = hostgroupID then
          .ok { t with
            thresholds := t.thresholds.insert (hostgroupID, vector) row
            references := by
              intro key member
              rcases (AList.mem_insert _).mp member with rfl | member
              · obtain ⟨⟨name, g⟩, listed, equal⟩ := known
                exact ⟨name, g, (KeyedMap.mem_entries _ _ _).mp listed, equal⟩
              · exact t.references key member
            vectorCheck := by
              intro key member
              rcases (AList.mem_insert _).mp member with rfl | member
              · exact check
              · exact t.vectorCheck key member }
        else .error (.violates "thresholds_hostgroup_id_fkey")
      else .error (.violates "thresholds_vector_check")

def selectAlertChannel (type target : String) : Except DbError Bool :=
  match t.alertChannels.lookup (type, target) with
  | none => .error .noRows
  | some enabled => .ok enabled

def upsertAlertChannel (type target : String) (enabled : Bool) :
    Except DbError (Tables Inet Cidr) :=
  if check : type ∈ channelTypes then
    .ok { t with
      alertChannels := t.alertChannels.insert (type, target) enabled
      typeCheck := by
        intro key member
        rcases (AList.mem_insert _).mp member with rfl | member
        · exact check
        · exact t.typeCheck key member }
  else .error (.violates "alert_channels_type_check")

/-- `SELECT COALESCE(reason,'')`. -/
def selectWhitelist (cidr : String) : Except DbError String :=
  match casts.cidr cidr with
  | none => .error (.invalidInput "cidr")
  | some block =>
      match t.whitelist.lookup block with
      | none => .error .noRows
      | some reason => .ok (reason.getD "")

def upsertWhitelist (cidr reason : String) : Except DbError (Tables Inet Cidr) :=
  match casts.cidr cidr with
  | none => .error (.invalidInput "cidr")
  | some block => .ok { t with whitelist := t.whitelist.insert block (some reason) }

end Tables

end Mitigador.Config
