import Mitigador.Config.Merge
import Mitigador.Detect.Lookup
import Mitigador.Lib.Run

/-! From the files of the operator to the limits of the detector: any number of config syncs, and
the catalog that a start of the daemon then loads (internal/detect/thresholds.go). -/

namespace Mitigador.Config

open Go Lib
open Detect (Threshold Catalog)

variable {Inet Cidr : Type} [DecidableEq Inet] [DecidableEq Cidr]

/-! `LoadCatalog` over the tables of the sync. -/

section Load

variable (parse : Cidr → Option Prefix)

/-- `Vector(vectorStr)`; the CHECK of the column admits no other text. -/
def vectorOf (text : String) : Option Detect.Vector :=
  [.udpFlood, .icmpFlood].find? fun v => v.text = text

abbrev Joined (Cidr : Type) := ((Int × String) × ThresholdRow) × String × HostgroupRow Cidr

/-- `FROM thresholds t JOIN hostgroups h ON h.id = t.hostgroup_id`. -/
def Tables.joined (t : Tables Inet Cidr) : List (Joined Cidr) :=
  t.thresholds.entries.flatMap fun row =>
    (t.hostgroups.entries.filter fun g => g.2.id = row.1.1).map fun g =>
      ((row.1, row.2), g.1, g.2)

/-- A row as it is scanned; `parse` is `netip.ParsePrefix` of the text that Postgres prints. -/
def scanRow : Joined Cidr → Option Threshold
  | ((key, row), name, g) =>
      match parse g.cidr, vectorOf key.2 with
      | some cidr, some vector => some
          { hostgroupID := g.id
            hostgroupName := name
            cidr := cidr
            vector := vector
            pps := .ofNat row.pps.toNat
            bps := .ofNat row.bps.toNat
            minWindowSec := row.minWindowSec
            graceSec := row.graceSec }
      | _, _ => none

def scanRows : List (Joined Cidr) → Option (List Threshold)
  | [] => some []
  | row :: rest =>
      match scanRow parse row with
      | none => none
      | some t => (scanRows rest).map (t :: ·)

def loadThresholds (t : Tables Inet Cidr) : Option (List Threshold) := scanRows parse t.joined

end Load

/-! A history of syncs. -/

structure SyncCall where
  domain : Option Domain
  fails : Nat → Option DbError
  nextID : Nat → Int
  commit : CommitFault DbError

def syncStep (casts : Casts Inet Cidr) (t : Tables Inet Cidr) (call : SyncCall) :
    Option (Tables Inet Cidr × Except SyncError SyncDiff) :=
  some (sync casts call.fails call.nextID call.commit t call.domain)

/-- A sync that succeeded, or whose commit was applied with its answer lost. -/
def SyncCall.committed (call : SyncCall) : Except SyncError SyncDiff → Bool
  | .ok _ => true
  | .error (.commit _) => call.commit.applied
  | .error _ => false

abbrev SyncTrace (Inet Cidr : Type) [DecidableEq Inet] [DecidableEq Cidr] :=
  List (Entry (Tables Inet Cidr) SyncCall (Except SyncError SyncDiff))

namespace Domain

def nothing : Domain := ⟨[], [], [], [], []⟩

def append (d e : Domain) : Domain where
  exporters := d.exporters ++ e.exporters
  hostgroups := d.hostgroups ++ e.hostgroups
  thresholds := d.thresholds ++ e.thresholds
  alertChannels := d.alertChannels ++ e.alertChannels
  whitelist := d.whitelist ++ e.whitelist

variable {casts : Casts Inet Cidr}

theorem merge_append (d e : Domain) (seen : View Inet Cidr) :
    (d.append e).merge casts seen = e.merge casts (d.merge casts seen) := by
  simp only [merge, append, List.filterMap_append, overlay_append]

omit [DecidableEq Inet] [DecidableEq Cidr] in
theorem valid_append {d e : Domain} (first : d.Valid casts) (second : e.Valid casts) :
    (d.append e).Valid casts where
  exporters := List.forall_mem_append.mpr ⟨first.exporters, second.exporters⟩
  hostgroups := List.forall_mem_append.mpr ⟨first.hostgroups, second.hostgroups⟩
  thresholds := List.forall_mem_append.mpr ⟨first.thresholds, second.thresholds⟩
  alertChannels := List.forall_mem_append.mpr ⟨first.alertChannels, second.alertChannels⟩
  whitelist := List.forall_mem_append.mpr ⟨first.whitelist, second.whitelist⟩

end Domain

def together : SyncTrace Inet Cidr → Domain
  | [] => .nothing
  | entry :: back =>
      match entry.action.committed entry.output, entry.action.domain with
      | true, some d => (together back).append d
      | _, _ => together back

theorem together_of_run {casts : Casts Inet Cidr} {start final : Tables Inet Cidr}
    {trace : SyncTrace Inet Cidr} (run : Run (syncStep casts) start trace final) :
    (together trace).Valid casts ∧ final.view = (together trace).merge casts start.view := by
  induction run with
  | start => exact ⟨⟨nofun, nofun, nofun, nofun, nofun⟩, rfl⟩
  | @step trace state next call result past moved ih =>
      have ran : sync casts call.fails call.nextID call.commit state call.domain = (next, result) :=
        Option.some.inj moved
      by_cases committed : call.committed result = true
      · obtain ⟨d, given, valid, merged, -⟩ : ∃ d, call.domain = some d ∧ d.Valid casts ∧
            next.view = d.merge casts state.view ∧
              ∀ name id, state.Named name id → next.Named name id := by
          match result with
          | .ok diff => exact sync_of_ok ran
          | .error (.commit report) =>
              obtain ⟨diff, succeeded⟩ := sync_of_lost committed ran
              exact sync_of_ok succeeded
        have later : together (⟨state, call, result⟩ :: trace) = (together trace).append d := by
          simp only [together, committed, given]
        rw [later, merged, ih.2, Domain.merge_append]
        exact ⟨Domain.valid_append ih.1 valid, rfl⟩
      · have same : next = state := by
          cases result with
          | ok diff => exact absurd rfl committed
          | error cause =>
              rcases sync_of_error ran with same | ⟨report, diff, lost, rfl, -⟩
              · exact same
              · exact absurd (by rw [SyncCall.committed, lost]; rfl) committed
        have later : together (⟨state, call, result⟩ :: trace) = together trace := by
          simp only [together, committed]
        rw [later, same]
        exact ih

/-! What the files say, and what is loaded. -/

/-- What the files say in the end: the last hostgroup of the name has the prefix, and the last
threshold for the name and the vector the figures. -/
structure InForce (casts : Casts Inet Cidr) (parse : Cidr → Option Prefix) (d : Domain)
    (t : Threshold) : Prop where
  hostgroup : ∃ h, KeyedMap.lastAt HostgroupEntry.name t.hostgroupName d.hostgroups = some h ∧
    (casts.cidr h.cidr).bind parse = some t.cidr
  threshold : ∃ e, KeyedMap.lastAt (fun e : ThresholdEntry => (e.hostgroup, e.vector))
      (t.hostgroupName, t.vector.text) d.thresholds = some e ∧
    (t.pps.toNat : Int) = e.pps ∧ (t.bps.toNat : Int) = e.bps ∧
      t.minWindowSec = e.minWindowSec ∧ t.graceSec = e.graceSec

section Loaded

variable {casts : Casts Inet Cidr} {parse : Cidr → Option Prefix} {d : Domain}
  {tables : Tables Inet Cidr} {thresholds : List Threshold} {t : Threshold}

omit [DecidableEq Cidr] in
theorem mem_scanRows {rows : List (Joined Cidr)} (scanned : scanRows parse rows = some thresholds) :
    t ∈ thresholds ↔ ∃ row ∈ rows, scanRow parse row = some t := by
  induction rows generalizing thresholds with
  | nil =>
      cases scanned
      simp
  | cons row rest ih =>
      simp only [scanRows] at scanned
      split at scanned
      · contradiction
      · next first read =>
          obtain ⟨others, remaining, rfl⟩ := Option.map_eq_some_iff.mp scanned
          rw [List.mem_cons, ih remaining, List.exists_mem_cons_iff, read, Option.some.injEq,
            eq_comm]

theorem mem_joined {key : Int × String} {row : ThresholdRow} {name : String}
    {g : HostgroupRow Cidr} : ((key, row), name, g) ∈ tables.joined ↔
      tables.thresholds.lookup key = some row ∧ tables.hostgroups.lookup name = some g ∧
        g.id = key.1 := by
  simp only [Tables.joined, List.mem_flatMap, List.mem_map, List.mem_filter, decide_eq_true_eq,
    Prod.mk.injEq]
  constructor
  · rintro ⟨⟨_, _⟩, listed, ⟨_, _⟩, ⟨other, own⟩, ⟨rfl, rfl⟩, rfl, rfl⟩
    exact ⟨(KeyedMap.mem_entries ..).mp listed, (KeyedMap.mem_entries ..).mp other, own⟩
  · rintro ⟨listed, other, own⟩
    exact ⟨⟨key, row⟩, (KeyedMap.mem_entries ..).mpr listed, ⟨name, g⟩,
      ⟨(KeyedMap.mem_entries ..).mpr other, own⟩, ⟨rfl, rfl⟩, rfl, rfl⟩

theorem vectorOf_eq_some_iff {text : String} {v : Detect.Vector} :
    vectorOf text = some v ↔ v.text = text := by
  constructor
  · intro found
    simpa [vectorOf] using List.find?_some found
  · rintro rfl
    cases v <;> rfl

omit [DecidableEq Inet] [DecidableEq Cidr] in
theorem row_of_hostgroup {h : HostgroupEntry} (valid : (h.row casts).isSome) :
    ∃ columns, h.row casts = some (h.name, columns) := by
  obtain ⟨asked, row⟩ := Option.isSome_iff_exists.mp valid
  obtain ⟨block, -, rfl⟩ := Option.map_eq_some_iff.mp row
  exact ⟨_, row⟩

theorem excludedThreshold_figures {pps bps minWindowSec graceSec : Int} {row : ThresholdRow}
    (proposed : excludedThreshold pps bps minWindowSec graceSec = .ok row) :
    row.pps = pps ∧ row.bps = bps ∧ row.minWindowSec = minWindowSec ∧ row.graceSec = graceSec := by
  unfold excludedThreshold at proposed
  iterate 6
    split at proposed
    rotate_left
    · contradiction
  cases proposed
  exact ⟨rfl, rfl, rfl, rfl⟩

theorem row_of_threshold {e : ThresholdEntry} (valid : e.row.isSome) :
    ∃ row, e.row = some ((e.hostgroup, e.vector), row) ∧ row.pps = e.pps ∧ row.bps = e.bps ∧
      row.minWindowSec = e.minWindowSec ∧ row.graceSec = e.graceSec := by
  obtain ⟨asked, known⟩ := Option.isSome_iff_exists.mp valid
  unfold ThresholdEntry.row at known ⊢
  split at known
  · next listed =>
      obtain ⟨row, proposed, rfl⟩ := Option.map_eq_some_iff.mp known
      rw [if_pos listed, proposed]
      cases result : excludedThreshold e.pps e.bps e.minWindowSec e.graceSec with
      | error cause =>
          rw [result] at proposed
          contradiction
      | ok made =>
          rw [result] at proposed
          cases proposed
          exact ⟨row, rfl, excludedThreshold_figures result⟩
  · contradiction

theorem hostgroup_eq_some_iff (valid : d.Valid casts)
    (merged : tables.view = d.merge casts Tables.empty.view) {name : String}
    {columns : Cidr × Option String} : tables.hostgroup name = some columns ↔
      ∃ h, KeyedMap.lastAt HostgroupEntry.name name d.hostgroups = some h ∧
        h.row casts = some (name, columns) := by
  have laid : tables.hostgroup = overlay (d.hostgroups.filterMap (HostgroupEntry.row casts))
      fun _ => none := congrArg View.hostgroups merged
  rw [laid]
  exact overlay_rows fun h member => row_of_hostgroup (valid.hostgroups h member)

theorem threshold_eq_some_iff (valid : d.Valid casts)
    (merged : tables.view = d.merge casts Tables.empty.view) {key : String × String}
    {row : ThresholdRow} : tables.threshold key = some row ↔
      ∃ e, KeyedMap.lastAt (fun e : ThresholdEntry => (e.hostgroup, e.vector)) key d.thresholds =
          some e ∧ e.row = some (key, row) := by
  have laid : tables.threshold = overlay (d.thresholds.filterMap ThresholdEntry.row)
      fun _ => none := congrArg View.thresholds merged
  rw [laid]
  refine overlay_rows fun e member => ?_
  obtain ⟨row, asked, -⟩ := row_of_threshold (valid.thresholds e member)
  exact ⟨row, asked⟩

theorem toNat_bigint {n : Int} (positive : IsPositiveBigint n) :
    ((UInt64.ofNat n.toNat).toNat : Int) = n := by
  have bounds : 0 < n ∧ n < 2 ^ 63 := positive
  rw [UInt64.toNat_ofNat']
  omega

theorem inForce_of_mem (valid : d.Valid casts)
    (merged : tables.view = d.merge casts Tables.empty.view)
    (loaded : loadThresholds parse tables = some thresholds) (member : t ∈ thresholds) :
    InForce casts parse d t := by
  obtain ⟨⟨⟨key, row⟩, name, g⟩, listed, read⟩ := (mem_scanRows loaded).mp member
  obtain ⟨attached, known, own⟩ := mem_joined.mp listed
  simp only [scanRow] at read
  split at read
  · next cidr vector parsed text =>
      cases read
      constructor
      · have stored : tables.hostgroup name = some (g.cidr, g.description) := by
          rw [Tables.hostgroup, known]
          rfl
        obtain ⟨h, last, asked⟩ := (hostgroup_eq_some_iff valid merged).mp stored
        obtain ⟨block, cast, same⟩ := Option.map_eq_some_iff.mp asked
        simp only [Prod.mk.injEq] at same
        obtain ⟨-, rfl, -⟩ := same
        exact ⟨h, last, by rw [cast]; exact parsed⟩
      · have stored : tables.threshold (name, key.2) = some row := by
          rw [Tables.threshold, known, Option.bind_some, own]
          exact attached
        obtain ⟨e, last, asked⟩ := (threshold_eq_some_iff valid merged).mp stored
        obtain ⟨made, own, pps, bps, window, grace⟩ :=
          row_of_threshold (Option.isSome_iff_exists.mpr ⟨_, asked⟩)
        obtain rfl : row = made := congrArg Prod.snd (Option.some.inj (asked.symm.trans own))
        refine ⟨e, ?_, (toNat_bigint row.ppsCheck).trans pps, (toNat_bigint row.bpsCheck).trans bps,
          window, grace⟩
        rw [vectorOf_eq_some_iff.mp text]
        exact last
  · contradiction

theorem mem_of_inForce (valid : d.Valid casts)
    (merged : tables.view = d.merge casts Tables.empty.view)
    (loaded : loadThresholds parse tables = some thresholds) (force : InForce casts parse d t) :
    ∃ id, { t with hostgroupID := id } ∈ thresholds := by
  obtain ⟨⟨h, lastHostgroup, prefixed⟩, e, lastThreshold, pps, bps, window, grace⟩ := force
  obtain ⟨block, cast, parsed⟩ := Option.bind_eq_some_iff.mp prefixed
  have member : e ∈ d.thresholds :=
    List.mem_reverse.mp (List.mem_of_find?_eq_some lastThreshold)
  have keyed : (e.hostgroup, e.vector) = (t.hostgroupName, t.vector.text) := by
    simpa using List.find?_some lastThreshold
  have named : h.name = t.hostgroupName := by simpa using List.find?_some lastHostgroup
  obtain ⟨row, asked, rowPps, rowBps, rowWindow, rowGrace⟩ :=
    row_of_threshold (valid.thresholds e member)
  have group : tables.hostgroup t.hostgroupName = some (block, some h.description) :=
    (hostgroup_eq_some_iff valid merged).mpr
      ⟨h, lastHostgroup, by rw [HostgroupEntry.row, cast, ← named]; rfl⟩
  have limits : tables.threshold (t.hostgroupName, t.vector.text) = some row :=
    (threshold_eq_some_iff valid merged).mpr ⟨e, lastThreshold, keyed ▸ asked⟩
  obtain ⟨g, known, same⟩ := Option.map_eq_some_iff.mp group
  rw [Tables.threshold, known, Option.bind_some] at limits
  have block : g.cidr = block := congrArg Prod.fst same
  refine ⟨g.id, (mem_scanRows loaded).mpr ⟨_, mem_joined.mpr ⟨limits, known, rfl⟩, ?_⟩⟩
  have samePps : UInt64.ofNat row.pps.toNat = t.pps := UInt64.toNat_inj.mp
    (Int.ofNat.inj ((toNat_bigint row.ppsCheck).trans (rowPps.trans pps.symm)))
  have sameBps : UInt64.ofNat row.bps.toNat = t.bps := UInt64.toNat_inj.mp
    (Int.ofNat.inj ((toNat_bigint row.bpsCheck).trans (rowBps.trans bps.symm)))
  simp only [scanRow, block, parsed, vectorOf_eq_some_iff.mpr rfl, samePps, sameBps, rowWindow,
    rowGrace, window, grace]

end Loaded

/-- Whatever files were synced into empty tables, committed or not: the catalog that is loaded
afterwards judges an address and a vector by a threshold in force, of a hostgroup around the
address; no hostgroup in force with a threshold is narrower around it, and of those as narrow with
the vector it has the first name. It judges by none only where each threshold for the vector around
the address gives way to a narrower hostgroup that has none. -/
theorem limits_of_files {casts : Casts Inet Cidr} {parse : Cidr → Option Prefix}
    {trace : SyncTrace Inet Cidr} {final : Tables Inet Cidr}
    (run : Run (syncStep casts) Tables.empty trace final) {thresholds : List Threshold}
    (loaded : loadThresholds parse final = some thresholds) {c : Catalog}
    (built : c.Builds thresholds) (ip : Addr) (v : Detect.Vector) :
    (∀ t, c.lookupByVector ip v = some t →
      InForce casts parse (together trace) t ∧ t.vector = v ∧ t.cidr.contains ip = true ∧
        ∀ u, InForce casts parse (together trace) u → u.cidr.contains ip = true →
          u.cidr.bits ≤ t.cidr.bits ∧
            (u.cidr.bits = t.cidr.bits → u.vector = v → t.hostgroupName ≤ u.hostgroupName)) ∧
      (c.lookupByVector ip v = none → ∀ u, InForce casts parse (together trace) u → u.vector = v →
        u.cidr.contains ip = true → ∃ w, InForce casts parse (together trace) w ∧
          w.cidr.contains ip = true ∧ u.cidr.bits < w.cidr.bits) := by
  obtain ⟨valid, merged⟩ := together_of_run run
  constructor
  · intro t found
    obtain ⟨member, best, vector, least⟩ := built.found_spec found
    refine ⟨inForce_of_mem valid merged loaded member, vector, best.1, fun u force inside => ?_⟩
    obtain ⟨id, listed⟩ := mem_of_inForce valid merged loaded force
    refine ⟨best.2 { u with hostgroupID := id } listed inside, fun same asked => ?_⟩
    have top : Detect.Best thresholds ip { u with hostgroupID := id } :=
      ⟨inside, fun w other around => (best.2 w other around).trans same.ge⟩
    exact least { u with hostgroupID := id } listed top asked
  · intro missing u force vector inside
    obtain ⟨id, listed⟩ := mem_of_inForce valid merged loaded force
    by_contra narrowest
    have best : Detect.Best thresholds ip { u with hostgroupID := id } := by
      refine ⟨inside, fun w other around => ?_⟩
      by_contra narrower
      exact narrowest ⟨w, inForce_of_mem valid merged loaded other, around, not_le.mp narrower⟩
    have found := built.found_iff.mpr ⟨_, listed, best, vector⟩
    rw [missing] at found
    contradiction

def samplePrefix (text : String) : Option Prefix :=
  if text = "192.0.2.0/24" then some (Detect.slash24 0xc0000200) else none

def sampleSyncs : List SyncCall :=
  [⟨some storedDomain, fun _ => none, fun number => number, .none⟩,
    ⟨some ⟨[], [], [⟨"corporate", "udp_flood", 2000, 1000000, 5, 60⟩], [], []⟩, fun _ => none,
      fun number => number, .failed (.lost "unexpected EOF") true⟩,
    ⟨some ⟨[], [], [⟨"corporate", "udp_flood", 3000, 1000000, 5, 60⟩], [], []⟩, fun _ => none,
      fun number => number, .failed (.lost "unexpected EOF") false⟩]

theorem limits_of_files_sample : ∃ (trace : SyncTrace String String)
    (final : Tables String String) (thresholds : List Threshold) (c : Catalog) (t : Threshold),
    Run (syncStep sampleCasts) Tables.empty trace final ∧
      loadThresholds samplePrefix final = some thresholds ∧ c.Builds thresholds ∧
      c.lookupByVector (.v4 0xc0000201) .udpFlood = some t ∧ t.pps = 2000 ∧
      InForce sampleCasts samplePrefix (together trace) t := by
  let limit : Threshold :=
    ⟨2, "corporate", Detect.slash24 0xc0000200, .udpFlood, 2000, 1000000, 5, 60⟩
  have synced : (Run.replay (syncStep sampleCasts) [] Tables.empty sampleSyncs).map
      (fun run => loadThresholds samplePrefix run.2) = some (some [limit]) := by
    decide +kernel
  obtain ⟨⟨trace, final⟩, replayed, loaded⟩ := Option.map_eq_some_iff.mp synced
  have run := Run.of_replay .start replayed
  have built := Detect.newCatalogFromThresholds_builds [limit]
  have found : (Detect.newCatalogFromThresholds [limit]).lookupByVector (.v4 0xc0000201) .udpFlood =
      some limit := by
    simp only [Detect.newCatalogFromThresholds, Catalog.lookupByVector, Catalog.lookup,
      List.mergeSort_singleton]
    decide
  exact ⟨trace, final, [limit], _, limit, run, loaded, built, found, rfl,
    ((limits_of_files run loaded built (.v4 0xc0000201) .udpFlood).1 limit found).1⟩

end Mitigador.Config
