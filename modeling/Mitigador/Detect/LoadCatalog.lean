import Mathlib.Data.List.Nodup
import Mitigador.Detect.Thresholds

/-! The catalog that `LoadCatalog` builds from the hostgroups and thresholds tables. -/

namespace Mitigador.Detect

open Go

structure Hostgroup where
  id : Int
  name : String
  cidr : Prefix
  deriving DecidableEq, Repr

structure ThresholdRow where
  hostgroupID : Int
  vector : Vector
  pps : UInt64
  bps : UInt64
  minWindowSec : Int
  graceSec : Int
  deriving DecidableEq, Repr

/-- The constraints of migrations 0004 and 0005; BIGINT and INTEGER are signed. -/
structure Tables where
  hostgroups : List Hostgroup
  thresholds : List ThresholdRow
  idKey : (hostgroups.map Hostgroup.id).Nodup
  nameKey : (hostgroups.map Hostgroup.name).Nodup
  cidrNotNull : ∀ g ∈ hostgroups, g.cidr ≠ .invalid
  references : ∀ row ∈ thresholds, ∃ g ∈ hostgroups, g.id = row.hostgroupID
  vectorKey : (thresholds.map fun row => (row.hostgroupID, row.vector)).Nodup
  ppsCheck : ∀ row ∈ thresholds, 0 < row.pps ∧ row.pps.toNat < 2 ^ 63
  bpsCheck : ∀ row ∈ thresholds, 0 < row.bps ∧ row.bps.toNat < 2 ^ 63
  windowCheck : ∀ row ∈ thresholds, 0 < row.minWindowSec ∧ row.minWindowSec < 2 ^ 31
  graceCheck : ∀ row ∈ thresholds, 0 < row.graceSec ∧ row.graceSec < 2 ^ 31

def scan (g : Hostgroup) (row : ThresholdRow) : Threshold where
  hostgroupID := g.id
  hostgroupName := g.name
  cidr := g.cidr
  vector := row.vector
  pps := row.pps
  bps := row.bps
  minWindowSec := row.minWindowSec
  graceSec := row.graceSec

namespace Tables

variable (tables : Tables)

/-- `FROM thresholds t JOIN hostgroups h ON h.id = t.hostgroup_id`. -/
def join : List Threshold :=
  tables.thresholds.flatMap fun row =>
    (tables.hostgroups.filter fun g => g.id = row.hostgroupID).map fun g => scan g row

/-- Neither the query nor `sort.Slice` fixes an order beyond that of the comparison. -/
def Loads (c : Catalog) : Prop := c.entries.Perm tables.join

def loadCatalog : Catalog := newCatalogFromThresholds tables.join

theorem loadCatalog_loads : tables.Loads tables.loadCatalog :=
  List.mergeSort_perm _ _

def row (g : Hostgroup) (v : Vector) : Option Threshold :=
  (tables.thresholds.find? fun row => row.hostgroupID = g.id ∧ row.vector = v).map (scan g)

def Longest (ip : Addr) (g : Hostgroup) : Prop :=
  g ∈ tables.hostgroups ∧ g.cidr.contains ip = true ∧
    ∀ other ∈ tables.hostgroups, other.cidr.contains ip = true → other.cidr.bits ≤ g.cidr.bits

variable {tables}

theorem row_eq_some {g : Hostgroup} {v : Vector} {t : Threshold}
    (present : tables.row g v = some t) :
    t.vector = v ∧ t.hostgroupName = g.name ∧ t.cidr = g.cidr := by
  obtain ⟨found, located, rfl⟩ := Option.map_eq_some_iff.mp present
  have matched := List.find?_some located
  simp only [decide_eq_true_eq] at matched
  exact ⟨matched.2, rfl, rfl⟩

theorem mem_join (t : Threshold) :
    t ∈ tables.join ↔ ∃ g ∈ tables.hostgroups, tables.row g t.vector = some t := by
  simp only [join, List.mem_flatMap, List.mem_map, List.mem_filter, decide_eq_true_eq]
  constructor
  · rintro ⟨row, member, g, ⟨known, same⟩, rfl⟩
    refine ⟨g, known, ?_⟩
    have some : (tables.thresholds.find? fun other =>
        other.hostgroupID = g.id ∧ other.vector = row.vector).isSome := by
      rw [List.find?_isSome]
      exact ⟨row, member, by simp [same]⟩
    obtain ⟨found, located⟩ := Option.isSome_iff_exists.mp some
    have matched := List.find?_some located
    simp only [decide_eq_true_eq] at matched
    have equal : found = row :=
      List.inj_on_of_nodup_map tables.vectorKey (List.mem_of_find?_eq_some located) member
        (Prod.ext (matched.1.trans same) matched.2)
    have vector : (scan g row).vector = row.vector := rfl
    rw [vector, Tables.row, located, equal, Option.map_some]
  · intro ⟨g, known, present⟩
    obtain ⟨found, located, scanned⟩ := Option.map_eq_some_iff.mp present
    have matched := List.find?_some located
    simp only [decide_eq_true_eq] at matched
    exact ⟨found, List.mem_of_find?_eq_some located, g, ⟨known, matched.1.symm⟩, scanned⟩

section Loaded

variable {c : Catalog} {ip : Addr} (loaded : tables.Loads c)

include loaded

theorem mem_entries (t : Threshold) :
    t ∈ c.entries ↔ ∃ g ∈ tables.hostgroups, tables.row g t.vector = some t := by
  rw [loaded.mem_iff, mem_join]

theorem mem_lookup_of_longest {g : Hostgroup} {v : Vector} {t : Threshold}
    (longest : tables.Longest ip g) (present : tables.row g v = some t) : t ∈ c.lookup ip := by
  obtain ⟨vector, -, cidr⟩ := row_eq_some present
  rw [Catalog.mem_lookup]
  refine ⟨(mem_entries loaded t).mpr ⟨g, longest.1, vector ▸ present⟩, cidr ▸ longest.2.1, ?_⟩
  intro u entry inside
  obtain ⟨other, known, row⟩ := (mem_entries loaded u).mp entry
  obtain ⟨-, -, equal⟩ := row_eq_some row
  rw [equal, cidr]
  exact longest.2.2 other known (equal ▸ inside)

theorem hostgroup_of_lookup {t : Threshold} (member : t ∈ c.lookup ip) :
    ∃ g ∈ tables.hostgroups, tables.row g t.vector = some t ∧ g.cidr.contains ip = true ∧
      t.cidr = g.cidr := by
  obtain ⟨entry, inside, -⟩ := (Catalog.mem_lookup c ip t).mp member
  obtain ⟨g, known, row⟩ := (mem_entries loaded t).mp entry
  obtain ⟨-, -, equal⟩ := row_eq_some row
  exact ⟨g, known, row, equal ▸ inside, equal⟩

theorem longest_of_lookup {g : Hostgroup} {v : Vector} {t u : Threshold}
    (longest : tables.Longest ip g) (present : tables.row g v = some t)
    (chosen : u ∈ c.lookup ip) :
    ∃ other, tables.Longest ip other ∧ tables.row other u.vector = some u := by
  obtain ⟨other, known, row, inside, equal⟩ := hostgroup_of_lookup loaded chosen
  obtain ⟨-, -, cidr⟩ := row_eq_some present
  have member := mem_lookup_of_longest loaded longest present
  have lower := ((Catalog.mem_lookup c ip u).mp chosen).2.2 t
    ((Catalog.mem_lookup c ip t).mp member).1 (cidr ▸ longest.2.1)
  rw [cidr, equal] at lower
  exact ⟨other, ⟨known, inside, fun third entry within =>
    (longest.2.2 third entry within).trans lower⟩, row⟩

end Loaded

end Tables

/-- The threshold of an address is the row of one longest hostgroup, the same for all vectors. -/
def Effective (tables : Tables) (c : Catalog) (ip : Addr) : Prop :=
  ((∀ g ∈ tables.hostgroups, g.cidr.contains ip = false) →
    ∀ v, c.lookupByVector ip v = none) ∧
  ((∃ g ∈ tables.hostgroups, g.cidr.contains ip = true) →
    ∃ g, tables.Longest ip g ∧ ∀ v, c.lookupByVector ip v = tables.row g v)

/-- One longest hostgroup has every row that any of them has, and the first name among those that
have it; and where the longest hostgroups have no rows, no hostgroup of the address has any. -/
def Settled (tables : Tables) (ip : Addr) : Prop :=
  (∃ g ∈ tables.hostgroups, g.cidr.contains ip = true) →
    (∃ g, tables.Longest ip g ∧ ∀ v other, tables.Longest ip other →
      (tables.row other v).isSome → (tables.row g v).isSome ∧ g.name ≤ other.name) ∧
    ((∀ g, tables.Longest ip g → ∀ v, tables.row g v = none) →
      ∀ g ∈ tables.hostgroups, g.cidr.contains ip = true → ∀ v, tables.row g v = none)

theorem settled_of_effective {tables : Tables} {c : Catalog} (loaded : tables.Loads c)
    {ip : Addr} (effective : Effective tables c ip) : Settled tables ip := by
  intro covered
  obtain ⟨g, longest, agrees⟩ := effective.2 covered
  constructor
  · refine ⟨g, longest, ?_⟩
    intro v other top present
    obtain ⟨u, row⟩ := Option.isSome_iff_exists.mp present
    obtain ⟨vector, named, -⟩ := Tables.row_eq_some row
    have member := Tables.mem_lookup_of_longest loaded top row
    cases found : c.lookupByVector ip v with
    | none => exact absurd vector ((Catalog.lookupByVector_eq_none c ip v).mp found u member)
    | some t =>
        have own := (agrees v).symm.trans found
        obtain ⟨-, name, -⟩ := Tables.row_eq_some own
        have first := Catalog.lookupByVector_least found u member vector
        rw [name, named] at first
        exact ⟨by rw [own]; rfl, first⟩
  · intro ruleless other known inside v
    by_contra ruled
    obtain ⟨u, row⟩ := Option.ne_none_iff_exists'.mp ruled
    obtain ⟨vector, -, cidr⟩ := Tables.row_eq_some row
    have entry := (Tables.mem_entries loaded u).mpr ⟨other, known, vector ▸ row⟩
    have nonempty : c.lookup ip ≠ [] := by
      intro empty
      have outside := (Catalog.lookup_eq_nil_iff c ip).mp empty u entry
      rw [cidr, inside] at outside
      contradiction
    obtain ⟨t, member⟩ := List.exists_mem_of_ne_nil _ nonempty
    have silent : c.lookupByVector ip t.vector = none := by
      rw [agrees, ruleless g longest]
    exact (Catalog.lookupByVector_eq_none c ip t.vector).mp silent t member rfl

theorem effective_of_settled {tables : Tables} {c : Catalog} (loaded : tables.Loads c)
    {ip : Addr} (settled : Settled tables ip) : Effective tables c ip := by
  constructor
  · intro uncovered v
    rw [Catalog.lookupByVector_eq_none]
    intro t member
    obtain ⟨g, known, -, inside, -⟩ := Tables.hostgroup_of_lookup loaded member
    rw [uncovered g known] at inside
    contradiction
  · intro covered
    obtain ⟨⟨g, longest, first⟩, inherited⟩ := settled covered
    refine ⟨g, longest, ?_⟩
    intro v
    cases own : tables.row g v with
    | some t =>
        obtain ⟨vector, named, -⟩ := Tables.row_eq_some own
        have member := Tables.mem_lookup_of_longest loaded longest own
        cases found : c.lookupByVector ip v with
        | none => exact absurd vector ((Catalog.lookupByVector_eq_none c ip v).mp found t member)
        | some u =>
            obtain ⟨chosen, rfl⟩ := Catalog.lookupByVector_spec found
            obtain ⟨other, top, row⟩ := Tables.longest_of_lookup loaded longest own chosen
            obtain ⟨-, name, -⟩ := Tables.row_eq_some row
            have before := Catalog.lookupByVector_least found t member vector
            have after := (first u.vector other top (by rw [row]; rfl)).2
            rw [name, named] at before
            have equal : other = g := List.inj_on_of_nodup_map tables.nameKey top.1 longest.1
              (le_antisymm before after)
            rw [← own, ← equal, row]
    | none =>
        rw [Catalog.lookupByVector_eq_none]
        rintro u chosen rfl
        obtain ⟨owner, known, row, inside, -⟩ := Tables.hostgroup_of_lookup loaded chosen
        have ruleless : ∀ top, tables.Longest ip top → ∀ w, tables.row top w = none := by
          intro top greatest w
          by_contra ruled
          obtain ⟨t, present⟩ := Option.ne_none_iff_exists'.mp ruled
          obtain ⟨other, reached, entry⟩ :=
            Tables.longest_of_lookup loaded greatest present chosen
          have kept := (first u.vector other reached (by rw [entry]; rfl)).1
          rw [own] at kept
          contradiction
        rw [inherited ruleless owner known inside u.vector] at row
        contradiction

theorem effective_iff_settled (tables : Tables) (c : Catalog) (loaded : tables.Loads c)
    (ip : Addr) : Effective tables c ip ↔ Settled tables ip :=
  ⟨settled_of_effective loaded, effective_of_settled loaded⟩

def provider : Hostgroup := ⟨1, "provider", .v4 0xc0000000 16⟩
def customer : Hostgroup := ⟨2, "customer", .v4 0xc0000200 24⟩

def nestedTables : Tables where
  hostgroups := [provider, customer]
  thresholds := [⟨1, .udpFlood, 100, 1000, 5, 60⟩]
  idKey := by decide
  nameKey := by decide
  cidrNotNull := by decide
  references := by decide
  vectorKey := by decide
  ppsCheck := by decide
  bpsCheck := by decide
  windowCheck := by decide
  graceCheck := by decide

theorem nested_lookup :
    nestedTables.loadCatalog.lookupByVector (.v4 0xc0000201) .udpFlood =
      some (scan provider ⟨1, .udpFlood, 100, 1000, 5, 60⟩) := by
  have joined : nestedTables.join = [scan provider ⟨1, .udpFlood, 100, 1000, 5, 60⟩] := by decide
  simp only [Tables.loadCatalog, newCatalogFromThresholds, Catalog.lookupByVector, Catalog.lookup,
    joined, List.mergeSort_singleton]
  decide

theorem effective_iff_settled_nested :
    Effective nestedTables nestedTables.loadCatalog (.v4 0xc0000101) ∧
      ¬ Effective nestedTables nestedTables.loadCatalog (.v4 0xc0000201) := by
  constructor
  · have only : ∀ g ∈ nestedTables.hostgroups, g.cidr.contains (.v4 0xc0000101) = true →
        g = provider := by
      decide
    refine (effective_iff_settled nestedTables _ nestedTables.loadCatalog_loads _).mpr fun _ => ?_
    have longest : nestedTables.Longest (.v4 0xc0000101) provider :=
      ⟨by decide, by decide, by decide⟩
    constructor
    · refine ⟨provider, longest, fun v other top present => ?_⟩
      rw [only other top.1 top.2.1] at present ⊢
      exact ⟨present, le_rfl⟩
    · intro ruleless
      have limited := ruleless provider longest .udpFlood
      contradiction
  · rw [effective_iff_settled nestedTables _ nestedTables.loadCatalog_loads]
    intro settled
    have bare : ∀ g, nestedTables.Longest (.v4 0xc0000201) g → ∀ v, nestedTables.row g v = none := by
      rintro g ⟨member, -, greatest⟩ v
      have known : g = provider ∨ g = customer := by simpa [nestedTables] using member
      rcases known with rfl | rfl
      · exact absurd (greatest customer (by decide) (by decide)) (by decide)
      · cases v <;> decide
    have limited := (settled ⟨customer, by decide, by decide⟩).2 bare provider (by decide)
      (by decide) .udpFlood
    contradiction

/-- The customer is judged by the limits of the provider. -/
theorem nested_customer_inherits :
    nestedTables.Loads nestedTables.loadCatalog ∧
      ¬ Effective nestedTables nestedTables.loadCatalog (.v4 0xc0000201) := by
  refine ⟨nestedTables.loadCatalog_loads, ?_⟩
  intro effective
  obtain ⟨g, ⟨member, -, greatest⟩, agrees⟩ := effective.2 ⟨customer, by decide, by decide⟩
  have bare : nestedTables.row g .udpFlood = none := by
    have known : g = provider ∨ g = customer := by simpa [nestedTables] using member
    rcases known with rfl | rfl
    · exact absurd (greatest customer (by decide) (by decide)) (by decide)
    · decide
  have judged := agrees .udpFlood
  rw [nested_lookup, bare] at judged
  contradiction

end Mitigador.Detect
