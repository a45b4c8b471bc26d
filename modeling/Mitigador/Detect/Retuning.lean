import Mitigador.Detect.Average

/-! Two catalogs that differ in one row of the thresholds table at most, and what they tell the
detector about the other vector. -/

namespace Mitigador.Detect

open Go Lib Aggregate

def Threshold.isRow (hostgroupID : Int) (v : Vector) (t : Threshold) : Bool :=
  decide (t.hostgroupID = hostgroupID) && decide (t.vector = v)

def Catalog.others (c : Catalog) (hostgroupID : Int) (tuned v : Vector) : List Threshold :=
  c.entries.filter fun t => decide (t.vector = v) && !t.isRow hostgroupID tuned

/-- The catalogs have the same entries, in one order within each vector, but for the row of one
vector of one hostgroup, which each of them may have or not. -/
structure Retuned (hostgroupID : Int) (tuned : Vector) (a b : Catalog) : Prop where
  others : ∀ v, a.others hostgroupID tuned v = b.others hostgroupID tuned v
  hostgroup : ∀ t ∈ a.entries, ∀ u ∈ b.entries, t.isRow hostgroupID tuned = true →
    u.isRow hostgroupID tuned = true → t.hostgroupName = u.hostgroupName ∧ t.cidr = u.cidr

structure SameWidth (hostgroupID : Int) (tuned : Vector) (a b : Catalog) : Prop where
  first : ∀ t ∈ a.entries, t.isRow hostgroupID tuned = true →
    ∃ u ∈ b.entries, u.isRow hostgroupID tuned = true ∧ u.minWindowSec = t.minWindowSec
  second : ∀ u ∈ b.entries, u.isRow hostgroupID tuned = true →
    ∃ t ∈ a.entries, t.isRow hostgroupID tuned = true ∧ t.minWindowSec = u.minWindowSec

/-- The seconds of a host that are classified: a tick has cleared the sixtieth one behind it. -/
def Catalog.scope (c : Catalog) (ip : Addr) : Int := min (maxWindow (c.lookup ip)) (windowSize - 1)

/-- A vector has a rule for the host under both catalogs or under none, and where it has one the
same seconds are classified. -/
structure SameView (a b : Catalog) (ip : Addr) (v : Vector) : Prop where
  ruled : (a.lookupByVector ip v).isSome = (b.lookupByVector ip v).isSome
  scope : (a.lookupByVector ip v).isSome = true → a.scope ip = b.scope ip

namespace Retuned

variable {hostgroupID : Int} {tuned v : Vector} {a b : Catalog} {ip : Addr}

theorem symm (retuned : Retuned hostgroupID tuned a b) : Retuned hostgroupID tuned b a where
  others v := (retuned.others v).symm
  hostgroup t member u other row same :=
    let ⟨name, cidr⟩ := retuned.hostgroup u other t member same row
    ⟨name.symm, cidr.symm⟩

theorem mem_other (retuned : Retuned hostgroupID tuned a b) {t : Threshold}
    (member : t ∈ a.entries) (other : t.isRow hostgroupID tuned = false) : t ∈ b.entries := by
  have kept : t ∈ a.others hostgroupID tuned t.vector := by
    rw [Catalog.others, List.mem_filter]
    exact ⟨member, by simp [other]⟩
  rw [retuned.others, Catalog.others, List.mem_filter] at kept
  exact kept.1

theorem isRow_eq_false {t : Threshold} (apart : t.vector ≠ tuned) :
    t.isRow hostgroupID tuned = false := by
  simp [Threshold.isRow, apart]

theorem entries_of_vector (retuned : Retuned hostgroupID tuned a b) (apart : v ≠ tuned) :
    a.entries.filter (fun t => decide (t.vector = v)) =
      b.entries.filter fun t => decide (t.vector = v) := by
  have untouched : ∀ c : Catalog, c.others hostgroupID tuned v =
      c.entries.filter fun t => decide (t.vector = v) := by
    intro c
    apply List.filter_congr
    intro t _
    by_cases same : t.vector = v
    · rw [isRow_eq_false (same ▸ apart), same]
      simp
    · simp [same]
  rw [← untouched a, ← untouched b, retuned.others]

end Retuned

namespace Catalog

variable {c : Catalog} {ip : Addr} {v : Vector}

/-- The rule of a vector is its first entry of the greatest length that any entry reaches. -/
theorem lookupByVector_eq {bits : Int} {t : Threshold} (longest : t ∈ c.lookup ip)
    (same : t.cidr.bits = bits) :
    c.lookupByVector ip v = (c.entries.filter fun t => decide (t.vector = v)).find?
      fun t => t.cidr.contains ip && decide (t.cidr.bits = bits) := by
  obtain ⟨entry, inside, greatest⟩ := (mem_lookup c ip t).mp longest
  have top : ∀ u ∈ c.entries, isLongest (fun t : Threshold => t.cidr.contains ip)
      (fun t => t.cidr.bits) c.entries u = (u.cidr.contains ip && decide (u.cidr.bits = bits)) := by
    intro u member
    rw [Bool.eq_iff_iff, isLongest_iff, Bool.and_eq_true, decide_eq_true_eq]
    refine and_congr_right fun within => ?_
    constructor
    · intro upper
      exact (greatest u member within).antisymm (upper t entry inside) |>.trans same
    · intro equal other present covered
      rw [equal, ← same]
      exact greatest other present covered
  rw [lookupByVector, lookup,
    longest_eq_filter c.descending fun _ _ within => Prefix.bits_nonneg_of_contains within,
    List.filter_congr top, List.find?_filter, List.find?_filter]
  congr 1
  funext u
  exact decide_eq_decide.mpr and_comm

end Catalog

namespace Retuned

variable {hostgroupID : Int} {tuned v : Vector} {a b : Catalog} {ip : Addr}

theorem rule_eq (retuned : Retuned hostgroupID tuned a b) (apart : v ≠ tuned)
    (ruled : (a.lookupByVector ip v).isSome = (b.lookupByVector ip v).isSome) :
    a.lookupByVector ip v = b.lookupByVector ip v := by
  cases first : a.lookupByVector ip v with
  | none =>
      rw [first] at ruled
      exact (Option.isSome_eq_false_iff.mp ruled.symm |> Option.isNone_iff_eq_none.mp).symm
  | some t =>
      rw [first] at ruled
      obtain ⟨u, second⟩ := Option.isSome_iff_exists.mp ruled.symm
      obtain ⟨longest, vector⟩ := Catalog.lookupByVector_spec first
      obtain ⟨greatest, same⟩ := Catalog.lookupByVector_spec second
      obtain ⟨entry, inside, upper⟩ := (Catalog.mem_lookup a ip t).mp longest
      obtain ⟨member, within, above⟩ := (Catalog.mem_lookup b ip u).mp greatest
      have low : t.cidr.bits ≤ u.cidr.bits :=
        above t (retuned.mem_other entry (isRow_eq_false (vector ▸ apart))) inside
      have high : u.cidr.bits ≤ t.cidr.bits :=
        upper u (retuned.symm.mem_other member (isRow_eq_false (same ▸ apart))) within
      rw [← first, Catalog.lookupByVector_eq longest rfl,
        Catalog.lookupByVector_eq greatest (high.antisymm low), retuned.entries_of_vector apart]

end Retuned

theorem maxWindow_congr {first second : List Threshold}
    (forward : ∀ t ∈ first, ∃ u ∈ second, u.minWindowSec = t.minWindowSec)
    (backward : ∀ u ∈ second, ∃ t ∈ first, t.minWindowSec = u.minWindowSec) :
    maxWindow first = maxWindow second := by
  have below : ∀ {lower upper : List Threshold},
      (∀ t ∈ lower, ∃ u ∈ upper, u.minWindowSec = t.minWindowSec) →
      lower.foldl (fun widest t => if t.minWindowSec > widest then t.minWindowSec else widest) 0 ≤
        upper.foldl
          (fun widest t => if t.minWindowSec > widest then t.minWindowSec else widest) 0 := by
    intro lower upper twins
    obtain ⟨nonneg, reached⟩ := foldl_widest upper 0
    refine foldl_widest_le nonneg fun t member => ?_
    obtain ⟨u, present, equal⟩ := twins t member
    rw [← equal]
    exact reached u present
  simp only [maxWindow, (below forward).antisymm (below backward)]

namespace Retuned

variable {hostgroupID : Int} {tuned v : Vector} {a b : Catalog} {ip : Addr}

theorem twin (retuned : Retuned hostgroupID tuned a b)
    (kept : ∀ t ∈ a.entries, t.isRow hostgroupID tuned = true →
      ∃ u ∈ b.entries, u.isRow hostgroupID tuned = true ∧ u.minWindowSec = t.minWindowSec)
    {t : Threshold} (member : t ∈ a.entries) :
    ∃ u ∈ b.entries, u.cidr = t.cidr ∧ u.vector = t.vector ∧ u.minWindowSec = t.minWindowSec := by
  cases row : t.isRow hostgroupID tuned with
  | false => exact ⟨t, retuned.mem_other member row, rfl, rfl, rfl⟩
  | true =>
      obtain ⟨u, present, same, width⟩ := kept t member row
      obtain ⟨-, cidr⟩ := retuned.hostgroup t member u present row same
      simp only [Threshold.isRow, Bool.and_eq_true, decide_eq_true_eq] at row same
      exact ⟨u, present, cidr.symm, same.2.trans row.2.symm, width⟩

theorem lookup_twin (retuned : Retuned hostgroupID tuned a b)
    (width : SameWidth hostgroupID tuned a b) {t : Threshold} (longest : t ∈ a.lookup ip) :
    ∃ u ∈ b.lookup ip, u.vector = t.vector ∧ u.minWindowSec = t.minWindowSec := by
  obtain ⟨entry, inside, greatest⟩ := (Catalog.mem_lookup a ip t).mp longest
  obtain ⟨u, present, cidr, vector, equal⟩ := retuned.twin width.first entry
  refine ⟨u, (Catalog.mem_lookup b ip u).mpr ⟨present, cidr ▸ inside, ?_⟩, vector, equal⟩
  intro other member within
  obtain ⟨back, known, same, -, -⟩ := retuned.symm.twin width.second member
  rw [cidr, ← same]
  exact greatest back known (same ▸ within)

theorem sameView (retuned : Retuned hostgroupID tuned a b)
    (width : SameWidth hostgroupID tuned a b) (ip : Addr) (v : Vector) : SameView a b ip v := by
  have back : SameWidth hostgroupID tuned b a := ⟨width.second, width.first⟩
  constructor
  · have kept : ∀ {c d : Catalog}, Retuned hostgroupID tuned c d →
        SameWidth hostgroupID tuned c d → (c.lookupByVector ip v).isSome = true →
          (d.lookupByVector ip v).isSome = true := by
      intro c d changed same ruled
      obtain ⟨t, found⟩ := Option.isSome_iff_exists.mp ruled
      obtain ⟨longest, vector⟩ := Catalog.lookupByVector_spec found
      obtain ⟨u, reached, equal, -⟩ := changed.lookup_twin same longest
      rw [Catalog.lookupByVector, List.find?_isSome]
      exact ⟨u, reached, by simp [equal, vector]⟩
    exact Bool.eq_iff_iff.mpr ⟨kept retuned width, kept retuned.symm back⟩
  · intro _
    have windows : maxWindow (a.lookup ip) = maxWindow (b.lookup ip) := by
      apply maxWindow_congr
      · intro t longest
        obtain ⟨u, reached, -, equal⟩ := retuned.lookup_twin width longest
        exact ⟨u, reached, equal⟩
      · intro u longest
        obtain ⟨t, reached, -, equal⟩ := retuned.symm.lookup_twin back longest
        exact ⟨t, reached, equal⟩
    rw [Catalog.scope, windows, Catalog.scope]

end Retuned

end Mitigador.Detect
