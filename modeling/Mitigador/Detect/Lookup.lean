import Mitigador.Detect.Thresholds

/-! What the lookups of a catalog answer, by the list that it was built from. -/

namespace Mitigador.Go.Prefix

def masked : Prefix → Prefix
  | invalid => invalid
  | v4 net length => v4 (net >>> (32 - length.val) <<< (32 - length.val)) length
  | v6 net length => v6 (net >>> (128 - length.val) <<< (128 - length.val)) length

theorem ushiftRight_eq_of_xor {width : Nat} {ip net : BitVec width} {count : Nat}
    (inside : (ip ^^^ net) >>> count = 0) : net >>> count = ip >>> count := by
  rw [BitVec.ushiftRight_xor_distrib] at inside
  exact (BitVec.xor_eq_zero_iff.mp inside).symm

theorem masked_eq_of_contains {first second : Prefix} {ip : Addr}
    (inside : first.contains ip = true) (within : second.contains ip = true)
    (length : first.bits = second.bits) : first.masked = second.masked := by
  cases first with
  | invalid => contradiction
  | v4 net width =>
      cases ip with
      | invalid | v6 => contradiction
      | v4 ip =>
          cases second with
          | invalid | v6 => contradiction
          | v4 other count =>
              obtain rfl : width = count := Fin.ext (Int.ofNat.inj length)
              simp only [contains, beq_iff_eq] at inside within
              rw [masked, masked, ushiftRight_eq_of_xor inside, ushiftRight_eq_of_xor within]
  | v6 net width =>
      cases ip with
      | invalid | v4 => contradiction
      | v6 ip zone =>
          cases second with
          | invalid | v4 => contradiction
          | v6 other count =>
              obtain rfl : width = count := Fin.ext (Int.ofNat.inj length)
              simp only [contains, Bool.and_eq_true, beq_iff_eq] at inside within
              rw [masked, masked, ushiftRight_eq_of_xor inside.2, ushiftRight_eq_of_xor within.2]

end Mitigador.Go.Prefix

namespace Mitigador.Detect

open Go Lib

/-- The catalog of a list: `sort.Slice` may leave equal entries in any order. -/
def Catalog.Builds (c : Catalog) (thresholds : List Threshold) : Prop :=
  c.entries.Perm thresholds

theorem newCatalogFromThresholds_builds (thresholds : List Threshold) :
    (newCatalogFromThresholds thresholds).Builds thresholds :=
  List.mergeSort_perm _ _

def Best (thresholds : List Threshold) (ip : Addr) (t : Threshold) : Prop :=
  t.cidr.contains ip = true ∧
    ∀ u ∈ thresholds, u.cidr.contains ip = true → u.cidr.bits ≤ t.cidr.bits

instance (thresholds : List Threshold) (ip : Addr) (t : Threshold) :
    Decidable (Best thresholds ip t) :=
  inferInstanceAs (Decidable (_ ∧ _))

/-- No two entries share the network, the name of the hostgroup and the vector. -/
def Distinct (thresholds : List Threshold) : Prop :=
  thresholds.Pairwise fun t u => ¬ (t.cidr.masked = u.cidr.masked ∧
    t.hostgroupName = u.hostgroupName ∧ t.vector = u.vector)

def DistinctWritten (thresholds : List Threshold) : Prop :=
  thresholds.Pairwise fun t u => ¬ (t.cidr = u.cidr ∧
    t.hostgroupName = u.hostgroupName ∧ t.vector = u.vector)

namespace Catalog

variable {c d : Catalog} {thresholds permuted : List Threshold} {ip : Addr} {v : Vector}
  {t u : Threshold}

theorem Builds.mem_lookup (built : c.Builds thresholds) :
    t ∈ c.lookup ip ↔ t ∈ thresholds ∧ Best thresholds ip t := by
  rw [Catalog.mem_lookup, built.mem_iff, Best]
  simp only [built.mem_iff]

theorem Builds.lookup_perm (built : c.Builds thresholds) (ip : Addr) :
    (c.lookup ip).Perm (thresholds.filter fun t => decide (Best thresholds ip t)) := by
  have kept : c.lookup ip = c.entries.filter fun t => decide (Best thresholds ip t) := by
    rw [lookup, longest_eq_filter c.descending fun _ _ inside =>
      Prefix.bits_nonneg_of_contains inside]
    apply List.filter_congr
    intro t _
    rw [Bool.eq_iff_iff, isLongest_iff, decide_eq_true_iff, Best]
    simp only [built.mem_iff]
  rw [kept]
  exact built.filter _

theorem Builds.found_iff (built : c.Builds thresholds) :
    (c.lookupByVector ip v).isSome = true ↔
      ∃ t ∈ thresholds, Best thresholds ip t ∧ t.vector = v := by
  rw [lookupByVector, List.find?_isSome]
  simp only [built.mem_lookup, decide_eq_true_eq, and_assoc]

theorem Builds.found_spec (built : c.Builds thresholds) (found : c.lookupByVector ip v = some t) :
    t ∈ thresholds ∧ Best thresholds ip t ∧ t.vector = v ∧
      ∀ u ∈ thresholds, Best thresholds ip u → u.vector = v →
        t.hostgroupName ≤ u.hostgroupName := by
  obtain ⟨longest, vector⟩ := lookupByVector_spec found
  obtain ⟨member, best⟩ := built.mem_lookup.mp longest
  exact ⟨member, best, vector, fun u present top same =>
    lookupByVector_least found u (built.mem_lookup.mpr ⟨present, top⟩) same⟩

theorem eq_of_best (distinct : Distinct thresholds) (member : t ∈ thresholds)
    (best : Best thresholds ip t) (present : u ∈ thresholds) (top : Best thresholds ip u)
    (name : t.hostgroupName = u.hostgroupName) (vector : t.vector = u.vector) : t = u := by
  by_contra different
  have bits : t.cidr.bits = u.cidr.bits :=
    (top.2 t member best.1).antisymm (best.2 u present top.1)
  have network := Prefix.masked_eq_of_contains best.1 top.1 bits
  have symmetric : Std.Symm fun t u : Threshold => ¬ (t.cidr.masked = u.cidr.masked ∧
      t.hostgroupName = u.hostgroupName ∧ t.vector = u.vector) :=
    ⟨fun _ _ apart same => apart ⟨same.1.symm, same.2.1.symm, same.2.2.symm⟩⟩
  exact List.Pairwise.forall distinct member present different ⟨network, name, vector⟩

theorem lookupByVector_perm (built : c.Builds thresholds) (other : d.Builds permuted)
    (perm : permuted.Perm thresholds) (distinct : Distinct thresholds) (ip : Addr) (v : Vector) :
    d.lookupByVector ip v = c.lookupByVector ip v := by
  have rebuilt : d.Builds thresholds := List.Perm.trans other perm
  cases found : c.lookupByVector ip v with
  | none =>
      have missing := Option.isSome_eq_false_iff.mpr (Option.isNone_iff_eq_none.mpr found)
      rw [← Option.isNone_iff_eq_none, ← Option.isSome_eq_false_iff, ← missing, Bool.eq_iff_iff,
        rebuilt.found_iff, built.found_iff]
  | some t =>
      have some : (d.lookupByVector ip v).isSome = true := by
        rw [rebuilt.found_iff, ← built.found_iff, found]
        rfl
      obtain ⟨u, reached⟩ := Option.isSome_iff_exists.mp some
      obtain ⟨member, best, vector, least⟩ := built.found_spec found
      obtain ⟨present, top, same, first⟩ := rebuilt.found_spec reached
      rw [reached, eq_of_best distinct present top member best
        ((first t member best vector).antisymm (least u present top same)) (same.trans vector.symm)]

end Catalog

/-- The answers of a catalog, whatever order its sort leaves: the entries of the greatest length
that contain the address, the first name among those of a vector, and nothing that hangs on the
order of the list unless two entries share network, name and vector. -/
theorem catalog_lookup {thresholds : List Threshold} {c : Catalog} (built : c.Builds thresholds)
    (ip : Addr) :
    (c.lookup ip).Perm (thresholds.filter fun t => decide (Best thresholds ip t)) ∧
      (∀ v, ((c.lookupByVector ip v).isSome = true ↔
          ∃ t ∈ thresholds, Best thresholds ip t ∧ t.vector = v) ∧
        ∀ t, c.lookupByVector ip v = some t →
          t ∈ thresholds ∧ Best thresholds ip t ∧ t.vector = v ∧
            ∀ u ∈ thresholds, Best thresholds ip u → u.vector = v →
              t.hostgroupName ≤ u.hostgroupName) ∧
      ∀ (permuted : List Threshold) (d : Catalog), permuted.Perm thresholds → d.Builds permuted →
        Distinct thresholds → (d.lookup ip).Perm (c.lookup ip) ∧
          ∀ v, d.lookupByVector ip v = c.lookupByVector ip v := by
  refine ⟨built.lookup_perm ip, fun v => ⟨built.found_iff, fun t found => built.found_spec found⟩,
    ?_⟩
  intro permuted d perm other distinct
  have rebuilt : d.Builds thresholds := List.Perm.trans other perm
  exact ⟨(rebuilt.lookup_perm ip).trans (built.lookup_perm ip).symm,
    Catalog.lookupByVector_perm built other perm distinct ip⟩

theorem slash24_lt : 24 < 33 := by decide

def slash24 (net : BitVec 32) : Prefix := .v4 net ⟨24, slash24_lt⟩

def sampleThresholds : List Threshold :=
  [⟨3, "provider", .v4 0xc0000000 ⟨16, by decide⟩, .udpFlood, 100, 1000, 5, 60⟩,
    ⟨1, "gaming", slash24 0xc0000200, .udpFlood, 200, 2000, 5, 60⟩,
    ⟨2, "corporate", slash24 0xc0000200, .icmpFlood, 300, 3000, 5, 60⟩,
    ⟨2, "corporate", slash24 0xc0000200, .udpFlood, 400, 4000, 5, 60⟩]

theorem catalog_lookup_sample :
    ∃ t, (newCatalogFromThresholds sampleThresholds).lookupByVector (.v4 0xc0000201) .udpFlood =
        some t ∧ t.pps = 400 ∧
      (newCatalogFromThresholds sampleThresholds.reverse).lookupByVector (.v4 0xc0000201)
        .udpFlood = some t := by
  have distinct : Distinct sampleThresholds := by
    unfold Distinct
    decide
  obtain ⟨-, vectors, permuted⟩ := catalog_lookup
    (newCatalogFromThresholds_builds sampleThresholds) (.v4 0xc0000201)
  have same := (permuted sampleThresholds.reverse _ sampleThresholds.reverse_perm
    (newCatalogFromThresholds_builds _) distinct).2 .udpFlood
  have some := (vectors .udpFlood).1.mpr (by decide)
  obtain ⟨t, found⟩ := Option.isSome_iff_exists.mp some
  have least := (vectors .udpFlood).2 t found
  have first : ∀ t ∈ sampleThresholds, Best sampleThresholds (.v4 0xc0000201) t →
      t.vector = .udpFlood → (∀ u ∈ sampleThresholds, Best sampleThresholds (.v4 0xc0000201) u →
        u.vector = .udpFlood → t.hostgroupName ≤ u.hostgroupName) → t.pps = 400 := by
    decide
  exact ⟨t, found, first t least.1 least.2.1 least.2.2.1 least.2.2.2, same.trans found⟩

def writtenTwice : List Threshold :=
  [⟨1, "corporate", slash24 0xc0000201, .udpFlood, 100, 1000, 5, 60⟩,
    ⟨1, "corporate", slash24 0xc0000202, .udpFlood, 200, 2000, 5, 60⟩]

theorem newCatalogFromThresholds_sorted {thresholds : List Threshold}
    (sorted : thresholds.Pairwise fun first second => second.less first = false) :
    (newCatalogFromThresholds thresholds).entries = thresholds := by
  apply List.mergeSort_of_pairwise
  exact sorted.imp fun equal => by rw [equal]; rfl

/-- No two entries have the same prefix as written, and the order of the list decides. -/
theorem order_decides :
    DistinctWritten writtenTwice ∧ writtenTwice.reverse.Perm writtenTwice ∧
      (newCatalogFromThresholds writtenTwice.reverse).lookupByVector (.v4 0xc0000205) .udpFlood ≠
        (newCatalogFromThresholds writtenTwice).lookupByVector (.v4 0xc0000205) .udpFlood := by
  refine ⟨by unfold DistinctWritten; decide, writtenTwice.reverse_perm, ?_⟩
  have forward := newCatalogFromThresholds_sorted
    (show writtenTwice.Pairwise fun first second => second.less first = false by decide)
  have backward := newCatalogFromThresholds_sorted
    (show writtenTwice.reverse.Pairwise fun first second => second.less first = false by decide)
  rw [Catalog.lookupByVector, Catalog.lookupByVector, Catalog.lookup, Catalog.lookup, forward,
    backward]
  decide

end Mitigador.Detect
