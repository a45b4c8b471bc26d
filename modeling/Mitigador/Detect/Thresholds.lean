import Mathlib.Data.String.Basic
import Mathlib.Data.List.Sort
import Mathlib.Order.Defs.LinearOrder
import Mitigador.Detect.Event
import Mitigador.Lib.LongestMatch

/-! The threshold catalog (internal/detect/thresholds.go). -/

namespace Mitigador.Detect

open Go Lib

structure Threshold where
  hostgroupID : Int
  hostgroupName : String
  cidr : Prefix
  vector : Vector
  pps : UInt64
  bps : UInt64
  minWindowSec : Int
  graceSec : Int
  deriving DecidableEq, Repr

namespace Threshold

def less (t u : Threshold) : Bool :=
  if t.cidr.bits ≠ u.cidr.bits then decide (t.cidr.bits > u.cidr.bits)
  else decide (t.hostgroupName < u.hostgroupName)

theorem less_eq_false_iff (t u : Threshold) : u.less t = false ↔
    u.cidr.bits < t.cidr.bits ∨
      u.cidr.bits = t.cidr.bits ∧ t.hostgroupName ≤ u.hostgroupName := by
  unfold less
  by_cases same : u.cidr.bits = t.cidr.bits
  · simp only [same, ne_eq, not_true_eq_false, if_false, decide_eq_false_iff_not, not_lt,
      lt_irrefl, false_or, true_and]
  · simp only [ne_eq, same, not_false_iff, if_true, decide_eq_false_iff_not, not_lt, gt_iff_lt,
      false_and, or_false]
    omega

end Threshold

/-- `sort.Slice` promises no more than an order in which no entry is less than an earlier one. -/
structure Catalog where
  entries : List Threshold
  sorted : entries.Pairwise fun first second => second.less first = false

/-- `NewCatalogFromThresholds`, with a stable sort as its `sort.Slice`. -/
def newCatalogFromThresholds (thresholds : List Threshold) : Catalog where
  entries := thresholds.mergeSort fun first second => !second.less first
  sorted := by
    have total : ∀ first second : Threshold, (!second.less first || !first.less second) = true := by
      intro first second
      simp only [Bool.or_eq_true, Bool.not_eq_true', Threshold.less_eq_false_iff]
      rcases lt_trichotomy first.cidr.bits second.cidr.bits with below | equal | above
      · right; left; exact below
      · rcases le_total first.hostgroupName second.hostgroupName with named | named
        · left; right; exact ⟨equal.symm, named⟩
        · right; right; exact ⟨equal, named⟩
      · left; left; exact above
    have transitive : ∀ first second third : Threshold, (!second.less first) = true →
        (!third.less second) = true → (!third.less first) = true := by
      intro first second third
      simp only [Bool.not_eq_true', Threshold.less_eq_false_iff]
      rintro (below | ⟨equal, named⟩) (lower | ⟨same, later⟩)
      · left; omega
      · left; omega
      · left; omega
      · right; exact ⟨same.trans equal, named.trans later⟩
    have ordered := List.pairwise_mergeSort transitive total thresholds
    exact ordered.imp fun holds => by simpa using holds

namespace Catalog

def lookup (c : Catalog) (ip : Addr) : List Threshold :=
  longest (fun t : Threshold => t.cidr.contains ip) (fun t => t.cidr.bits) (-1) c.entries

def lookupByVector (c : Catalog) (ip : Addr) (v : Vector) : Option Threshold :=
  (c.lookup ip).find? fun t => t.vector = v

theorem descending (c : Catalog) :
    c.entries.Pairwise fun first second => second.cidr.bits ≤ first.cidr.bits := by
  apply c.sorted.imp
  intro first second ordered
  rcases (Threshold.less_eq_false_iff first second).mp ordered with below | ⟨same, -⟩
  · exact below.le
  · exact same.le

theorem mem_lookup (c : Catalog) (ip : Addr) (t : Threshold) :
    t ∈ c.lookup ip ↔ t ∈ c.entries ∧ t.cidr.contains ip = true ∧
      ∀ u ∈ c.entries, u.cidr.contains ip = true → u.cidr.bits ≤ t.cidr.bits :=
  mem_longest c.descending (fun _ _ inside => Prefix.bits_nonneg_of_contains inside) t

theorem lookup_sublist (c : Catalog) (ip : Addr) : (c.lookup ip).Sublist c.entries := by
  unfold lookup
  rw [longest_eq_filter c.descending fun _ _ inside => Prefix.bits_nonneg_of_contains inside]
  exact List.filter_sublist

theorem lookup_eq_nil_iff (c : Catalog) (ip : Addr) :
    c.lookup ip = [] ↔ ∀ t ∈ c.entries, t.cidr.contains ip = false :=
  longest_eq_nil_iff

theorem lookupByVector_eq_none (c : Catalog) (ip : Addr) (v : Vector) :
    c.lookupByVector ip v = none ↔ ∀ t ∈ c.lookup ip, t.vector ≠ v := by
  simp [lookupByVector]

theorem lookupByVector_spec {c : Catalog} {ip : Addr} {v : Vector} {t : Threshold}
    (found : c.lookupByVector ip v = some t) : t ∈ c.lookup ip ∧ t.vector = v :=
  ⟨List.mem_of_find?_eq_some found, by simpa using List.find?_some found⟩

theorem lookupByVector_least {c : Catalog} {ip : Addr} {v : Vector} {t : Threshold}
    (found : c.lookupByVector ip v = some t) :
    ∀ u ∈ c.lookup ip, u.vector = v → t.hostgroupName ≤ u.hostgroupName := by
  intro u member same
  obtain ⟨-, front, back, split, skipped⟩ := List.find?_eq_some_iff_append.mp found
  rw [split] at member
  rcases List.mem_append.mp member with early | late
  · exact absurd same (by simpa using skipped u early)
  · rcases List.mem_cons.mp late with rfl | late
    · exact le_rfl
    · have ordered := c.sorted.sublist (c.lookup_sublist ip)
      rw [split, List.pairwise_append, List.pairwise_cons] at ordered
      have known := (mem_lookup c ip t).mp (by rw [split]; simp)
      have other := (mem_lookup c ip u).mp (by rw [split]; simp [late])
      have upper := known.2.2 u other.1 other.2.1
      have lower := other.2.2 t known.1 known.2.1
      rcases (Threshold.less_eq_false_iff t u).mp (ordered.2.1.1 u late) with below | ⟨-, named⟩
      · omega
      · exact named

end Catalog

end Mitigador.Detect
