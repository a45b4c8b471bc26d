import Mathlib.Data.List.Sort

/-! Pages of a list that is sorted anew for each of them, by a key that leaves ties open. -/

namespace Mitigador.Lib

variable {α κ : Type*} [LinearOrder κ] (key : α → κ)

structure Ordered (rows order : List α) : Prop where
  perm : order.Perm rows
  sorted : order.Pairwise fun first second => key second ≤ key first

omit [LinearOrder κ] in
def page (order : List α) (size k : Nat) : List α := (order.drop (k * size)).take size

def crawl (orders : Nat → List α) (size n : Nat) : List α :=
  (List.range n).flatMap fun k => page (orders k) size k

def Straddles (rows : List α) (position : Nat) : Prop :=
  ∃ row ∈ rows, rows.countP (fun other => decide (key row < key other)) < position ∧
    position < rows.countP fun other => decide (key row ≤ key other)

theorem Straddles.page_lt {key : α → κ} {rows : List α} {size k n : Nat}
    (straddles : Straddles key rows (k * size)) (enough : rows.length ≤ n * size) : k < n := by
  obtain ⟨row, -, -, high⟩ := straddles
  exact Nat.lt_of_mul_lt_mul_right (lt_of_lt_of_le high (List.countP_le_length.trans enough))

theorem crawl_succ (orders : Nat → List α) (size n : Nat) :
    crawl orders size (n + 1) = crawl orders size n ++ page (orders n) size n := by
  rw [crawl, List.range_succ, List.flatMap_append]
  simp [crawl]

theorem take_page (order : List α) (size n : Nat) :
    order.take ((n + 1) * size) = order.take (n * size) ++ page order size n := by
  rw [Nat.succ_mul, List.take_add, page]

theorem crawl_const (order : List α) (size n : Nat) :
    crawl (fun _ => order) size n = order.take (n * size) := by
  induction n with
  | zero => simp [crawl]
  | succ n ih => rw [crawl_succ, ih, take_page]

theorem map_crawl {β : Type*} (f : α → β) (orders : Nat → List α) (size n : Nat) :
    (crawl orders size n).map f = crawl (fun k => (orders k).map f) size n := by
  simp [crawl, page, List.map_flatMap, List.map_take, List.map_drop]

section Sorted

variable {key} {rows order other : List α}

theorem lt_countP_iff {above : α → Bool} (sorted : order.Pairwise fun first second =>
      key second ≤ key first) (up : ∀ a b, key a ≤ key b → above a = true → above b = true)
    {i : Nat} (inside : i < order.length) : i < order.countP above ↔ above order[i] = true := by
  induction order generalizing i with
  | nil => simp at inside
  | cons head rest ih =>
      obtain ⟨first, later⟩ := List.pairwise_cons.mp sorted
      have below : ¬ above head = true → rest.countP above = 0 := by
        intro here
        rw [List.countP_eq_zero]
        exact fun row member there => here (up row head (first row member) there)
      cases i with
      | zero =>
          rw [List.countP_cons, List.getElem_cons_zero]
          by_cases here : above head = true
          · simp [here]
          · simp [here, below here]
      | succ i =>
          have shorter : i < rest.length := Nat.lt_of_succ_lt_succ inside
          rw [List.countP_cons, List.getElem_cons_succ, ← ih later shorter]
          by_cases here : above head = true
          · simp [here]
          · simp [here, below here]

theorem filter_eq_take {above : α → Bool} (sorted : order.Pairwise fun first second =>
      key second ≤ key first) (up : ∀ a b, key a ≤ key b → above a = true → above b = true) :
    order.filter above = order.take (order.countP above) := by
  have kept : (order.take (order.countP above)).filter above =
      order.take (order.countP above) := by
    rw [List.filter_eq_self]
    intro row member
    obtain ⟨i, inside, rfl⟩ := List.mem_take_iff_getElem.mp member
    exact (lt_countP_iff sorted up (by omega)).mp (by omega)
  have gone : (order.drop (order.countP above)).filter above = [] := by
    rw [List.filter_eq_nil_iff]
    intro row member there
    obtain ⟨i, inside, rfl⟩ := List.mem_drop_iff_getElem.mp member
    have before := (lt_countP_iff sorted up (by omega)).mpr there
    omega
  calc order.filter above
      = (order.take (order.countP above) ++ order.drop (order.countP above)).filter above := by
        rw [List.take_append_drop]
    _ = order.take (order.countP above) := by
        rw [List.filter_append, kept, gone, List.append_nil]

theorem Ordered.keys (first : Ordered key rows order) (second : Ordered key rows other) :
    order.map key = other.map key := by
  have perm : (order.map key).Perm (other.map key) := (first.perm.trans second.perm.symm).map key
  have sorted : (order.map key).Pairwise fun a b => b ≤ a := List.pairwise_map.mpr first.sorted
  have also : (other.map key).Pairwise fun a b => b ≤ a := List.pairwise_map.mpr second.sorted
  exact perm.eq_of_pairwise (fun a b _ _ above below => le_antisymm below above) sorted also

theorem Ordered.take_perm (first : Ordered key rows order) (second : Ordered key rows other)
    {position : Nat} (clean : ¬ Straddles key rows position) :
    (order.take position).Perm (other.take position) := by
  by_cases inside : position < order.length
  · let above (a : α) : Bool := decide (key order[position] < key a)
    have up : ∀ a b, key a ≤ key b → above a = true → above b = true := fun a b le lt =>
      decide_eq_true (lt_of_lt_of_le (of_decide_eq_true lt) le)
    have low : rows.countP above ≤ position := by
      rw [← first.perm.countP_eq, ← not_lt, lt_countP_iff first.sorted up inside]
      simp [above]
    have high : position < rows.countP fun a => decide (key order[position] ≤ key a) := by
      rw [← first.perm.countP_eq, lt_countP_iff first.sorted _ inside]
      · exact decide_eq_true le_rfl
      · exact fun a b le bound => decide_eq_true ((of_decide_eq_true bound).trans le)
    have count : rows.countP above = position := by
      by_contra different
      exact clean ⟨order[position], first.perm.mem_iff.mp (List.getElem_mem inside),
        lt_of_le_of_ne low different, high⟩
    have one := filter_eq_take first.sorted up
    have two := filter_eq_take second.sorted up
    rw [first.perm.countP_eq, count] at one
    rw [second.perm.countP_eq, count] at two
    rw [← one, ← two]
    exact (first.perm.trans second.perm.symm).filter above
  · have short : other.length = order.length := (second.perm.trans first.perm.symm).length_eq
    rw [List.take_of_length_le (by omega), List.take_of_length_le (by omega)]
    exact first.perm.trans second.perm.symm

theorem crawl_perm {orders : Nat → List α} (ordered : ∀ k, Ordered key rows (orders k)) {size : Nat}
    (clean : ∀ k, ¬ Straddles key rows (k * size)) (n : Nat) (last : Ordered key rows order) :
    (crawl orders size n).Perm (order.take (n * size)) := by
  induction n generalizing order with
  | zero => simp [crawl]
  | succ n ih =>
      rw [crawl_succ]
      have before := (ih (ordered n)).append_right (page (orders n) size n)
      rw [← take_page] at before
      exact before.trans ((ordered n).take_perm last (clean (n + 1)))

theorem crawl_keys {orders : Nat → List α} (ordered : ∀ k, Ordered key rows (orders k))
    (last : Ordered key rows order) (size n : Nat) :
    (crawl orders size n).map key = (order.map key).take (n * size) := by
  have same : (fun k => (orders k).map key) = fun _ => order.map key := by
    funext k
    exact (ordered k).keys last
  rw [map_crawl, same, crawl_const]

theorem Ordered.swap {front back : List α} {x y : α} (same : key x = key y)
    (ordered : Ordered key rows (front ++ x :: y :: back)) :
    Ordered key rows (front ++ y :: x :: back) where
  perm := ((List.Perm.swap x y back).append_left front).trans ordered.perm
  sorted := by
    have sorted := ordered.sorted
    simp only [List.pairwise_append, List.pairwise_cons, List.mem_cons, forall_eq_or_imp] at sorted ⊢
    obtain ⟨before, ⟨⟨-, first⟩, second, after⟩, across⟩ := sorted
    refine ⟨before, ⟨⟨same.le, second⟩, first, after⟩, fun row member => ?_⟩
    obtain ⟨one, two, others⟩ := across row member
    exact ⟨two, one, others⟩

theorem Ordered.cut (ordered : Ordered key rows order) {position : Nat}
    (straddles : Straddles key rows position) : ∃ front x y back,
      order = front ++ x :: y :: back ∧ front.length + 1 = position ∧ key x = key y := by
  obtain ⟨row, -, low, high⟩ := straddles
  rw [← ordered.perm.countP_eq] at low high
  have inside : position < order.length := lt_of_lt_of_le high List.countP_le_length
  obtain ⟨before, rfl⟩ : ∃ before, position = before + 1 := ⟨position - 1, by omega⟩
  have up : ∀ a b, key a ≤ key b → decide (key row < key a) = true →
      decide (key row < key b) = true := fun a b le lt =>
    decide_eq_true (lt_of_lt_of_le (of_decide_eq_true lt) le)
  have upTo : ∀ a b, key a ≤ key b → decide (key row ≤ key a) = true →
      decide (key row ≤ key b) = true := fun a b le lt =>
    decide_eq_true (le_trans (of_decide_eq_true lt) le)
  have level : ∀ i (inside : i < order.length), before ≤ i → i ≤ before + 1 →
      key order[i] = key row := by
    intro i inside from_ to_
    have notAbove := (lt_countP_iff ordered.sorted up inside).not.mp (by omega)
    have reaches := (lt_countP_iff ordered.sorted upTo inside).mp (by omega)
    rw [decide_eq_true_eq] at notAbove reaches
    exact le_antisymm (not_lt.mp notAbove) reaches
  refine ⟨order.take before, order[before], order[before + 1], order.drop (before + 2), ?_, ?_, ?_⟩
  · rw [← List.drop_eq_getElem_cons, ← List.drop_eq_getElem_cons, List.take_append_drop]
  · rw [List.length_take]
    omega
  · rw [level before (by omega) le_rfl (by omega), level (before + 1) inside (by omega) le_rfl]

end Sorted

theorem exists_repeated {key : α → κ} {rows order : List α} (ordered : Ordered key rows order)
    {size k n : Nat} (positive : 0 < size) (straddles : Straddles key rows (k * size))
    (reached : k < n) : ∃ orders : Nat → List α, (∀ k, Ordered key rows (orders k)) ∧
      ¬ (crawl orders size n).Nodup := by
  obtain ⟨front, x, y, back, rfl, place, same⟩ := ordered.cut straddles
  obtain ⟨k, rfl⟩ : ∃ previous, k = previous + 1 := by
    refine ⟨k - 1, ?_⟩
    by_contra zero
    obtain rfl : k = 0 := by omega
    omega
  rw [Nat.succ_mul] at place
  let orders (j : Nat) : List α :=
    if j = k + 1 then front ++ y :: x :: back else front ++ x :: y :: back
  refine ⟨orders, fun j => ?_, fun nodup => ?_⟩
  · by_cases here : j = k + 1
    · simpa only [orders, if_pos here] using ordered.swap same
    · simpa only [orders, if_neg here] using ordered
  · have apart := (List.nodup_flatMap.mp nodup).2
    have disjoint : List.Disjoint (page (orders k) size k) (page (orders (k + 1)) size (k + 1)) := by
      have pair := List.pairwise_iff_getElem.mp apart k (k + 1) (by rw [List.length_range]; omega)
        (by rw [List.length_range]; exact reached) (by omega)
      simpa only [Function.onFun, List.getElem_range] using pair
    have last : x ∈ page (orders k) size k := by
      have one : size - (front.drop (k * size)).length = 1 := by
        rw [List.length_drop]
        omega
      simp only [orders, if_neg (Nat.ne_of_lt (Nat.lt_succ_self k)), page]
      rw [List.drop_append_of_le_length (by omega), List.take_append, one]
      simp
    have next : x ∈ page (orders (k + 1)) size (k + 1) := by
      simp only [orders, if_pos, page]
      rw [Nat.succ_mul, ← place, List.drop_length_add_append]
      obtain ⟨more, rfl⟩ : ∃ more, size = more + 1 := ⟨size - 1, by omega⟩
      simp
    exact disjoint last next

/-- Pages of different orders are all of the rows exactly where no key straddles a place at which a
page begins. -/
theorem crawl_perm_iff {key : α → κ} {rows order : List α} (ordered : Ordered key rows order)
    (nodup : rows.Nodup) {size n : Nat} (positive : 0 < size) (enough : rows.length ≤ n * size) :
    (∀ orders : Nat → List α, (∀ k, Ordered key rows (orders k)) →
      (crawl orders size n).Perm rows) ↔ ∀ k, ¬ Straddles key rows (k * size) := by
  constructor
  · intro all k straddles
    obtain ⟨orders, each, twice⟩ :=
      exists_repeated ordered positive straddles (straddles.page_lt enough)
    exact twice ((all orders each).nodup_iff.mpr nodup)
  · intro clean orders each
    have most := crawl_perm each clean n ordered
    rw [List.take_of_length_le (by rw [ordered.perm.length_eq]; exact enough)] at most
    exact most.trans ordered.perm

end Mitigador.Lib
