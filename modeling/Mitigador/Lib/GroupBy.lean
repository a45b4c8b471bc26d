import Mathlib.Algebra.BigOperators.Group.List.Basic
import Mathlib.Data.List.Induction
import Mathlib.Tactic.Abel
import Mitigador.Lib.KeyedMap

/-! Grouping the items of a list by a key: a map from each key to the sum of its items, built in
one pass. -/

namespace Mitigador.Lib

variable {α κ ν : Type*}

/-- A map in one of the orders in which it may be visited. -/
def MapOrder (groups : KeyedMap κ ν) := { order : List (Sigma fun _ : κ => ν) //
  order.Perm groups.entries }

variable [DecidableEq κ]

/-- The group of the item's key takes in the item; a new group begins with `start`. -/
def addToGroup (key : α → κ) (start : α → ν) (add : ν → α → ν) (groups : KeyedMap κ ν)
    (item : α) : KeyedMap κ ν :=
  groups.insert (key item) (add ((groups.lookup (key item)).getD (start item)) item)

def groupBy (key : α → κ) (start : α → ν) (add : ν → α → ν) (items : List α) : KeyedMap κ ν :=
  items.foldl (addToGroup key start add) ∅

def groupOf (start : α → ν) (add : ν → α → ν) : List α → Option ν
  | [] => none
  | first :: rest => some ((first :: rest).foldl add (start first))

theorem groupOf_concat (start : α → ν) (add : ν → α → ν) (items : List α) (item : α) :
    groupOf start add (items ++ [item]) =
      some (add ((groupOf start add items).getD (start item)) item) := by
  cases items with
  | nil => rfl
  | cons first rest =>
      rw [List.cons_append, groupOf, groupOf, ← List.cons_append, List.foldl_append]
      rfl

variable {key : α → κ} {start : α → ν} {add : ν → α → ν}

theorem lookup_groupBy (items : List α) (wanted : κ) :
    (groupBy key start add items).lookup wanted =
      groupOf start add (items.filter fun item => key item = wanted) := by
  induction items using List.reverseRecOn with
  | nil => rfl
  | append_singleton items item ih =>
      rw [groupBy, List.foldl_append, List.foldl_cons, List.foldl_nil, ← groupBy, addToGroup,
        KeyedMap.lookup_insert, List.filter_append]
      by_cases own : wanted = key item
      · subst own
        rw [if_pos rfl, ih, List.filter_singleton, decide_eq_true rfl, cond_true, groupOf_concat]
      · rw [if_neg own, ih, List.filter_singleton, decide_eq_false (Ne.symm own), cond_false,
          List.append_nil]

theorem lookup_groupBy_isSome (items : List α) (wanted : κ) :
    ((groupBy key start add items).lookup wanted).isSome = true ↔
      ∃ item ∈ items, key item = wanted := by
  rw [lookup_groupBy]
  cases own : items.filter fun item => key item = wanted with
  | nil =>
      rw [List.filter_eq_nil_iff] at own
      refine iff_of_false nofun ?_
      rintro ⟨item, member, same⟩
      exact own item member (decide_eq_true same)
  | cons first rest =>
      have member : first ∈ items.filter fun item => key item = wanted := own ▸ List.mem_cons_self
      rw [List.mem_filter, decide_eq_true_iff] at member
      exact iff_of_true rfl ⟨first, member⟩

theorem sum_addToGroup {M : Type*} [AddCommMonoid M] {measure : ν → M} {weight : α → M}
    (empty : ∀ item, measure (start item) = 0)
    (adds : ∀ value item, measure (add value item) = measure value + weight item)
    (groups : KeyedMap κ ν) (item : α) :
    ((addToGroup key start add groups item).entries.map fun entry => measure entry.2).sum =
      (groups.entries.map fun entry => measure entry.2).sum + weight item := by
  rw [addToGroup, AList.entries_insert, List.map_cons, List.sum_cons, adds]
  by_cases present : key item ∈ groups.keys
  · obtain ⟨old, before, after, -, split, erased⟩ := List.exists_of_kerase present
    have stored : groups.lookup (key item) = some old := by
      rw [← KeyedMap.mem_entries, split]
      exact List.mem_append_right _ List.mem_cons_self
    rw [stored, erased, split]
    simp only [Option.getD_some, List.map_append, List.map_cons, List.sum_append, List.sum_cons]
    abel
  · have missing : groups.lookup (key item) = none := AList.lookup_eq_none.mpr present
    rw [missing, List.kerase_of_notMem_keys present, Option.getD_none, empty, zero_add, add_comm]

/-- A measure that adds up over the items of a group adds up over the groups. -/
theorem sum_groupBy {M : Type*} [AddCommMonoid M] {measure : ν → M} {weight : α → M}
    (empty : ∀ item, measure (start item) = 0)
    (adds : ∀ value item, measure (add value item) = measure value + weight item)
    (items : List α) :
    ((groupBy key start add items).entries.map fun entry => measure entry.2).sum =
      (items.map weight).sum := by
  induction items using List.reverseRecOn with
  | nil => rfl
  | append_singleton items item ih =>
      have last : groupBy key start add (items ++ [item]) =
          addToGroup key start add (groupBy key start add items) item := by
        rw [groupBy, List.foldl_append, List.foldl_cons, List.foldl_nil, ← groupBy]
      calc
        _ = ((groupBy key start add items).entries.map fun entry => measure entry.2).sum +
            weight item := by rw [last, sum_addToGroup empty adds]
        _ = (items.map weight).sum + weight item := by rw [ih]
        _ = ((items ++ [item]).map weight).sum := by
          rw [List.map_append, List.sum_append, List.map_singleton, List.sum_singleton]

theorem group_of_mem {items : List α} {entry : Sigma fun _ : κ => ν}
    (member : entry ∈ (groupBy key start add items).entries) :
    ∃ first rest, (items.filter fun item => key item = entry.1) = first :: rest ∧
      entry.2 = (first :: rest).foldl add (start first) := by
  have stored := (KeyedMap.mem_entries _ entry.1 entry.2).mp member
  rw [lookup_groupBy] at stored
  cases own : items.filter fun item => key item = entry.1 with
  | nil =>
      rw [own] at stored
      contradiction
  | cons first rest =>
      rw [own, groupOf, Option.some.injEq] at stored
      exact ⟨first, rest, rfl, stored.symm⟩

theorem measure_group {M : Type*} [AddCommMonoid M] {measure : ν → M} {weight : α → M}
    (empty : ∀ item, measure (start item) = 0)
    (adds : ∀ value item, measure (add value item) = measure value + weight item)
    {items : List α} {entry : Sigma fun _ : κ => ν}
    (member : entry ∈ (groupBy key start add items).entries) :
    measure entry.2 = ((items.filter fun item => key item = entry.1).map weight).sum := by
  have along (value : ν) (rest : List α) :
      measure (rest.foldl add value) = measure value + (rest.map weight).sum := by
    induction rest generalizing value with
    | nil => rw [List.foldl_nil, List.map_nil, List.sum_nil, add_zero]
    | cons item rest ih =>
        rw [List.foldl_cons, ih, adds, List.map_cons, List.sum_cons, add_assoc]
  obtain ⟨first, rest, own, built⟩ := group_of_mem member
  calc
    measure entry.2 = measure (start first) + ((first :: rest).map weight).sum := by
      rw [built, along]
    _ = ((first :: rest).map weight).sum := by rw [empty, zero_add]
    _ = ((items.filter fun item => key item = entry.1).map weight).sum := by rw [own]

theorem tag_group (tag : ν → κ) (begins : ∀ item, tag (start item) = key item)
    (keeps : ∀ value item, tag (add value item) = tag value) {items : List α}
    {entry : Sigma fun _ : κ => ν} (member : entry ∈ (groupBy key start add items).entries) :
    tag entry.2 = entry.1 := by
  have along (value : ν) (rest : List α) : tag (rest.foldl add value) = tag value := by
    induction rest generalizing value with
    | nil => rfl
    | cons item rest ih => rw [List.foldl_cons, ih, keeps]
  obtain ⟨first, rest, own, built⟩ := group_of_mem member
  have label : first ∈ items.filter fun item => key item = entry.1 := own ▸ List.mem_cons_self
  rw [List.mem_filter, decide_eq_true_iff] at label
  calc
    tag entry.2 = tag (start first) := by rw [built, along]
    _ = key first := begins first
    _ = entry.1 := label.2

/-- Every item belongs to exactly one of the groups, that of its label, and no group is empty. -/
structure Grouping {β : Type*} (label : α → κ) (items : List α) (name : β → κ) (groups : List β) :
    Prop where
  distinct : (groups.map name).Nodup
  covers : ∀ k, k ∈ groups.map name ↔ ∃ item ∈ items, label item = k

theorem grouping_of_order {β : Type*} {items : List α}
    (order : MapOrder (groupBy key start add items)) {name : β → κ}
    {render : (Sigma fun _ : κ => ν) → β}
    (named : ∀ entry ∈ (groupBy key start add items).entries, name (render entry) = entry.1) :
    Grouping key items name (order.1.map render) := by
  have keys : (order.1.map render).map name = order.1.map Sigma.fst := by
    rw [List.map_map]
    exact List.map_congr_left fun entry member => named entry (order.2.mem_iff.mp member)
  have same := order.2.map Sigma.fst
  refine ⟨?_, fun k => ?_⟩
  · rw [keys, same.nodup_iff]
    exact (groupBy key start add items).nodupKeys
  · rw [keys, same.mem_iff, ← lookup_groupBy_isSome]
    exact AList.lookup_isSome.symm

end Mitigador.Lib
