import Mathlib.Data.List.AList

/-! A map with one entry for each key and a sweep over all its entries. -/

namespace Mitigador.Lib

variable {κ ν : Type*}

abbrev KeyedMap (κ ν : Type*) := AList (fun _ : κ => ν)

namespace KeyedMap

def pick (keep : κ → ν → Option ν) (entry : Sigma fun _ : κ => ν) :
    Option (Sigma fun _ : κ => ν) :=
  (keep entry.1 entry.2).map fun value => ⟨entry.1, value⟩

theorem sweep_distinct (keep : κ → ν → Option ν) (entries : List (Sigma fun _ : κ => ν))
    (distinct : entries.NodupKeys) :
    (entries.filterMap (pick keep)).NodupKeys := by
  rw [List.nodupKeys_iff_pairwise] at distinct ⊢
  apply distinct.filterMap
  intro first second different left kept right other
  obtain ⟨_, -, rfl⟩ := Option.map_eq_some_iff.mp kept
  obtain ⟨_, -, rfl⟩ := Option.map_eq_some_iff.mp other
  exact different

/-- Visits every entry once; an entry for which `keep` answers `none` is deleted. -/
def sweep (keep : κ → ν → Option ν) (table : KeyedMap κ ν) : KeyedMap κ ν :=
  ⟨table.entries.filterMap (pick keep),
    sweep_distinct keep table.entries table.nodupKeys⟩

variable [DecidableEq κ]

theorem mem_entries (table : KeyedMap κ ν) (key : κ) (value : ν) :
    ⟨key, value⟩ ∈ table.entries ↔ table.lookup key = some value :=
  AList.mem_lookup_iff.symm

theorem lookup_sweep (keep : κ → ν → Option ν) (table : KeyedMap κ ν) (key : κ) :
    (sweep keep table).lookup key = (table.lookup key).bind (keep key) := by
  apply Option.ext
  intro value
  rw [← mem_entries, Option.bind_eq_some_iff]
  simp only [sweep, pick, List.mem_filterMap, Option.map_eq_some_iff, Sigma.mk.injEq, heq_eq_eq]
  constructor
  · rintro ⟨⟨_, old⟩, member, _, kept, rfl, rfl⟩
    exact ⟨old, (mem_entries table _ old).mp member, kept⟩
  · rintro ⟨old, present, kept⟩
    exact ⟨⟨key, old⟩, (mem_entries table key old).mpr present, value, kept, rfl, rfl⟩

theorem lookup_insert (table : KeyedMap κ ν) (key other : κ) (value : ν) :
    (table.insert key value).lookup other =
      if other = key then some value else table.lookup other := by
  by_cases same : other = key
  · subst other
    rw [if_pos rfl, AList.lookup_insert]
  · rw [if_neg same, AList.lookup_insert_ne same]

def lastAt {α : Type*} (key : α → κ) (wanted : κ) (items : List α) : Option α :=
  items.reverse.find? fun item => key item = wanted

theorem lastAt_filter {α : Type*} {key : α → κ} {wanted : κ} {keep : α → Bool} {items : List α}
    {item : α} (last : lastAt key wanted items = some item) (kept : keep item = true) :
    lastAt key wanted (items.filter keep) = some item := by
  rw [lastAt, List.find?_eq_some_iff_append] at last
  obtain ⟨own, after, before, split, others⟩ := last
  rw [lastAt, ← List.filter_reverse, split, List.filter_append, List.filter_cons_of_pos kept,
    List.find?_eq_some_iff_append]
  exact ⟨own, _, _, rfl, fun other member => others other (List.mem_of_mem_filter member)⟩

theorem lookup_insertAll {α : Type*} (key : α → κ) (value : α → ν) (items : List α)
    (table : KeyedMap κ ν) (wanted : κ) :
    (items.foldl (fun table item => table.insert (key item) (value item)) table).lookup wanted =
      ((lastAt key wanted items).map value).or (table.lookup wanted) := by
  induction items generalizing table with
  | nil => rfl
  | cons item items ih =>
      rw [List.foldl_cons, ih, lookup_insert, lastAt, lastAt, List.reverse_cons, List.find?_append]
      cases items.reverse.find? fun item => key item = wanted with
      | some _ => rfl
      | none =>
          by_cases same : key item = wanted
          · simp [same]
          · simp [same, Ne.symm same]

/-- Leaving items out changes nothing at a key, unless the last item there is left out and those
that stay do not end with the same value. -/
theorem lastAt_filter_eq_iff {α : Type*} {key : α → κ} {value : α → ν} {keep : α → Bool}
    {items : List α} {wanted : κ} :
    (lastAt key wanted (items.filter keep)).map value = (lastAt key wanted items).map value ↔
      ∀ item, lastAt key wanted items = some item → keep item = false →
        (lastAt key wanted (items.filter keep)).map value = some (value item) := by
  cases last : lastAt key wanted items with
  | none =>
      have nothing : lastAt key wanted (items.filter keep) = none := by
        rw [lastAt, List.find?_eq_none] at last ⊢
        intro item member
        exact last item (List.mem_reverse.mpr (List.mem_of_mem_filter (List.mem_reverse.mp member)))
      rw [nothing]
      exact iff_of_true rfl fun _ impossible => nomatch impossible
  | some item =>
      cases kept : keep item with
      | true =>
          rw [lastAt_filter last kept]
          refine iff_of_true rfl fun other same dropped => ?_
          rw [← Option.some.inj same, kept] at dropped
          contradiction
      | false =>
          constructor
          · intro equal other same _
            rw [equal, same]
            rfl
          · intro covered
            exact covered item rfl kept

theorem lookup_of_erase {table : KeyedMap κ ν} {key other : κ} {value : ν}
    (stored : (table.erase key).lookup other = some value) : table.lookup other = some value := by
  by_cases own : other = key
  · subst own
    rw [AList.lookup_erase] at stored
    contradiction
  · rwa [AList.lookup_erase_ne own] at stored

end KeyedMap

end Mitigador.Lib
