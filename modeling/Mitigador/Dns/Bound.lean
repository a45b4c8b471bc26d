import Mitigador.Dns.Resolver
import Mitigador.Lib.Reserve

/-! How many names the cache holds. A lookup makes room when it starts a fetch, and the fetch takes
a place when it answers; any number of fetches may be under way in between. -/

namespace Mitigador.Dns

open Go Lib

theorem Cache.len_eq_card (cache : Cache) : Cache.len cache = cache.keys.toFinset.card :=
  (List.toFinset_card_of_nodup cache.keys_nodup).symm

theorem Cache.mem_of_sweep {now : Time} {order : List Addr} {cache : Cache} {ip : Addr}
    (member : ip ∈ Cache.sweep now order cache) : ip ∈ cache := by
  induction order generalizing cache with
  | nil => exact member
  | cons k rest ih =>
      have kept : ∀ {swept : Cache}, swept = cache ∨ swept = cache.erase k → ip ∈ swept →
          ip ∈ cache := by
        rintro swept (rfl | rfl) found
        · exact found
        · exact (AList.mem_erase.mp found).2
      rw [Cache.sweep] at member
      split at member
      · split_ifs at member
        · exact kept (.inr rfl) member
        · exact kept (.inr rfl) (ih member)
        · exact kept (.inl rfl) member
        · exact kept (.inl rfl) (ih member)
      · split_ifs at member
        · exact kept (.inl rfl) member
        · exact kept (.inl rfl) (ih member)

def Resolving.places (s : Resolving) : Places Addr :=
  ⟨s.resolver.cache.keys.toFinset, s.resolver.pending⟩

def Action.turn (s : Resolving) : Action → Turn Addr
  | .lookup _ _ => .quiet
  | .schedule ip _ _ _ => if ip ∈ s.resolver.pending then .quiet else .reserve ip
  | .answer ip _ _ => .fill ip

structure Resolving.Tracked (s : Resolving) : Prop where
  once : s.fetches.Nodup
  pending : ∀ ip, ip ∈ s.fetches ↔ ip ∈ s.resolver.pending

section Step

variable {s next : Resolving} {output : Option String}

theorem reserve_opened {ip : Addr} (tracked : s.Tracked) (free : ip ∉ s.resolver.pending)
    {cache : Cache} (fewer : ∀ k ∈ cache, k ∈ s.resolver.cache) (lookups : List (Addr × Time)) :
    Reserve s.places (.reserve ip) (Resolving.places
        ⟨⟨cache, insert ip s.resolver.pending⟩, lookups, ip :: s.fetches⟩) ∧
      Resolving.Tracked ⟨⟨cache, insert ip s.resolver.pending⟩, lookups, ip :: s.fetches⟩ := by
  constructor
  · apply Reserve.reserve ip free
    intro k member
    exact List.mem_toFinset.mpr (fewer k (List.mem_toFinset.mp member))
  · constructor
    · exact List.nodup_cons.mpr ⟨fun old => free ((tracked.pending ip).mp old), tracked.once⟩
    · intro k
      rw [List.mem_cons, Finset.mem_insert, tracked.pending]

theorem reserve_schedule {ip : Addr} {now : Time} {order : List Addr} {victim : Addr}
    (tracked : s.Tracked) (moved : step s (.schedule ip now order victim) = some (next, output)) :
    Reserve s.places (Action.turn s (.schedule ip now order victim)) next.places ∧
      next.Tracked := by
  simp only [step] at moved
  split at moved
  · contradiction
  · rw [Action.turn]
    split at moved
    · next busy =>
        cases moved
        rw [if_pos busy]
        exact ⟨.quiet _, tracked.once, tracked.pending⟩
    · next free =>
        rw [if_neg free]
        split at moved
        · cases moved
          exact reserve_opened tracked free (fun _ => id) _
        · split at moved
          · contradiction
          · split at moved
            · cases moved
              exact reserve_opened tracked free (fun _ => Cache.mem_of_sweep) _
            · split at moved
              · contradiction
              · cases moved
                apply reserve_opened tracked free
                intro k member
                exact Cache.mem_of_sweep (AList.mem_erase.mp member).2

theorem reserve_answer {ip : Addr} {names : List String} {now : Time} (tracked : s.Tracked)
    (moved : step s (.answer ip names now) = some (next, output)) :
    Reserve s.places (.fill ip) next.places ∧ next.Tracked := by
  simp only [step] at moved
  split at moved
  · contradiction
  · next running =>
      cases moved
      have due := (tracked.pending ip).mp (not_not.mp running)
      constructor
      · have keys : ∀ e : CacheEntry, (s.resolver.cache.insert ip e).keys.toFinset =
            insert ip s.resolver.cache.keys.toFinset := by
          intro e
          ext k
          rw [List.mem_toFinset, Finset.mem_insert, List.mem_toFinset]
          exact AList.mem_insert s.resolver.cache
        simp only [Resolving.places, keys]
        exact .fill ip due
      · refine ⟨tracked.once.erase ip, fun k => ?_⟩
        rw [tracked.once.mem_erase_iff, Finset.mem_erase, tracked.pending]

theorem step_reserve {action : Action} (tracked : s.Tracked)
    (moved : step s action = some (next, output)) :
    Reserve s.places (action.turn s) next.places ∧ next.Tracked := by
  cases action with
  | lookup ip now =>
      have same : next.resolver = s.resolver ∧ next.fetches = s.fetches := by
        simp only [step] at moved
        split at moved
        · cases moved
          exact ⟨rfl, rfl⟩
        · split at moved
          · split at moved <;> cases moved <;> exact ⟨rfl, rfl⟩
          · cases moved
            exact ⟨rfl, rfl⟩
      obtain ⟨resolver, fetches⟩ := same
      have places : next.places = s.places := by rw [Resolving.places, resolver, Resolving.places]
      refine ⟨places ▸ .quiet s.places, fetches ▸ tracked.once, fun k => ?_⟩
      rw [fetches, resolver]
      exact tracked.pending k
  | schedule ip now order victim => exact reserve_schedule tracked moved
  | answer ip names now => exact reserve_answer tracked moved

end Step

abbrev Trace := List (Entry Resolving Action (Option String))

theorem tracked {trace : Trace} {final : Resolving} (run : Run step Resolving.start trace final) :
    final.Tracked := by
  induction run with
  | start => exact ⟨.nil, fun _ => iff_of_false List.not_mem_nil (Finset.notMem_empty _)⟩
  | step _ moved ih => exact (step_reserve ih moved).2

def Bounded (trace : Trace) (final : Resolving) : Prop :=
  Cache.len final.resolver.cache ≤ maxEntries ∧
    ∀ entry ∈ trace, Cache.len entry.before.resolver.cache ≤ maxEntries

/-- An answer overwrites the entry of its address, or the cache is not full. -/
def HasRoom (s : Resolving) (action : Action) : Prop :=
  ∀ ip names now, action = .answer ip names now →
    ip ∈ s.resolver.cache ∨ Cache.len s.resolver.cache < maxEntries

theorem room_iff (s : Resolving) (action : Action) :
    s.places.Room maxEntries (action.turn s) ↔ HasRoom s action := by
  unfold Places.Room HasRoom
  rw [Cache.len_eq_card]
  cases action with
  | lookup =>
      refine iff_of_true (fun _ impossible => ?_) fun _ _ _ impossible => ?_ <;> contradiction
  | schedule ip now order victim =>
      refine iff_of_true (fun x impossible => ?_) (fun _ _ _ impossible => by contradiction)
      rw [Action.turn] at impossible
      split at impossible <;> contradiction
  | answer ip names now =>
      constructor
      · rintro room other _ _ ⟨⟩
        exact (room ip rfl).imp_left List.mem_toFinset.mp
      · rintro room other ⟨⟩
        exact (room ip names now rfl).imp_left List.mem_toFinset.mpr

section Flood

variable {ips : List Addr}

theorem run_lookups (now : Time) (distinct : ips.Nodup)
    (asked : ∀ ip ∈ ips, (!ip.isValid || ip.isLoopback || ip.isLinkLocalUnicast) = false) :
    ∃ trace, Run step Resolving.start trace ⟨⟨∅, ips.toFinset⟩, [], ips⟩ ∧
      ∀ entry ∈ trace, Cache.len entry.before.resolver.cache = 0 := by
  induction ips with
  | nil => exact ⟨[], .start, fun _ member => nomatch member⟩
  | cons ip rest ih =>
      obtain ⟨fresh, others⟩ := List.nodup_cons.mp distinct
      obtain ⟨known, each⟩ := List.forall_mem_cons.mp asked
      obtain ⟨trace, past, empty⟩ := ih others each
      have missed : step ⟨⟨∅, rest.toFinset⟩, [], rest⟩ (.lookup ip now) =
          some (⟨⟨∅, rest.toFinset⟩, [(ip, now)], rest⟩, none) := by
        simp only [step, known, AList.lookup_empty]
        rfl
      have started : step ⟨⟨∅, rest.toFinset⟩, [(ip, now)], rest⟩ (.schedule ip now [] ip) =
          some (⟨⟨∅, (ip :: rest).toFinset⟩, [], ip :: rest⟩, some "") := by
        have free : ip ∉ rest.toFinset := fun old => fresh (List.mem_toFinset.mp old)
        have room : Cache.len ∅ < maxEntries := by decide
        simp [step, free, room]
      refine ⟨_, (past.step missed).step started, ?_⟩
      exact List.forall_mem_cons.mpr ⟨rfl, List.forall_mem_cons.mpr ⟨rfl, empty⟩⟩

theorem run_answers (now : Time) {cache : Cache} {pending : Finset Addr} (distinct : ips.Nodup)
    (apart : ∀ ip ∈ ips, ip ∉ cache) :
    ∃ trace final, Run step ⟨⟨cache, pending⟩, [], ips⟩ trace final ∧
      Cache.len final.resolver.cache = Cache.len cache + ips.length ∧
      ∀ entry ∈ trace, Cache.len entry.before.resolver.cache < Cache.len cache + ips.length := by
  induction ips generalizing cache pending with
  | nil => exact ⟨[], _, .start, rfl, fun _ member => nomatch member⟩
  | cons ip rest ih =>
      obtain ⟨fresh, others⟩ := List.nodup_cons.mp distinct
      obtain ⟨new, each⟩ := List.forall_mem_cons.mp apart
      have answered : step ⟨⟨cache, pending⟩, [], ip :: rest⟩ (.answer ip [] now) =
          some (⟨⟨cache.insert ip ⟨"", now.add missTTL⟩, pending.erase ip⟩, [], rest⟩, none) := by
        simp [step, firstName]
      have later : ∀ other ∈ rest, other ∉ cache.insert ip ⟨"", now.add missTTL⟩ := by
        intro other member present
        rcases (AList.mem_insert cache).mp present with rfl | old
        · exact fresh member
        · exact each other member old
      obtain ⟨trace, final, run, grown, below⟩ := ih others later
      have one : Cache.len (cache.insert ip ⟨"", now.add missTTL⟩) = Cache.len cache + 1 := by
        have absent : ip ∉ cache.keys := new
        rw [Cache.len, AList.keys_insert, List.erase_of_not_mem absent]
        rfl
      rw [one] at grown below
      rw [List.length_cons]
      refine ⟨_, final, (Run.start.step answered).trans run, by omega, ?_⟩
      intro entry member
      rcases List.mem_append.mp member with newer | first
      · have bound := below entry newer
        omega
      · obtain rfl := List.mem_singleton.mp first
        exact Nat.lt_add_of_pos_right (Nat.succ_pos _)

end Flood

def scanned (i : Nat) : Addr := .v4 (BitVec.ofNat 32 (0x64400000 + i))

theorem run_scan {n : Nat} (few : n ≤ maxEntries + 1) : ∃ (trace : Trace) (final : Resolving),
    Run step Resolving.start trace final ∧ Cache.len final.resolver.cache = n ∧
      ∀ entry ∈ trace, Cache.len entry.before.resolver.cache < max n 1 := by
  simp only [maxEntries] at few
  have distinct : ((List.range n).map scanned).Nodup := by
    apply List.nodup_range.map_on
    intro i below j other same
    rw [List.mem_range] at below other
    have bits := congrArg BitVec.toNat (Addr.v4.inj same)
    simp only [BitVec.toNat_ofNat] at bits
    omega
  have asked : ∀ ip ∈ (List.range n).map scanned,
      (!ip.isValid || ip.isLoopback || ip.isLinkLocalUnicast) = false := by
    intro ip member
    obtain ⟨i, listed, rfl⟩ := List.mem_map.mp member
    have below := List.mem_range.mp listed
    have first : ¬ (BitVec.ofNat 32 (0x64400000 + i) >>> 24 = (127 : BitVec 32)) := by
      intro same
      have bits := congrArg BitVec.toNat same
      simp [Nat.shiftRight_eq_div_pow] at bits
      omega
    have second : ¬ (BitVec.ofNat 32 (0x64400000 + i) >>> 16 = (0xa9fe : BitVec 32)) := by
      intro same
      have bits := congrArg BitVec.toNat same
      simp [Nat.shiftRight_eq_div_pow] at bits
      omega
    simpa [scanned, Addr.isValid, Addr.isLoopback, Addr.isLinkLocalUnicast, Addr.unmap]
      using And.intro first second
  obtain ⟨started, flooded, empty⟩ := run_lookups Time.zero distinct asked
  obtain ⟨answered, final, run, grown, below⟩ := @run_answers _ Time.zero ∅
    ((List.range n).map scanned).toFinset distinct fun ip _ => AList.notMem_empty ip
  have zero : Cache.len ∅ = 0 := rfl
  rw [List.length_map, List.length_range, zero, zero_add] at grown below
  refine ⟨_, final, flooded.trans run, grown, fun entry member => ?_⟩
  rcases List.mem_append.mp member with late | early
  · exact lt_max_of_lt_left (below entry late)
  · rw [empty entry early]
    exact lt_max_of_lt_right Nat.one_pos

/-- Any lookups and answers, in any order and at any times: there is one fetch in flight for each
pending address and no other one, and the cache keeps its bound exactly as long as every answer
overwrites an entry or comes to a cache that is not full. -/
theorem cache_bound {trace : Trace} {final : Resolving}
    (run : Run step Resolving.start trace final) :
    (final.fetches.Nodup ∧ ∀ ip, ip ∈ final.fetches ↔ ip ∈ final.resolver.pending) ∧
      (Bounded trace final ↔ ∀ entry ∈ trace, HasRoom entry.before entry.action) := by
  refine ⟨⟨(tracked run).once, (tracked run).pending⟩, ?_⟩
  induction run with
  | start =>
      refine iff_of_true ⟨Nat.zero_le _, fun _ member => ?_⟩ fun _ member => ?_ <;> contradiction
  | @step trace s next action output past moved ih =>
      obtain ⟨move, -⟩ := step_reserve (tracked past) moved
      have grows : Cache.len s.resolver.cache ≤ maxEntries →
          (Cache.len next.resolver.cache ≤ maxEntries ↔ HasRoom s action) := by
        intro bound
        rw [← room_iff, Cache.len_eq_card]
        apply move.card_le_iff
        rw [Cache.len_eq_card] at bound
        exact bound
      rw [List.forall_mem_cons, ← ih]
      constructor
      · rintro ⟨later, every⟩
        obtain ⟨now, earlier⟩ := List.forall_mem_cons.mp every
        exact ⟨(grows now).mp later, now, earlier⟩
      · rintro ⟨room, now, earlier⟩
        exact ⟨(grows now).mpr room, List.forall_mem_cons.mpr ⟨now, earlier⟩⟩

theorem cache_bound_sample : ∃ (trace : Trace) (final : Resolving),
    Run step Resolving.start trace final ∧ Cache.len final.resolver.cache = maxEntries ∧
      (∀ ip, ip ∈ final.fetches ↔ ip ∈ final.resolver.pending) ∧ Bounded trace final := by
  obtain ⟨trace, final, run, filled, below⟩ := run_scan (Nat.le_succ maxEntries)
  obtain ⟨⟨-, pending⟩, bounded⟩ := cache_bound run
  exact ⟨trace, final, run, filled, pending,
    bounded.mpr fun entry member ip _ _ _ => .inr (below entry member)⟩

/-- One more fetch than `maxEntries` is under way before the first answer. -/
theorem cache_overflows : ∃ (trace : Trace) (final : Resolving),
    Run step Resolving.start trace final ∧ Cache.len final.resolver.cache = maxEntries + 1 := by
  obtain ⟨trace, final, run, filled, -⟩ := run_scan le_rfl
  exact ⟨trace, final, run, filled⟩

/-- A lookup that starts a fetch leaves places for all fetches. -/
def Spares (s : Resolving) (action : Action) : Prop :=
  ∀ ip now order victim next output, action = .schedule ip now order victim →
    step s action = some (next, output) → ip ∉ s.resolver.pending →
    Cache.len next.resolver.cache + s.resolver.pending.card < maxEntries

theorem bounded_of_spares {trace : Trace} {final : Resolving}
    (run : Run step Resolving.start trace final)
    (spares : ∀ entry ∈ trace, Spares entry.before entry.action) :
    Cache.len final.resolver.cache ≤ maxEntries := by
  have claimed : final.places.claimed ≤ maxEntries := by
    induction run with
    | start => exact Nat.zero_le _
    | @step trace s next action output past moved ih =>
        obtain ⟨now, earlier⟩ := List.forall_mem_cons.mp spares
        refine (step_reserve (tracked past) moved).1.claimed_le (ih earlier) fun x reserved => ?_
        cases action with
        | lookup | answer => contradiction
        | schedule ip time order victim =>
            rw [Action.turn] at reserved
            split at reserved
            · contradiction
            · next free =>
                have enough := now ip time order victim next output rfl moved free
                rw [Cache.len_eq_card] at enough
                exact enough
  rw [Cache.len_eq_card]
  exact (Nat.le_add_right _ _).trans claimed

end Mitigador.Dns
