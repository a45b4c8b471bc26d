import Mathlib.Algebra.Order.BigOperators.Group.List
import Mathlib.Algebra.Order.Group.Multiset
import Mitigador.Aggregate.LateTick

/-! The sliding window is exact in runs that tick every second and carry no stale record. -/

namespace Mitigador.Aggregate

open Go Mitigador.Flow Lib

/-- The run ticks once for each consecutive second, `clock` being the second of its last tick,
and a record of the host applied after the tick of `t` has a second in `[t - 58, t + 1]`. -/
def Timed (ip : Addr) : Int → List Op → Prop
  | _, [] => True
  | clock, .update host sec _ :: past =>
      (host = ip → clock - 58 ≤ sec ∧ sec ≤ clock + 1) ∧ Timed ip clock past
  | clock, .tick now :: past => now = clock ∧ Timed ip (clock - 1) past

theorem recordsAt_future {ip : Addr} {clock : Int} {history : List Op}
    (timed : Timed ip clock history) (second : Int) (later : clock + 1 < second) :
    recordsAt history ip second = 0 := by
  induction history generalizing clock with
  | nil => rfl
  | cons op past ih =>
      cases op with
      | update host sec r =>
          have apart : ¬ (ip = host ∧ second = sec) := by
            intro ⟨here, same⟩
            have upper := (timed.1 here.symm).2
            omega
          rw [recordsAt, if_neg apart, add_zero]
          exact ih timed.2 later
      | tick now => exact ih timed.2 (by omega)

/-- What ties every slot of every host to one absolute second. -/
structure Exact (history : List Op) (ip : Addr) (clock : Int) (log : Option HostLog) : Prop where
  absent : log = none → ∀ second, clock - 58 ≤ second → second ≤ clock + 1 →
    recordsAt history ip second = 0
  accounts : ∀ known, log = some known →
    SlotRing.Accounts known.slots (recordsAt history ip) (clock - 58) (clock + 1)
  last : ∀ known, log = some known → ∀ second, clock - 58 ≤ second → second ≤ clock + 1 →
    recordsAt history ip second ≠ 0 → second ≤ known.lastSec

theorem exact_start (ip : Addr) (clock : Int) : Exact [] ip clock none where
  absent := fun _ _ _ _ => rfl
  accounts := fun _ impossible => by contradiction
  last := fun _ impossible => by contradiction

theorem Exact.found {history : List Op} {ip : Addr} {clock : Int} {log : Option HostLog}
    (exact : Exact history ip clock log) :
    Exact history ip clock (some (log.getD HostLog.new)) := by
  cases log with
  | some known => exact exact
  | none =>
      have silent := exact.absent rfl
      refine ⟨fun impossible => by contradiction, ?_, ?_⟩
      · intro known same
        cases same
        exact SlotRing.accounts_empty _ _ _ silent
      · intro known same second low high nonzero
        exact absurd (silent second low high) nonzero

theorem Exact.update {history : List Op} {ip : Addr} {clock sec : Int} {known : HostLog}
    (exact : Exact history ip clock (some known)) (r : Record) (low : clock - 58 ≤ sec)
    (high : sec ≤ clock + 1) :
    Exact (.update ip sec r :: history) ip clock (some (known.update sec r)) where
  absent := fun impossible => by contradiction
  accounts := by
    intro next same
    cases same
    apply SlotRing.accounts_deposit _ (recordsAt history ip) _ _ _ sec {r}
      (by simp only [windowSize]; omega) (exact.accounts known rfl) low high
    · simp [recordsAt]
    · intro other different
      simp [recordsAt, different]
  last := by
    intro next same second fromLow toHigh nonzero
    cases same
    have bound : known.lastSec ≤ max known.lastSec sec := le_max_left _ _
    by_cases here : second = sec
    · exact here ▸ le_max_right _ _
    · have counted : recordsAt history ip second ≠ 0 := by
        simpa [recordsAt, here] using nonzero
      exact (exact.last known rfl second fromLow toHigh counted).trans bound

theorem Exact.other {history : List Op} {ip host : Addr} {clock sec : Int} {r : Record}
    {log : Option HostLog} (exact : Exact history ip clock log) (different : ip ≠ host) :
    Exact (.update host sec r :: history) ip clock log := by
  have unchanged : recordsAt (.update host sec r :: history) ip = recordsAt history ip := by
    funext second
    simp [recordsAt, different]
  rcases exact with ⟨absent, accounts, last⟩
  rw [← unchanged] at absent accounts last
  exact ⟨absent, accounts, last⟩

theorem Exact.tick {history : List Op} {ip : Addr} {clock : Int} {log : Option HostLog}
    (exact : Exact history ip clock log) (silent : recordsAt history ip (clock + 2) = 0) :
    Exact (.tick (clock + 1) :: history) ip (clock + 1) (log.bind (HostLog.tick (clock + 1))) where
  absent := by
    intro gone second low high
    change recordsAt history ip second = 0
    by_contra nonzero
    have coming : second ≠ clock + 2 := by
      intro same
      exact nonzero (same ▸ silent)
    cases log with
    | none => exact nonzero (exact.absent rfl second (by omega) (by omega))
    | some known =>
        have recent := exact.last known rfl second (by omega) (by omega) nonzero
        have stale := HostLog.tick_eq_none (clock + 1) known gone
        omega
  accounts := by
    intro next kept
    obtain ⟨known, rfl, ticked⟩ := Option.bind_eq_some_iff.mp kept
    rw [HostLog.tick_eq_some (clock + 1) known next ticked]
    have advanced := SlotRing.accounts_clear known.slots (recordsAt history ip) (clock - 58)
      (clock + 1) (by simp only [windowSize]; omega) (exact.accounts known rfl)
      (by rw [add_assoc]; exact silent)
    intro second low high
    exact advanced second (by omega) high
  last := by
    intro next kept second low high nonzero
    obtain ⟨known, rfl, ticked⟩ := Option.bind_eq_some_iff.mp kept
    have coming : second ≠ clock + 2 := fun same => nonzero (same ▸ silent)
    rw [HostLog.tick_eq_some (clock + 1) known next ticked]
    exact exact.last known rfl second (by omega) (by omega) nonzero

theorem exact_after {ip : Addr} {clock : Int} {history : List Op}
    (timed : Timed ip clock history) : Exact history ip clock (Ledger.after history ip) := by
  induction history generalizing clock with
  | nil => exact exact_start ip clock
  | cons op past ih =>
      cases op with
      | update host sec r =>
          have known := ih timed.2
          simp only [Ledger.after, Ledger.apply]
          by_cases here : ip = host
          · subst here
            rw [if_pos rfl]
            exact known.found.update r (timed.1 rfl).1 (timed.1 rfl).2
          · rw [if_neg here]
            exact known.other here
      | tick now =>
          have same : now = clock - 1 + 1 := by
            have := timed.1
            omega
          have silent : recordsAt past ip (clock - 1 + 2) = 0 :=
            recordsAt_future timed.2 _ (by omega)
          have advanced := (ih timed.2).tick silent
          rw [sub_add_cancel] at advanced same
          rw [same]
          exact advanced

theorem held_eq_recordsAt {ip : Addr} {clock : Int} {history : List Op}
    (timed : Timed ip clock history) (second : Int) (low : clock - 58 ≤ second)
    (high : second ≤ clock + 1) :
    held history ip second = recordsAt history ip second := by
  have exact := exact_after timed
  unfold held
  cases present : Ledger.after history ip with
  | none => exact (exact.absent present second low high).symm
  | some log => exact exact.accounts log present second low high

theorem silent_of_nil_snapshot {ip : Addr} {clock : Int} {history : List Op}
    (timed : Timed ip clock history) {start : Store} (fresh : ∀ ip, start.host ip = none)
    {now window : Int} (positive : 1 ≤ window)
    (unknown : (start.after history).snapshot ip now window = none) (second : Int)
    (low : clock - 58 ≤ second) (high : second ≤ clock + 1) : recordsAt history ip second = 0 := by
  apply (exact_after timed).absent _ second low high
  unfold Store.snapshot at unknown
  rw [if_neg (by omega), host_after start fresh] at unknown
  simpa using unknown

theorem known_of_snapshot {start : Store} (fresh : ∀ ip, start.host ip = none)
    {history : List Op} {ip : Addr} {now window : Int} {buckets : List Bucket}
    (reported : (start.after history).snapshot ip now window = some buckets) :
    ∃ log, Ledger.after history ip = some log := by
  unfold Store.snapshot at reported
  split at reported
  · contradiction
  · rw [host_after start fresh, Option.map_map] at reported
    obtain ⟨log, known, -⟩ := Option.map_eq_some_iff.mp reported
    exact ⟨log, known⟩

theorem buckets_of_timed {ip : Addr} {clock : Int} {history : List Op}
    (timed : Timed ip clock history) {start : Store} (fresh : ∀ ip, start.host ip = none)
    {now window : Int} {buckets : List Bucket}
    (reported : (start.after history).snapshot ip now window = some buckets) :
    buckets.length = (min window windowSize).toNat ∧
      ∀ i : Nat, (i : Int) < min window windowSize →
        clock - 58 ≤ now - i → now - i ≤ clock + 1 →
          buckets[i]? = some (totals (recordsAt history ip (now - i))) := by
  have shown := snapshot_after _ fresh history ip now window buckets reported
  subst shown
  refine ⟨by simp, ?_⟩
  intro i inside low high
  have bound : i < (min window (windowSize : Int)).toNat := by omega
  rw [List.getElem?_map, List.getElem?_range bound, Option.map_some,
    held_eq_recordsAt timed _ low high]

/-- Between the ticks of `clock` and `clock + 1` every bucket that `Snapshot` reports for a second
of the window is the sum of exactly the records applied with that second, and a nil snapshot
means that there were none. -/
theorem snapshot_exact (defaultNumShards numShards clock now window : Int) (history : List Op)
    (ip : Addr) (timed : Timed ip clock history) :
    (∀ buckets,
      ((Store.new defaultNumShards numShards).after history).snapshot ip now window =
          some buckets →
        buckets.length = (min window windowSize).toNat ∧
        ∀ i : Nat, (i : Int) < min window windowSize →
          clock - 58 ≤ now - i → now - i ≤ clock + 1 →
            buckets[i]? = some (totals (recordsAt history ip (now - i)))) ∧
    (1 ≤ window →
      ((Store.new defaultNumShards numShards).after history).snapshot ip now window = none →
        ∀ second, clock - 58 ≤ second → second ≤ clock + 1 →
          recordsAt history ip second = 0) := by
  have fresh : ∀ ip, (Store.new defaultNumShards numShards).host ip = none :=
    Store.host_new defaultNumShards numShards
  constructor
  · intro buckets reported
    exact buckets_of_timed timed fresh reported
  · intro positive unknown second low high
    exact silent_of_nil_snapshot timed fresh positive unknown second low high

theorem snapshot_exact_sample :
    ∃ buckets, ((Store.new 1 1).after [.update sampleHost 101 (sampleRecord protoUDP 7 700),
      .tick 100]).snapshot sampleHost 101 1 = some buckets ∧
        buckets[0]? = some (totals {sampleRecord protoUDP 7 700}) := by
  have timed : Timed sampleHost 100
      [.update sampleHost 101 (sampleRecord protoUDP 7 700), .tick 100] :=
    ⟨fun _ => ⟨by decide, by decide⟩, rfl, trivial⟩
  have reported : ((Store.new 1 1).after [.update sampleHost 101 (sampleRecord protoUDP 7 700),
      .tick 100]).snapshot sampleHost 101 1 =
        some [Bucket.ofRecord (sampleRecord protoUDP 7 700)] := by
    decide +kernel
  refine ⟨_, reported, ?_⟩
  exact ((snapshot_exact 1 1 100 101 1 _ sampleHost timed).1 _ reported).2 0
    (by decide) (by decide) (by decide)

theorem held_sixtieth (history : List Op) (ip : Addr) (now : Int) :
    held (.tick now :: history) ip (now - 59) = 0 := by
  rw [← held_tick history ip now]
  have shared : SlotRing.slot windowSize (now - 59) = SlotRing.slot windowSize (now + 1) := by
    rw [SlotRing.slot_eq_iff]
    simp only [windowSize]
    omega
  simp only [held, SlotRing.read_congr _ shared]

theorem held_tick_of_known {history : List Op} {ip : Addr} {now : Int} {log : HostLog}
    (known : Ledger.after (.tick now :: history) ip = some log) {second : Int}
    (apart : SlotRing.slot windowSize second ≠ SlotRing.slot windowSize (now + 1)) :
    held (.tick now :: history) ip second = held history ip second := by
  obtain ⟨before, found, kept⟩ := Option.bind_eq_some_iff.mp known
  have cleared := HostLog.tick_eq_some now before log kept
  simp only [held, known, found, cleared, Option.map_some, Option.getD_some]
  rw [SlotRing.read_clear, if_neg apart]

theorem inWindow_tick {history : List Op} {ip : Addr} {now : Int} {log : HostLog}
    (known : Ledger.after (.tick now :: history) ip = some log) {n : Nat} (short : n ≤ 60) :
    inWindow (.tick now :: history) ip now n = inWindow history ip now (min n 59) := by
  have kept : ∀ m ≤ 59, inWindow (.tick now :: history) ip now m = inWindow history ip now m := by
    intro m below
    unfold inWindow
    congr 1
    apply List.map_congr_left
    intro i member
    rw [List.mem_range] at member
    apply held_tick_of_known known
    rw [Ne, SlotRing.slot_eq_iff]
    simp only [windowSize]
    omega
  rcases Nat.lt_or_ge n 60 with narrow | whole
  · rw [min_eq_left (by omega)]
    exact kept n (by omega)
  · obtain rfl : n = 60 := by omega
    rw [min_eq_right (by omega), ← kept 59 le_rfl, inWindow, inWindow, List.range_succ,
      List.map_append, List.sum_append, List.map_singleton, List.sum_singleton]
    exact add_eq_left.mpr (held_sixtieth history ip now)

theorem held_le_recordsAt {ip : Addr} {now : Int} {history : List Op}
    (timed : Timed ip now (.tick now :: history)) {i : Nat} (recent : i < 60) :
    held (.tick now :: history) ip (now - i) ≤ recordsAt history ip (now - i) := by
  by_cases last : i = 59
  · subst last
    exact (held_sixtieth history ip now).le.trans (Multiset.zero_le _)
  · rw [held_eq_recordsAt timed _ (by omega) (by omega)]
    rfl

theorem sum_range_le {f g : Nat → Multiset Record} {n m : Nat} (shorter : n ≤ m)
    (below : ∀ i < m, f i ≤ g i) :
    ((List.range n).map f).sum ≤ ((List.range m).map g).sum := by
  obtain ⟨rest, rfl⟩ := Nat.exists_eq_add_of_le shorter
  rw [List.range_add, List.map_append, List.sum_append]
  calc ((List.range n).map f).sum
      ≤ ((List.range n).map g).sum := List.sum_le_sum fun i member => below i (by
          rw [List.mem_range] at member
          omega)
    _ ≤ ((List.range n).map g).sum + _ := Multiset.le_add_right _ _

theorem inWindow_le_appliedIn {ip : Addr} {now : Int} {history : List Op}
    (timed : Timed ip now (.tick now :: history)) {n : Nat} (short : n ≤ 60) :
    inWindow (.tick now :: history) ip now n ≤ appliedIn history ip now 60 :=
  sum_range_le short fun _ recent => held_le_recordsAt timed recent

theorem inWindow_eq_appliedIn {ip : Addr} {now : Int} {history : List Op}
    (timed : Timed ip now (.tick now :: history)) {n : Nat} (short : n ≤ 59) :
    inWindow (.tick now :: history) ip now n = appliedIn history ip now n := by
  unfold inWindow appliedIn
  congr 1
  apply List.map_congr_left
  intro i member
  rw [List.mem_range] at member
  exact held_eq_recordsAt timed _ (by omega) (by omega)

theorem inWindow_mono (history : List Op) (ip : Addr) (second : Int) {n m : Nat}
    (shorter : n ≤ m) : inWindow history ip second n ≤ inWindow history ip second m :=
  sum_range_le shorter fun _ _ => le_rfl

def appliedTo : List Op → Addr → Multiset Record
  | [], _ => 0
  | .update host _ r :: past, ip => appliedTo past ip + if ip = host then {r} else 0
  | .tick _ :: past, ip => appliedTo past ip

theorem slots_le_appliedTo (history : List Op) {ip : Addr} {log : HostLog}
    (known : Ledger.after history ip = some log) : log.slots.toList.sum ≤ appliedTo history ip := by
  induction history generalizing ip log with
  | nil => contradiction
  | cons op past ih =>
      cases op with
      | update host sec r =>
          simp only [Ledger.after, Ledger.apply] at known
          by_cases own : ip = host
          · subst own
            rw [if_pos rfl, Option.some.injEq] at known
            rw [← known, appliedTo, if_pos rfl, HostLog.update, SlotRing.sum_deposit]
            apply Multiset.add_le_add_right
            cases earlier : Ledger.after past ip with
            | none =>
                have fresh : HostLog.new.slots.toList.sum = 0 := SlotRing.sum_empty
                rw [Option.getD_none, fresh]
                exact Multiset.zero_le _
            | some log => exact ih earlier
          · rw [if_neg own] at known
            rw [appliedTo, if_neg own, add_zero]
            exact ih known
      | tick now =>
          obtain ⟨before, earlier, ticked⟩ := Option.bind_eq_some_iff.mp known
          rw [HostLog.tick_eq_some now before log ticked, appliedTo]
          calc (SlotRing.clear before.slots (now + 1)).toList.sum
              ≤ (SlotRing.clear before.slots (now + 1)).toList.sum +
                  SlotRing.read before.slots (now + 1) := Multiset.le_add_right _ _
            _ = before.slots.toList.sum := SlotRing.sum_clear ..
            _ ≤ appliedTo past ip := ih earlier

theorem inWindow_le_appliedTo (history : List Op) (ip : Addr) (second : Int) {n : Nat}
    (short : n ≤ 60) : inWindow history ip second n ≤ appliedTo history ip := by
  refine (inWindow_mono history ip second short).trans ?_
  unfold inWindow
  cases known : Ledger.after history ip with
  | none => simpa [held, known] using Multiset.zero_le (appliedTo history ip)
  | some log =>
      have total := slots_le_appliedTo history known
      rw [SlotRing.sum_eq_sum_read log.slots second] at total
      simp only [held, known, Option.map_some, Option.getD_some]
      exact total

theorem mem_sum {groups : List (Multiset Record)} {r : Record} (member : r ∈ groups.sum) :
    ∃ group ∈ groups, r ∈ group := by
  induction groups with
  | nil => simp at member
  | cons head tail ih =>
      rw [List.sum_cons, Multiset.mem_add] at member
      rcases member with here | later
      · exact ⟨head, List.mem_cons_self, here⟩
      · obtain ⟨group, listed, inside⟩ := ih later
        exact ⟨group, List.mem_cons_of_mem head listed, inside⟩

theorem mem_inWindow {ip : Addr} {now : Int} {history : List Op}
    (timed : Timed ip now (.tick now :: history)) {n : Nat} (short : n ≤ 60) {r : Record}
    (member : r ∈ inWindow (.tick now :: history) ip now n) :
    ∃ second, Op.update ip second r ∈ history := by
  have applied := Multiset.mem_of_le (inWindow_le_appliedIn timed short) member
  obtain ⟨group, listed, inside⟩ := mem_sum applied
  obtain ⟨i, -, rfl⟩ := List.mem_map.mp listed
  exact ⟨_, mem_recordsAt inside⟩

/-- Like `Timed`, with each record before or after the tick of its own second. -/
def Prompt (ip : Addr) : Int → List Op → Prop
  | _, [] => True
  | clock, .update host sec _ :: past =>
      (host = ip → clock ≤ sec ∧ sec ≤ clock + 1) ∧ Prompt ip clock past
  | clock, .tick now :: past => now = clock ∧ Prompt ip (clock - 1) past

instance decidablePrompt (ip : Addr) : ∀ clock history, Decidable (Prompt ip clock history)
  | _, [] => isTrue trivial
  | clock, .update host sec _ :: past =>
      have := decidablePrompt ip clock past
      inferInstanceAs (Decidable ((host = ip → clock ≤ sec ∧ sec ≤ clock + 1) ∧
        Prompt ip clock past))
  | clock, .tick now :: past =>
      have := decidablePrompt ip (clock - 1) past
      inferInstanceAs (Decidable (now = clock ∧ Prompt ip (clock - 1) past))

theorem timed_of_prompt {ip : Addr} {clock : Int} {history : List Op}
    (prompt : Prompt ip clock history) : Timed ip clock history := by
  induction history generalizing clock with
  | nil => trivial
  | cons op past ih =>
      cases op with
      | tick now => exact ⟨prompt.1, ih prompt.2⟩
      | update host sec r =>
          refine ⟨fun here => ?_, ih prompt.2⟩
          have bounds := prompt.1 here
          omega

theorem timed_of_append {ip : Addr} {clock now : Int} {front past : List Op}
    (timed : Timed ip clock (front ++ .tick now :: past)) : Timed ip now (.tick now :: past) := by
  induction front generalizing clock with
  | nil =>
      obtain rfl : now = clock := timed.1
      exact timed
  | cons op front ih =>
      cases op with
      | tick other => exact ih timed.2
      | update host sec r => exact ih timed.2

theorem consecutive_of_timed {ip : Addr} {clock : Int} {history : List Op}
    (timed : Timed ip clock history) :
    Consecutive history ∧ ∀ last ∈ lastTick history, last = clock := by
  induction history generalizing clock with
  | nil => exact ⟨trivial, fun _ impossible => by contradiction⟩
  | cons op past ih =>
      cases op with
      | update host sec r => exact ih timed.2
      | tick now =>
          obtain ⟨earlier, latest⟩ := ih timed.2
          refine ⟨⟨?_, earlier⟩, ?_⟩
          · intro last known
            have previous := latest last known
            have same := timed.1
            omega
          · intro last known
            cases known
            exact timed.1

end Mitigador.Aggregate
