import Mitigador.Aggregate.LateTick
import Mitigador.Aggregate.Overview

/-! Ticks that skip seconds. Each tick clears one slot, so the records of a skipped second stay in
the rings of the hosts that live on. -/

namespace Mitigador.Aggregate

open Go Mitigador.Flow Lib

structure DatedLog where
  slots : Vector (Multiset (Int × Record)) windowSize
  lastSec : Int

namespace DatedLog

def new : DatedLog := ⟨SlotRing.empty windowSize, 0⟩

def update (log : DatedLog) (sec : Int) (r : Record) : DatedLog where
  slots := SlotRing.deposit log.slots sec {(sec, r)}
  lastSec := max log.lastSec sec

def tick (now : Int) (log : DatedLog) : Option DatedLog :=
  if now - log.lastSec > windowSize then none
  else some { log with slots := SlotRing.clear log.slots (now + 1) }

def undate : Multiset (Int × Record) →+ Multiset Record := Multiset.mapAddMonoidHom Prod.snd

def undated (log : DatedLog) : HostLog := ⟨log.slots.map undate, log.lastSec⟩

theorem undated_update (log : DatedLog) (sec : Int) (r : Record) :
    (log.update sec r).undated = log.undated.update sec r := by
  simp only [undated, update, HostLog.update, SlotRing.map_deposit]
  rfl

theorem undated_tick (log : DatedLog) (now : Int) :
    log.undated.tick now = (log.tick now).map undated := by
  unfold HostLog.tick tick
  by_cases stale : now - log.lastSec > windowSize
  · have same : now - log.undated.lastSec > windowSize := stale
    rw [if_pos stale, if_pos same, Option.map_none]
  · have same : ¬ now - log.undated.lastSec > windowSize := stale
    rw [if_neg stale, if_neg same, Option.map_some]
    simp only [undated, SlotRing.map_clear]

end DatedLog

def datedAfter : List Op → Addr → Option DatedLog
  | [], _ => none
  | .update host sec r :: past, ip =>
      if ip = host then some (((datedAfter past host).getD .new).update sec r)
      else datedAfter past ip
  | .tick now :: past, ip => (datedAfter past ip).bind (DatedLog.tick now)

theorem undated_after (history : List Op) (ip : Addr) :
    Ledger.after history ip = (datedAfter history ip).map DatedLog.undated := by
  induction history generalizing ip with
  | nil => rfl
  | cons op past ih =>
      cases op with
      | update host sec r =>
          simp only [Ledger.after, Ledger.apply, datedAfter]
          rw [ih host, ih ip]
          split
          · cases datedAfter past host with
            | none =>
                have empty : DatedLog.new.undated = HostLog.new := by
                  simp only [DatedLog.undated, DatedLog.new, HostLog.new, SlotRing.map_empty]
                simp [DatedLog.undated_update, empty]
            | some log => simp [DatedLog.undated_update]
          · rfl
      | tick now =>
          simp only [Ledger.after, Ledger.apply, datedAfter]
          rw [ih ip]
          cases datedAfter past ip with
          | none => rfl
          | some log => simp [DatedLog.undated_tick]

def dated (history : List Op) (ip : Addr) (second : Int) : Multiset (Int × Record) :=
  ((datedAfter history ip).map fun log => SlotRing.read log.slots second).getD 0

theorem held_eq_dated (history : List Op) (ip : Addr) (second : Int) :
    held history ip second = (dated history ip second).map Prod.snd := by
  unfold held dated
  rw [undated_after]
  cases datedAfter history ip with
  | none => rfl
  | some log => exact SlotRing.read_map DatedLog.undate log.slots second

def Op.sec : Op → Option Int
  | .update _ sec _ => some sec
  | .tick _ => none

/-- The run begins with a tick and its ticks go forward, and each record carries a second from the
tick before it to the tick after it. -/
def Forward : List Op → Prop
  | [] => True
  | .update _ sec _ :: past => (∃ last ∈ lastTick past, last ≤ sec) ∧ Forward past
  | .tick now :: past =>
      (∀ last ∈ lastTick past, last < now) ∧ (∀ op ∈ past, ∀ sec ∈ op.sec, sec ≤ now) ∧
        Forward past

/-- No host has a record of 60 seconds ago, or older, in any slot after the last tick. -/
def NoneStale (history : List Op) : Prop :=
  ∀ t ∈ lastTick history, ∀ ip, ∀ i < windowSize, ∀ d ∈ dated history ip (t - i), t - 60 < d.1

/-- Of each second that a tick skips: a host that the tick keeps has no record in the slot that
was to be cleared then, unless the tick clears the same slot. -/
def Caught (past : List Op) (now : Int) : Prop :=
  ∀ last ∈ lastTick past, ∀ skipped, last < skipped → skipped < now → skipped % 60 ≠ now % 60 →
    ∀ ip, ∀ log ∈ Ledger.after past ip, now - log.lastSec ≤ windowSize →
      recordsAt past ip (skipped - 59) = 0

def Unskipped : List Op → Prop
  | [] => True
  | .update _ _ _ :: past => Unskipped past
  | .tick now :: past => Caught past now ∧ Unskipped past

theorem recordsAt_mono (op : Op) {past : List Op} {ip : Addr} {second : Int} {r : Record}
    (member : r ∈ recordsAt past ip second) : r ∈ recordsAt (op :: past) ip second := by
  cases op with
  | update host sec other => exact Multiset.mem_add.mpr (Or.inl member)
  | tick now => exact member

theorem mem_read_getD {known : Option DatedLog} {second : Int} {d : Int × Record}
    (member : d ∈ SlotRing.read (known.getD .new).slots second) :
    ∃ log, known = some log ∧ d ∈ SlotRing.read log.slots second := by
  cases known with
  | none => simp [DatedLog.new] at member
  | some log => exact ⟨log, rfl, member⟩

theorem mem_read_update {log : DatedLog} {sec second : Int} {r : Record} {d : Int × Record}
    (member : d ∈ SlotRing.read (log.update sec r).slots second) :
    d ∈ SlotRing.read log.slots second ∨
      d = (sec, r) ∧ SlotRing.slot windowSize second = SlotRing.slot windowSize sec := by
  rw [DatedLog.update, SlotRing.read_deposit] at member
  split at member
  · next same =>
      rcases Multiset.mem_add.mp member with earlier | latest
      · exact Or.inl earlier
      · exact Or.inr ⟨Multiset.mem_singleton.mp latest, same⟩
  · exact Or.inl member

theorem tick_cases {log next : DatedLog} {now : Int} (kept : log.tick now = some next) :
    now - log.lastSec ≤ windowSize ∧ next.lastSec = log.lastSec ∧
      next.slots = SlotRing.clear log.slots (now + 1) := by
  unfold DatedLog.tick at kept
  split at kept
  · contradiction
  · next young =>
      cases kept
      exact ⟨not_lt.mp young, rfl, rfl⟩

theorem placed {history : List Op} {ip : Addr} {log : DatedLog}
    (known : datedAfter history ip = some log) {second : Int} {d : Int × Record}
    (member : d ∈ SlotRing.read log.slots second) :
    SlotRing.slot windowSize second = SlotRing.slot windowSize d.1 ∧
      d.2 ∈ recordsAt history ip d.1 := by
  induction history generalizing ip log with
  | nil => contradiction
  | cons op past ih =>
      cases op with
      | update host sec r =>
          rw [datedAfter] at known
          split at known
          · next own =>
              subst own
              cases known
              rcases mem_read_update member with earlier | ⟨rfl, same⟩
              · obtain ⟨old, found, held⟩ := mem_read_getD earlier
                obtain ⟨slot, applied⟩ := ih found held
                exact ⟨slot, recordsAt_mono _ applied⟩
              · exact ⟨same, by simp [recordsAt]⟩
          · obtain ⟨slot, applied⟩ := ih known member
            exact ⟨slot, recordsAt_mono _ applied⟩
      | tick now =>
          obtain ⟨old, found, kept⟩ := Option.bind_eq_some_iff.mp known
          obtain ⟨-, -, cleared⟩ := tick_cases kept
          rw [cleared, SlotRing.read_clear] at member
          split at member
          · simp at member
          · exact ih found member

theorem lastTick_some {history : List Op} (forward : Forward history) (made : history ≠ []) :
    ∃ t, lastTick history = some t := by
  cases history with
  | nil => contradiction
  | cons op past =>
      cases op with
      | update host sec r =>
          obtain ⟨last, known, -⟩ := forward.1
          exact ⟨last, known⟩
      | tick now => exact ⟨now, rfl⟩

theorem retained {history : List Op} (forward : Forward history) {t : Int}
    (clock : lastTick history = some t) {ip : Addr} {second : Int} {r : Record}
    (applied : r ∈ recordsAt history ip second) (recent : t - 58 ≤ second) :
    ∃ log, datedAfter history ip = some log ∧ second ≤ log.lastSec ∧
      (second, r) ∈ SlotRing.read log.slots second := by
  induction history generalizing t with
  | nil => contradiction
  | cons op past ih =>
      cases op with
      | update host sec other =>
          rw [recordsAt, Multiset.mem_add] at applied
          have old : r ∈ recordsAt past ip second → ∃ log, datedAfter past ip = some log ∧
              second ≤ log.lastSec ∧ (second, r) ∈ SlotRing.read log.slots second :=
            fun earlier => ih forward.2 clock earlier recent
          rw [datedAfter]
          by_cases own : ip = host
          · subst own
            rw [if_pos rfl]
            refine ⟨_, rfl, ?_⟩
            rcases applied with earlier | latest
            · obtain ⟨log, found, within, held⟩ := old earlier
              rw [found, Option.getD_some, DatedLog.update]
              refine ⟨within.trans (le_max_left _ _), ?_⟩
              rw [SlotRing.read_deposit]
              split
              · exact Multiset.mem_add.mpr (Or.inl held)
              · exact held
            · split at latest
              · next same =>
                  obtain ⟨-, rfl⟩ := same
                  rw [Multiset.mem_singleton.mp latest, DatedLog.update]
                  refine ⟨le_max_right _ _, ?_⟩
                  rw [SlotRing.read_deposit, if_pos rfl]
                  exact Multiset.mem_add.mpr (Or.inr (Multiset.mem_singleton_self _))
              · simp at latest
          · rw [if_neg own]
            have elsewhere : ¬ (ip = host ∧ second = sec) := fun same => own same.1
            rw [if_neg elsewhere] at applied
            exact old (applied.resolve_right (Multiset.notMem_zero r))
      | tick now =>
          obtain ⟨advanced, bounded, forward⟩ := forward
          cases clock
          have before : second ≤ t := bounded _ (mem_recordsAt applied) second rfl
          obtain ⟨last, known⟩ := lastTick_some forward (by
            rintro rfl
            simp [recordsAt] at applied)
          have later := advanced last known
          obtain ⟨log, found, within, held⟩ := ih forward known applied (by omega)
          have young : ¬ t - log.lastSec > windowSize := by
            simp only [windowSize]
            omega
          refine ⟨{ log with slots := SlotRing.clear log.slots (t + 1) }, ?_, within, ?_⟩
          · rw [datedAfter, found, Option.bind_some, DatedLog.tick, if_neg young]
          · rw [SlotRing.read_clear, if_neg]
            · exact held
            · intro same
              rw [SlotRing.slot_eq_iff] at same
              simp only [windowSize] at same
              omega

theorem young {history : List Op} (forward : Forward history) (unskipped : Unskipped history)
    {t : Int} (clock : lastTick history = some t) {ip : Addr} {log : DatedLog}
    (known : datedAfter history ip = some log) {second : Int} {d : Int × Record}
    (member : d ∈ SlotRing.read log.slots second) : t - 58 ≤ d.1 := by
  induction history generalizing t ip log with
  | nil => contradiction
  | cons op past ih =>
      cases op with
      | update host sec r =>
          obtain ⟨⟨last, before, ordered⟩, forward⟩ := forward
          obtain rfl : last = t := Option.some.inj (before.symm.trans clock)
          rw [datedAfter] at known
          split at known
          · cases known
            rcases mem_read_update member with earlier | ⟨rfl, -⟩
            · obtain ⟨old, found, held⟩ := mem_read_getD earlier
              exact ih forward unskipped clock found held
            · show last - 58 ≤ sec
              omega
          · exact ih forward unskipped clock known member
      | tick now =>
          obtain ⟨advanced, bounded, forward⟩ := forward
          obtain ⟨caught, unskipped⟩ := unskipped
          cases clock
          obtain ⟨old, found, kept⟩ := Option.bind_eq_some_iff.mp known
          obtain ⟨alive, -, cleared⟩ := tick_cases kept
          rw [cleared, SlotRing.read_clear] at member
          split at member
          · simp at member
          · next apart =>
              obtain ⟨last, before⟩ := lastTick_some forward (by
                rintro rfl
                contradiction)
              have earlier := ih forward unskipped before found member
              obtain ⟨slot, applied⟩ := placed found member
              rw [slot, SlotRing.slot_eq_iff] at apart
              by_contra stale
              have other : (d.1 + 59) % 60 ≠ t % 60 := by
                simp only [windowSize] at apart
                omega
              have silent := caught last before (d.1 + 59) (by omega) (by omega) other ip
                old.undated (by rw [undated_after, found]; rfl) alive
              rw [show d.1 + 59 - 59 = d.1 by omega] at silent
              rw [silent] at applied
              exact Multiset.notMem_zero _ applied

theorem none_stale_of_unskipped {history : List Op} (forward : Forward history)
    (unskipped : Unskipped history) : NoneStale history := by
  intro t clock ip i _ d member
  unfold dated at member
  cases known : datedAfter history ip with
  | none => simp [known] at member
  | some log =>
      rw [known] at member
      have recent := young forward unskipped clock known member
      omega

theorem dated_of_slot {history : List Op} {ip : Addr} {log : DatedLog}
    (known : datedAfter history ip = some log) (t : Int) {d : Int × Record}
    (member : d ∈ SlotRing.read log.slots d.1) :
    ∃ i < windowSize, d ∈ dated history ip (t - i) := by
  have slots : windowSize = 60 := rfl
  refine ⟨((t - d.1) % 60).toNat, by omega, ?_⟩
  have same : SlotRing.slot windowSize (t - ((t - d.1) % 60).toNat) =
      SlotRing.slot windowSize d.1 := by
    rw [SlotRing.slot_eq_iff, slots]
    omega
  rw [dated, known, Option.map_some, Option.getD_some, SlotRing.read_congr _ same]
  exact member

theorem caught_of_none_stale {past : List Op} {now : Int} (forward : Forward past)
    (kept : NoneStale (.tick now :: past)) : Caught past now := by
  intro last before skipped later earlier apart ip log known alive
  rw [undated_after, Option.mem_def, Option.map_eq_some_iff] at known
  obtain ⟨old, found, rfl⟩ := known
  rw [Multiset.eq_zero_iff_forall_notMem]
  intro r applied
  obtain ⟨same, rest, within, held⟩ := retained forward before applied (by omega)
  rw [found, Option.some.injEq] at rest
  subst rest
  have survived : datedAfter (.tick now :: past) ip =
      some { old with slots := SlotRing.clear old.slots (now + 1) } := by
    have young : ¬ now - old.lastSec > windowSize := not_lt.mpr alive
    rw [datedAfter, found, Option.bind_some, DatedLog.tick, if_neg young]
  have still : (skipped - 59, r) ∈
      SlotRing.read (SlotRing.clear old.slots (now + 1)) (skipped - 59) := by
    rw [SlotRing.read_clear, if_neg]
    · exact held
    · intro same
      rw [SlotRing.slot_eq_iff] at same
      simp only [windowSize] at same
      omega
  obtain ⟨i, bound, member⟩ := dated_of_slot survived now still
  have fresh := kept now rfl ip i bound _ member
  simp only at fresh
  omega

theorem unskipped_of_none_stale {history : List Op} (forward : Forward history)
    (kept : ∀ past, past <:+ history → NoneStale past) : Unskipped history := by
  induction history with
  | nil => trivial
  | cons op past ih =>
      have earlier : ∀ older, older <:+ past → NoneStale older :=
        fun older suffix => kept older (suffix.trans (List.suffix_cons op past))
      cases op with
      | update host sec r => exact ih forward.2 earlier
      | tick now =>
          exact ⟨caught_of_none_stale forward.2.2 (kept _ List.suffix_rfl),
            ih forward.2.2 earlier⟩

structure Shown (s : Store) (history : List Op) (t : Int) : Prop where
  snapshot : ∀ ip window buckets, s.snapshot ip t window = some buckets →
    buckets = (List.range (min window windowSize).toNat).map fun i : Nat =>
      totals ((dated history ip (t - i)).map Prod.snd)
  top : ∀ n, ∀ row ∈ s.top t n, TopEntry.ofTotal row.ip (totals
    ((List.range windowSize).map fun i : Nat =>
      (dated history row.ip (t - i)).map Prod.snd).sum) = some row
  overview : (s.overview t).buckets = (List.range windowSize).map fun i : Nat =>
    ((s.recent t).map fun entry => totals ((dated history entry.1 (t - i)).map Prod.snd)).sum

theorem shown_after (start : Store) (fresh : ∀ ip, start.host ip = none) (history : List Op)
    (t : Int) : Shown (start.after history) history t where
  snapshot ip window buckets reported := by
    simp only [← held_eq_dated]
    exact snapshot_after start fresh history ip t window buckets reported
  top n row listed := by
    simp only [← held_eq_dated]
    exact top_after start fresh history t n listed
  overview := by
    simp only [← held_eq_dated]
    exact overview_after start fresh history t

/-- In runs whose ticks may skip seconds, no view ever takes in a record of 60 seconds ago or
older if and only if no tick keeps a host with a record that a skipped tick was to clear. -/
theorem none_stale_iff_unskipped (defaultNumShards numShards : Int) (history : List Op)
    (forward : Forward history) :
    (∀ past, past <:+ history → ∀ t,
      Shown ((Store.new defaultNumShards numShards).after past) past t) ∧
    ((∀ past, past <:+ history → NoneStale past) ↔ Unskipped history) := by
  refine ⟨fun past _ t => shown_after _ (Store.host_new _ _) past t,
    unskipped_of_none_stale forward, ?_⟩
  intro unskipped
  induction history with
  | nil =>
      intro past suffix
      rw [List.suffix_nil.mp suffix]
      exact none_stale_of_unskipped trivial trivial
  | cons op rest ih =>
      intro past suffix
      rcases List.suffix_cons_iff.mp suffix with rfl | older
      · exact none_stale_of_unskipped forward unskipped
      · cases op with
        | update host sec r => exact ih forward.2 unskipped past older
        | tick now => exact ih forward.2.2 unskipped.2 past older

theorem none_stale_iff_unskipped_sample :
    NoneStale [.tick 103, .update sampleHost 101 (sampleRecord protoUDP 7 700), .tick 101,
      .tick 100] := by
  have forward : Forward [.tick 103, .update sampleHost 101 (sampleRecord protoUDP 7 700),
      .tick 101, .tick 100] := by
    simp [Forward, lastTick, Op.sec]
  have unskipped : Unskipped [.tick 103, .update sampleHost 101 (sampleRecord protoUDP 7 700),
      .tick 101, .tick 100] := by
    refine ⟨?_, ?_, ?_, trivial⟩
    · rintro last ⟨⟩ skipped low high - ip log - -
      have apart : skipped - 59 ≠ 101 := by omega
      simp [recordsAt, apart]
    · rintro last ⟨⟩ skipped low high
      omega
    · rintro last ⟨⟩
  exact (none_stale_iff_unskipped 1 1 _ forward).2.mpr unskipped _ List.suffix_rfl

/-- The tick of 159 is skipped while the host lives on, and its record of the second 100 is read
for the second 160. -/
theorem skipped_tick_keeps_record :
    let history : List Op := [.tick 160, .update sampleHost 158 (sampleRecord protoUDP 3 300),
      .tick 158, .update sampleHost 100 (sampleRecord protoUDP 7 700), .tick 100]
    Forward history ∧ ¬ NoneStale history ∧
      ((Store.new 1 1).after history).snapshot sampleHost 160 1 =
        some [Bucket.ofRecord (sampleRecord protoUDP 7 700)] ∧
      (((Store.new 1 1).after history).top 160 1).map TopEntry.bps = [1000] := by
  intro history
  have inside :
      (100, sampleRecord protoUDP 7 700) ∈ dated history sampleHost (160 - (0 : Nat)) := by
    decide +kernel
  refine ⟨by simp [history, Forward, lastTick, Op.sec], ?_, by decide +kernel, by decide +kernel⟩
  intro kept
  have fresh := kept 160 rfl sampleHost 0 (by decide) _ inside
  exact absurd fresh (by decide)

end Mitigador.Aggregate
