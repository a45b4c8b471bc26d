import Mitigador.Aggregate.History

/-! Ticks that run late. The second of a tick is the time at which the ticker sent it, so the
writer may already have counted records of the following second when the tick clears it. -/

namespace Mitigador.Aggregate

open Go Mitigador.Flow Lib

def lastTick : List Op → Option Int
  | [] => none
  | .update _ _ _ :: past => lastTick past
  | .tick now :: _ => some now

def Consecutive : List Op → Prop
  | [] => True
  | .update _ _ _ :: past => Consecutive past
  | .tick now :: past => (∀ last ∈ lastTick past, now = last + 1) ∧ Consecutive past

instance decidableConsecutive : ∀ history, Decidable (Consecutive history)
  | [] => isTrue trivial
  | .update _ _ _ :: past => decidableConsecutive past
  | .tick now :: past =>
      have := decidableConsecutive past
      inferInstanceAs (Decidable ((∀ last ∈ lastTick past, now = last + 1) ∧ Consecutive past))

def Recent (clock : Option Int) (second : Int) : Prop :=
  ∀ last ∈ clock, last - 57 ≤ second ∧ second ≤ last + 1

/-- Every recent second still has each of its records in the slot that `Snapshot` reads. -/
def NoneLost (history : List Op) : Prop :=
  ∀ ip second, Recent (lastTick history) second →
    recordsAt history ip second ≤ held history ip second

/-- No tick finds a record of the second after it. -/
def Punctual : List Op → Prop
  | [] => True
  | .update _ _ _ :: past => Punctual past
  | .tick now :: past => (∀ ip, recordsAt past ip (now + 1) = 0) ∧ Punctual past

theorem recent_of_tick {clock : Option Int} {now second : Int}
    (consecutive : ∀ last ∈ clock, now = last + 1) (recent : Recent (some now) second)
    (earlier : second ≠ now + 1) : Recent clock second := by
  intro last known
  have bounds := recent now rfl
  have same := consecutive last known
  omega

theorem slot_apart {now second : Int} (recent : Recent (some now) second)
    (earlier : second ≠ now + 1) :
    SlotRing.slot windowSize second ≠ SlotRing.slot windowSize (now + 1) := by
  intro same
  have bounds := recent now rfl
  have width : (windowSize : Int) = 60 := rfl
  exact earlier (SlotRing.slot_injective bounds.1 (by omega) (by omega) (by omega) same)

structure Keeps (history : List Op) (ip : Addr) (log : Option HostLog) : Prop where
  absent : log = none → ∀ second, Recent (lastTick history) second →
    recordsAt history ip second = 0
  slots : ∀ known, log = some known → ∀ second, Recent (lastTick history) second →
    recordsAt history ip second ≤ SlotRing.read known.slots second
  last : ∀ known, log = some known → ∀ second, Recent (lastTick history) second →
    recordsAt history ip second ≠ 0 → second ≤ known.lastSec

theorem keeps_start (ip : Addr) : Keeps [] ip none where
  absent := fun _ _ _ => rfl
  slots := fun _ impossible => by contradiction
  last := fun _ impossible => by contradiction

theorem Keeps.found {history : List Op} {ip : Addr} {log : Option HostLog}
    (keeps : Keeps history ip log) : Keeps history ip (some (log.getD HostLog.new)) := by
  cases log with
  | some known => exact keeps
  | none =>
      have silent := keeps.absent rfl
      refine ⟨fun impossible => by contradiction, ?_, ?_⟩
      · intro known same second recent
        rw [silent second recent]
        exact Multiset.zero_le _
      · intro known same second recent nonzero
        exact absurd (silent second recent) nonzero

theorem Keeps.update {history : List Op} {ip : Addr} {known : HostLog}
    (keeps : Keeps history ip (some known)) (sec : Int) (r : Record) :
    Keeps (.update ip sec r :: history) ip (some (known.update sec r)) where
  absent := fun impossible => by contradiction
  slots := by
    intro next same second recent
    cases same
    have kept := keeps.slots known rfl second recent
    rw [HostLog.update, SlotRing.read_deposit]
    by_cases here : second = sec
    · subst here
      simpa [recordsAt] using kept
    · have unchanged : recordsAt (.update ip sec r :: history) ip second =
          recordsAt history ip second := by
        simp [recordsAt, here]
      rw [unchanged]
      split
      · exact kept.trans (Multiset.le_add_right _ _)
      · exact kept
  last := by
    intro next same second recent nonzero
    cases same
    by_cases here : second = sec
    · exact here ▸ le_max_right _ _
    · have counted : recordsAt history ip second ≠ 0 := by
        simpa [recordsAt, here] using nonzero
      exact (keeps.last known rfl second recent counted).trans (le_max_left _ _)

theorem Keeps.other {history : List Op} {ip host : Addr} {sec : Int} {r : Record}
    {log : Option HostLog} (keeps : Keeps history ip log) (different : ip ≠ host) :
    Keeps (.update host sec r :: history) ip log := by
  have unchanged : recordsAt (.update host sec r :: history) ip = recordsAt history ip := by
    funext second
    simp [recordsAt, different]
  rcases keeps with ⟨absent, slots, last⟩
  rw [← unchanged] at absent slots last
  exact ⟨absent, slots, last⟩

theorem Keeps.tick {history : List Op} {ip : Addr} {now : Int} {log : Option HostLog}
    (keeps : Keeps history ip log) (consecutive : ∀ last ∈ lastTick history, now = last + 1)
    (silent : recordsAt history ip (now + 1) = 0) :
    Keeps (.tick now :: history) ip (log.bind (HostLog.tick now)) where
  absent := by
    intro gone second recent
    change recordsAt history ip second = 0
    by_contra nonzero
    have earlier : second ≠ now + 1 := fun same => nonzero (same ▸ silent)
    have known := recent_of_tick consecutive recent earlier
    cases log with
    | none => exact nonzero (keeps.absent rfl second known)
    | some found =>
        have late := keeps.last found rfl second known nonzero
        have stale := HostLog.tick_eq_none now found gone
        have bounds := recent now rfl
        omega
  slots := by
    intro next kept second recent
    change recordsAt history ip second ≤ _
    obtain ⟨found, rfl, ticked⟩ := Option.bind_eq_some_iff.mp kept
    rw [HostLog.tick_eq_some now found next ticked, SlotRing.read_clear]
    by_cases coming : second = now + 1
    · subst coming
      rw [silent]
      exact Multiset.zero_le _
    · rw [if_neg (slot_apart recent coming)]
      exact keeps.slots found rfl second (recent_of_tick consecutive recent coming)
  last := by
    intro next kept second recent nonzero
    obtain ⟨found, rfl, ticked⟩ := Option.bind_eq_some_iff.mp kept
    have earlier : second ≠ now + 1 := fun same => nonzero (same ▸ silent)
    rw [HostLog.tick_eq_some now found next ticked]
    exact keeps.last found rfl second (recent_of_tick consecutive recent earlier) nonzero

theorem keeps_after {history : List Op} (consecutive : Consecutive history)
    (punctual : Punctual history) (ip : Addr) : Keeps history ip (Ledger.after history ip) := by
  induction history generalizing ip with
  | nil => exact keeps_start ip
  | cons op past ih =>
      cases op with
      | update host sec r =>
          have known := ih consecutive punctual
          simp only [Ledger.after, Ledger.apply]
          by_cases here : ip = host
          · subst here
            rw [if_pos rfl]
            exact (known ip).found.update sec r
          · rw [if_neg here]
            exact (known ip).other here
      | tick now => exact (ih consecutive.2 punctual.2 ip).tick consecutive.1 (punctual.1 ip)

theorem none_lost_of_punctual {history : List Op} (consecutive : Consecutive history)
    (punctual : Punctual history) : NoneLost history := by
  intro ip second recent
  have keeps := keeps_after consecutive punctual ip
  unfold held
  cases present : Ledger.after history ip with
  | none =>
      rw [keeps.absent present second recent]
      exact Multiset.zero_le _
  | some log => exact keeps.slots log present second recent

theorem silent_of_none_lost {past : List Op} {now : Int} (kept : NoneLost (.tick now :: past))
    (ip : Addr) : recordsAt past ip (now + 1) = 0 := by
  have recent : Recent (lastTick (.tick now :: past)) (now + 1) := by
    intro last known
    cases known
    omega
  have bound := kept ip (now + 1) recent
  rw [held_tick] at bound
  exact Multiset.le_zero.mp bound

theorem punctual_of_none_lost {history : List Op}
    (kept : ∀ past, past <:+ history → NoneLost past) : Punctual history := by
  induction history with
  | nil => trivial
  | cons op past ih =>
      have earlier := ih fun older suffix => kept older (suffix.trans (List.suffix_cons op past))
      cases op with
      | update host sec r => exact earlier
      | tick now => exact ⟨silent_of_none_lost (kept _ List.suffix_rfl), earlier⟩

/-- Ticks of consecutive seconds, however late, lose no record of the last 58 seconds and the
coming one exactly when none of them finds a record of the second it clears. -/
theorem none_lost_iff_punctual (defaultNumShards numShards : Int) (history : List Op)
    (consecutive : Consecutive history) :
    (∀ past, past <:+ history → ∀ ip now window buckets,
      ((Store.new defaultNumShards numShards).after past).snapshot ip now window = some buckets →
        buckets = (List.range (min window windowSize).toNat).map fun i : Nat =>
          totals (held past ip (now - i))) ∧
    ((∀ past, past <:+ history → NoneLost past) ↔ Punctual history) := by
  refine ⟨?_, punctual_of_none_lost, ?_⟩
  · intro past _ ip now window buckets reported
    exact snapshot_after _ (Store.host_new _ _) past ip now window buckets reported
  · intro punctual
    induction history with
    | nil =>
        intro past suffix
        rw [List.suffix_nil.mp suffix]
        exact none_lost_of_punctual trivial trivial
    | cons op rest ih =>
        intro past suffix
        rcases List.suffix_cons_iff.mp suffix with rfl | older
        · exact none_lost_of_punctual consecutive punctual
        · cases op with
          | update host sec r => exact ih consecutive punctual past older
          | tick now => exact ih consecutive.2 punctual.2 past older

theorem none_lost_iff_punctual_sample :
    NoneLost [.update sampleHost 101 (sampleRecord protoUDP 7 700), .tick 100] := by
  have consecutive : Consecutive [.update sampleHost 101 (sampleRecord protoUDP 7 700),
      .tick 100] := ⟨fun _ impossible => by contradiction, trivial⟩
  exact (none_lost_iff_punctual 1 1 _ consecutive).2.mpr ⟨fun _ => rfl, trivial⟩ _
    List.suffix_rfl

/-- One record of the second 101 precedes the tick of 100, and its bucket reads zero. -/
theorem late_tick_loses_record :
    let history : List Op := [.tick 100, .update sampleHost 101 (sampleRecord protoUDP 7 700)]
    Consecutive history ∧ ¬ NoneLost history ∧
      recordsAt history sampleHost 101 = {sampleRecord protoUDP 7 700} ∧
      ((Store.new 1 1).after history).snapshot sampleHost 101 1 = some [0] := by
  refine ⟨⟨fun _ impossible => by contradiction, trivial⟩, ?_, rfl, by decide +kernel⟩
  intro kept
  have silent := silent_of_none_lost kept sampleHost
  exact Multiset.singleton_ne_zero _ silent

end Mitigador.Aggregate
