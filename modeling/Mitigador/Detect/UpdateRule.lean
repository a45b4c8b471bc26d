import Mathlib.Data.List.MinMax
import Mathlib.Data.UInt
import Mitigador.Detect.Protocol

/-! When an incident reports its one update, and which peaks its events carry, over all runs of
`Step` with any thresholds. -/

namespace Mitigador.Detect

open Go Lib

variable {ρ : Type*}

structure StepCall where
  key : Key
  input : Input
  threshold : Threshold

def stepCall (newULID : ρ → Time → String × ρ) (sm : StateMachine ρ) (called : StepCall) :
    Option (StateMachine ρ × Option AttackEvent) :=
  sm.step newULID called.key called.input called.threshold

abbrev Steps (ρ : Type*) := List (Entry (StateMachine ρ) StepCall (Option AttackEvent))

def further (i : Input) : List Input → List Input
  | [] => []
  | latest :: earlier => i :: latest :: earlier

def since (k : Key) : Steps ρ → List Input
  | [] => []
  | entry :: back =>
      if entry.action.key = k then
        match entry.output.map AttackEvent.state with
        | some .started => [entry.action.input]
        | some .ended => []
        | _ => further entry.action.input (since k back)
      else since k back

def updatesSince (k : Key) : Steps ρ → Nat
  | [] => 0
  | entry :: back =>
      if entry.action.key = k then
        match entry.output.map AttackEvent.state with
        | some .started => 0
        | some .updated => updatesSince k back + 1
        | _ => updatesSince k back
      else updatesSince k back

def peakPps (steps : List Input) : Nat := (steps.map fun i => i.currentPps.toNat).foldr max 0

def peakBps (steps : List Input) : Nat := (steps.map fun i => i.currentBps.toNat).foldr max 0

/-- D-15 in exact integers, at the newest of the steps of an incident. -/
def Due : List Input → Prop
  | [] => False
  | i :: earlier => i.violating = true ∧ ∃ first, (i :: earlier).getLast? = some first ∧
      (updateAfterDuration ≤ i.now.ns - first.now.ns ∨
        2 * first.currentPps.toNat < peakPps (i :: earlier) ∨
        2 * first.currentBps.toNat < peakBps (i :: earlier))

def After (P : List Input → Prop) (steps : List Input) : Prop :=
  ∃ i earlier, (i :: earlier) <:+ steps ∧ earlier ≠ [] ∧ P (i :: earlier)

/-- The update rule of a key: the report at the first step that is due, at most one for an
incident, and exact peaks on every later event. -/
structure UpdateRule (k : Key) (trace : Steps ρ) : Prop where
  updated : ∀ front entry back, trace = front ++ entry :: back → entry.action.key = k →
    ((∃ ev, entry.output = some ev ∧ ev.state = .updated) ↔
      since k back ≠ [] ∧ Due (entry.action.input :: since k back) ∧ ¬ After Due (since k back))
  once : ∀ front back, trace = front ++ back → updatesSince k back ≤ 1
  peaks : ∀ front entry back ev, trace = front ++ entry :: back → entry.action.key = k →
    entry.output = some ev → ev.state ≠ .started →
    ev.peakPps.toNat = peakPps (entry.action.input :: since k back) ∧
      ev.peakBps.toNat = peakBps (entry.action.input :: since k back)

def Large (first : Input) : Prop :=
  2 ^ 63 ≤ first.currentPps.toNat ∨ 2 ^ 63 ≤ first.currentBps.toNat

def Violates : List Input → Prop
  | [] => False
  | i :: _ => i.violating = true

/-- Where an incident starts with such a counter, its first violating step afterwards is due. -/
def LargeDue (k : Key) (trace : Steps ρ) : Prop :=
  ∀ front entry back first, trace = front ++ entry :: back → entry.action.key = k →
    (since k back).getLast? = some first → Large first → entry.action.input.violating = true →
    ¬ After Violates (since k back) → Due (entry.action.input :: since k back)

/-- The test as `Step` makes it, its doubling taken modulo 2^64. -/
def Triggers : List Input → Prop
  | [] => False
  | i :: earlier => i.violating = true ∧ ∃ first, (i :: earlier).getLast? = some first ∧
      (updateAfterDuration ≤ i.now.sub first.now ∨
        (2 * first.currentPps).toNat < peakPps (i :: earlier) ∨
        (2 * first.currentBps).toNat < peakBps (i :: earlier))

theorem le_peakPps {steps : List Input} {i : Input} (member : i ∈ steps) :
    i.currentPps.toNat ≤ peakPps steps :=
  List.le_max_of_le' 0 (List.mem_map_of_mem member) le_rfl

theorem le_peakBps {steps : List Input} {i : Input} (member : i ∈ steps) :
    i.currentBps.toNat ≤ peakBps steps :=
  List.le_max_of_le' 0 (List.mem_map_of_mem member) le_rfl

theorem long_iff (i first : Input) :
    updateAfterDuration ≤ i.now.sub first.now ↔
      updateAfterDuration ≤ i.now.ns - first.now.ns := by
  have clipped (d : Int) : (300000000000 : Int) ≤ max (-2 ^ 63) (min (2 ^ 63 - 1) d) ↔
      300000000000 ≤ d := by omega
  have five : updateAfterDuration = (300000000000 : Int) := by decide
  rw [five]
  exact clipped (i.now.ns - first.now.ns)

theorem double_small {x : UInt64} (small : x.toNat < 2 ^ 63) : (2 * x).toNat = 2 * x.toNat := by
  rw [UInt64.toNat_mul, show (2 : UInt64).toNat = 2 from rfl]
  omega

theorem double_large {x : UInt64} (large : 2 ^ 63 ≤ x.toNat) : (2 * x).toNat < x.toNat := by
  have bound := x.toNat_lt
  rw [UInt64.toNat_mul, show (2 : UInt64).toNat = 2 from rfl]
  omega

theorem double_le (x : UInt64) : (2 * x).toNat ≤ 2 * x.toNat := by
  rcases lt_or_ge x.toNat (2 ^ 63) with small | large
  · exact (double_small small).le
  · have less := double_large large
    omega

theorem triggers_of_due {steps : List Input} (due : Due steps) : Triggers steps := by
  cases steps with
  | nil => exact due
  | cons i earlier =>
      obtain ⟨violating, first, last, reason⟩ := due
      refine ⟨violating, first, last, ?_⟩
      rcases reason with long | packets | bytes
      · exact Or.inl ((long_iff i first).mpr long)
      · exact Or.inr (Or.inl ((double_le _).trans_lt packets))
      · exact Or.inr (Or.inr ((double_le _).trans_lt bytes))

theorem due_of_triggers {steps : List Input} {first : Input} (last : steps.getLast? = some first)
    (small : ¬ Large first) (triggers : Triggers steps) : Due steps := by
  cases steps with
  | nil => exact triggers
  | cons i earlier =>
      obtain ⟨violating, other, same, reason⟩ := triggers
      cases last.symm.trans same
      have packetsSmall : first.currentPps.toNat < 2 ^ 63 :=
        not_le.mp fun large => small (Or.inl large)
      have bytesSmall : first.currentBps.toNat < 2 ^ 63 :=
        not_le.mp fun large => small (Or.inr large)
      rw [long_iff, double_small packetsSmall, double_small bytesSmall] at reason
      exact ⟨violating, first, last, reason⟩

/-- With a large counter the doubling wraps below the peak that is already there. -/
theorem triggers_of_large {steps : List Input} {first : Input}
    (last : steps.getLast? = some first) (large : Large first) (violates : Violates steps) :
    Triggers steps := by
  cases steps with
  | nil => exact violates
  | cons i earlier =>
      have member : first ∈ i :: earlier := List.mem_of_getLast? last
      refine ⟨violates, first, last, ?_⟩
      rcases large with packets | bytes
      · exact Or.inr (Or.inl ((double_large packets).trans_le (le_peakPps member)))
      · exact Or.inr (Or.inr ((double_large bytes).trans_le (le_peakBps member)))

theorem violates_of_triggers {steps : List Input} (triggers : Triggers steps) :
    Violates steps := by
  cases steps with
  | nil => exact triggers
  | cons i earlier => exact triggers.1

theorem After.mono {P Q : List Input → Prop} {steps : List Input} (found : After P steps)
    (weaker : ∀ more, more <:+ steps → P more → Q more) : After Q steps := by
  obtain ⟨i, earlier, suffix, later, holds⟩ := found
  exact ⟨i, earlier, suffix, later, weaker _ suffix holds⟩

theorem after_cons {P : List Input → Prop} {i : Input} {steps : List Input}
    (later : steps ≠ []) : After P (i :: steps) ↔ P (i :: steps) ∨ After P steps := by
  constructor
  · intro ⟨j, earlier, suffix, nonempty, holds⟩
    rcases List.suffix_cons_iff.mp suffix with same | older
    · left
      rw [← same]
      exact holds
    · exact Or.inr ⟨j, earlier, older, nonempty, holds⟩
  · rintro (holds | found)
    · exact ⟨i, steps, List.suffix_refl _, later, holds⟩
    · obtain ⟨j, earlier, suffix, nonempty, holds⟩ := found
      exact ⟨j, earlier, suffix.trans (List.suffix_cons ..), nonempty, holds⟩

theorem not_after_singleton (P : List Input → Prop) (i : Input) : ¬ After P [i] := by
  intro ⟨j, earlier, suffix, nonempty, _⟩
  have short := suffix.length_le
  simp only [List.length_cons, List.length_nil] at short
  exact nonempty (List.eq_nil_of_length_eq_zero (by omega))

theorem getLast?_of_suffix {steps more : List Input} {first : Input}
    (last : steps.getLast? = some first) (suffix : more <:+ steps) (nonempty : more ≠ []) :
    more.getLast? = some first := by
  obtain ⟨newer, rfl⟩ := suffix
  rw [List.getLast?_append_of_ne_nil _ nonempty] at last
  exact last

/-! What an entry of the machine keeps of its incident. -/

structure Keeps (inc : Incident) (steps : List Input) (updates : Nat) : Prop where
  first : ∃ first, steps.getLast? = some first ∧ inc.startedAt = first.now ∧
    inc.initialPeakPps = first.currentPps ∧ inc.initialPeakBps = first.currentBps
  pps : inc.peakPps.toNat = peakPps steps
  bps : inc.peakBps.toNat = peakBps steps
  emitted : inc.updateEmitted = true ↔ After Triggers steps
  counted : updates = if inc.updateEmitted then 1 else 0

structure Remembers (k : Key) (trace : Steps ρ) (e : MachineEntry) : Prop where
  idle : e.state ≠ .active → since k trace = []
  active : e.state = .active → ∃ inc, e.inc = some inc ∧
    Keeps inc (since k trace) (updatesSince k trace)
  once : updatesSince k trace ≤ 1

theorem Keeps.nonempty {inc : Incident} {steps : List Input} {updates : Nat}
    (keeps : Keeps inc steps updates) : steps ≠ [] := by
  obtain ⟨first, last, -⟩ := keeps.first
  rintro rfl
  contradiction

theorem further_of_nonempty {steps : List Input} (nonempty : steps ≠ []) (i : Input) :
    further i steps = i :: steps := by
  cases steps with
  | nil => exact absurd rfl nonempty
  | cons latest earlier => rfl

theorem getLast?_further {steps : List Input} {first : Input}
    (last : steps.getLast? = some first) (i : Input) : (i :: steps).getLast? = some first := by
  rw [List.getLast?_cons, last]
  rfl

theorem observe_pps (inc : Incident) (i : Input) :
    (inc.observe i).peakPps.toNat = max i.currentPps.toNat inc.peakPps.toNat := by
  simp only [Incident.observe, gt_iff_lt, UInt64.lt_iff_toNat_lt]
  split <;> omega

theorem observe_bps (inc : Incident) (i : Input) :
    (inc.observe i).peakBps.toNat = max i.currentBps.toNat inc.peakBps.toNat := by
  simp only [Incident.observe, gt_iff_lt, UInt64.lt_iff_toNat_lt]
  split <;> omega

theorem Keeps.peaks {inc : Incident} {steps : List Input} {updates : Nat}
    (keeps : Keeps inc steps updates) (i : Input) :
    (inc.observe i).peakPps.toNat = peakPps (i :: steps) ∧
      (inc.observe i).peakBps.toNat = peakBps (i :: steps) := by
  rw [observe_pps, observe_bps, keeps.pps, keeps.bps]
  exact ⟨rfl, rfl⟩

theorem Keeps.triggers_iff {inc : Incident} {steps : List Input} {updates : Nat}
    (keeps : Keeps inc steps updates) (i : Input) :
    (i.violating = true ∧ (updateAfterDuration ≤ i.now.sub inc.startedAt ∨
      (inc.observe i).peakDoubled = true)) ↔ Triggers (i :: steps) := by
  obtain ⟨first, last, startedAt, initialPps, initialBps⟩ := keeps.first
  have whole := getLast?_further last i
  have doubled : (inc.observe i).peakDoubled = true ↔
      (2 * first.currentPps).toNat < peakPps (i :: steps) ∨
      (2 * first.currentBps).toNat < peakBps (i :: steps) := by
    obtain ⟨packets, bytes⟩ := keeps.peaks i
    rw [← packets, ← bytes, ← UInt64.lt_iff_toNat_lt, ← UInt64.lt_iff_toNat_lt, ← initialPps,
      ← initialBps]
    simp [Incident.peakDoubled, Incident.observe]
  rw [doubled, startedAt]
  constructor
  · rintro ⟨violating, reason⟩
    exact ⟨violating, first, whole, reason⟩
  · rintro ⟨violating, other, same, reason⟩
    cases whole.symm.trans same
    exact ⟨violating, reason⟩

theorem Keeps.step {inc : Incident} {steps : List Input} {updates more : Nat}
    (keeps : Keeps inc steps updates) (i : Input) (ticks : Nat) (emitted : Bool)
    (now : emitted = true ↔ Triggers (i :: steps) ∨ inc.updateEmitted = true)
    (counted : more = if emitted then 1 else 0) :
    Keeps { inc.observe i with noViolationTicks := ticks, updateEmitted := emitted }
      (i :: steps) more where
  first := by
    obtain ⟨first, last, startedAt, initialPps, initialBps⟩ := keeps.first
    exact ⟨first, getLast?_further last i, startedAt, initialPps, initialBps⟩
  pps := (keeps.peaks i).1
  bps := (keeps.peaks i).2
  emitted := by
    rw [after_cons keeps.nonempty, ← keeps.emitted]
    exact now
  counted := counted

theorem keeps_opened (id : String) (i : Input) : Keeps (Incident.opened id i) [i] 0 where
  first := ⟨i, rfl, rfl, rfl, rfl⟩
  pps := by simp [Incident.opened, peakPps]
  bps := by simp [Incident.opened, peakBps]
  emitted := by
    refine ⟨fun impossible => ?_, fun found => absurd found (not_after_singleton _ i)⟩
    simp [Incident.opened] at impossible
  counted := rfl

variable {newULID : ρ → Time → String × ρ}

theorem remembers_start (k : Key) : Remembers (ρ := ρ) k [] newEntry where
  idle _ := rfl
  active impossible := by contradiction
  once := Nat.zero_le 1

theorem remembers_other {k : Key} {back : Steps ρ} {e : MachineEntry}
    {entry : Entry (StateMachine ρ) StepCall (Option AttackEvent)}
    (different : entry.action.key ≠ k) (remembers : Remembers k back e) :
    Remembers k (entry :: back) e where
  idle inactive := by
    rw [since, if_neg different]
    exact remembers.idle inactive
  active active := by
    rw [since, if_neg different, updatesSince, if_neg different]
    exact remembers.active active
  once := by
    rw [updatesSince, if_neg different]
    exact remembers.once

theorem since_silent (k : Key) (back : Steps ρ) (sm : StateMachine ρ) (i : Input) (t : Threshold) :
    since k (⟨sm, ⟨k, i, t⟩, none⟩ :: back) = further i (since k back) ∧
      updatesSince k (⟨sm, ⟨k, i, t⟩, none⟩ :: back) = updatesSince k back := by
  simp [since, updatesSince]

section Silent

variable {k : Key} {back : Steps ρ} {sm : StateMachine ρ} {i : Input} {t : Threshold}
  {e next : MachineEntry} (remembers : Remembers k back e)

include remembers

theorem remembers_quiet (inactive : e.state ≠ .active) (still : next.state ≠ .active) :
    Remembers k (⟨sm, ⟨k, i, t⟩, none⟩ :: back) next := by
  obtain ⟨steps, updates⟩ := since_silent k back sm i t
  constructor
  · intro _
    rw [steps, remembers.idle inactive]
    rfl
  · intro active
    exact absurd active still
  · rw [updates]
    exact remembers.once

theorem remembers_open {inc : Incident} (active : e.state = .active) (present : e.inc = some inc)
    (ticks : Nat)
    (calm : Keeps inc (since k back) (updatesSince k back) → Triggers (i :: since k back) →
      inc.updateEmitted = true) :
    Remembers k (⟨sm, ⟨k, i, t⟩, none⟩ :: back)
      { e with inc := some { inc.observe i with noViolationTicks := ticks } } := by
  obtain ⟨steps, updates⟩ := since_silent k back sm i t
  obtain ⟨other, same, keeps⟩ := remembers.active active
  cases present.symm.trans same
  constructor
  · intro inactive
    exact absurd active inactive
  · intro _
    refine ⟨_, rfl, ?_⟩
    rw [steps, updates, further_of_nonempty keeps.nonempty]
    apply keeps.step i ticks inc.updateEmitted _ keeps.counted
    exact ⟨Or.inr, fun either => either.elim (calm keeps) id⟩
  · rw [updates]
    exact remembers.once

end Silent

theorem remembers_transition {k : Key} {back : Steps ρ} {sm : StateMachine ρ} {i : Input}
    {t : Threshold} {rnd rest : ρ} {e next : MachineEntry} {output : Option AttackEvent}
    (moved : Transition newULID rnd k i t e next rest output) (remembers : Remembers k back e) :
    Remembers k (⟨sm, ⟨k, i, t⟩, output⟩ :: back) next := by
  cases moved with
  | wait idle early =>
      have inactive : e.state ≠ .active := by simp [idle]
      exact remembers_quiet remembers inactive inactive
  | start idle violating long =>
      constructor
      · intro inactive
        exact absurd rfl inactive
      · intro _
        refine ⟨_, rfl, ?_⟩
        simpa [since, updatesSince, Incident.event] using keeps_opened _ i
      · simp [updatesSince, Incident.event]
  | @ease inc active present quiet short =>
      apply remembers_open remembers active present
      intro keeps triggers
      rw [triggers.1] at quiet
      contradiction
  | @finish inc active present quiet long =>
      constructor
      · intro _
        simp [since, Incident.event]
      · intro impossible
        contradiction
      · simpa [updatesSince, Incident.event] using remembers.once
  | @hold inc active present violating small =>
      apply remembers_open remembers active present
      intro keeps triggers
      rcases small with emitted | ⟨short, level⟩
      · exact emitted
      · rcases ((keeps.triggers_iff i).mpr triggers).2 with late | doubled
        · exact absurd late (not_le.mpr short)
        · rw [level] at doubled
          contradiction
  | @update inc active present violating first large =>
      obtain ⟨other, same, keeps⟩ := remembers.active active
      cases present.symm.trans same
      have none : updatesSince k back = 0 := by
        rw [keeps.counted, first]
        rfl
      constructor
      · intro inactive
        exact absurd active inactive
      · intro _
        refine ⟨_, rfl, ?_⟩
        have grown := keeps.step i 0 true
          (iff_of_true rfl (Or.inl ((keeps.triggers_iff i).mp ⟨violating, large⟩))) rfl
        simpa [since, updatesSince, Incident.event, further_of_nonempty keeps.nonempty, none]
          using grown
      · simp [updatesSince, Incident.event, none]
  | cool cooldown early =>
      have inactive : e.state ≠ .active := by simp [cooldown]
      exact remembers_quiet remembers inactive inactive
  | thaw cooldown late =>
      exact remembers_quiet remembers (by simp [cooldown]) (by simp)

theorem remembers_run {rnd : ρ} {trace : Steps ρ} {final : StateMachine ρ}
    (run : Run (stepCall newULID) (StateMachine.new rnd) trace final) (k : Key) :
    Remembers k trace (final.entry k) := by
  induction run with
  | start => exact remembers_start k
  | @step trace sm next called output past stepped ih =>
      obtain ⟨moved, frame⟩ := StateMachine.step_cases stepped
      by_cases own : called.key = k
      · subst own
        exact remembers_transition moved ih
      · apply remembers_other own
        rw [StateMachine.entry, frame k (Ne.symm own)]
        exact ih

theorem reports_of_transition {k : Key} {back : Steps ρ} {i : Input} {t : Threshold}
    {rnd rest : ρ} {e next : MachineEntry} {output : Option AttackEvent}
    (moved : Transition newULID rnd k i t e next rest output) (remembers : Remembers k back e) :
    ((∃ ev, output = some ev ∧ ev.state = .updated) ↔ since k back ≠ [] ∧
      Triggers (i :: since k back) ∧ ¬ After Triggers (since k back)) ∧
    ∀ ev, output = some ev → ev.state ≠ .started →
      ev.peakPps.toNat = peakPps (i :: since k back) ∧
      ev.peakBps.toNat = peakBps (i :: since k back) := by
  cases moved with
  | wait idle =>
      have closed := remembers.idle (by simp [idle])
      simp [closed]
  | cool cooldown | thaw cooldown =>
      have closed := remembers.idle (by simp [cooldown])
      simp [closed]
  | start idle =>
      have closed := remembers.idle (by simp [idle])
      constructor
      · simp [closed, Incident.event]
      · intro ev same other
        cases same
        exact absurd rfl other
  | @ease inc active present quiet short =>
      have calm : ¬ Triggers (i :: since k back) := by
        intro triggers
        rw [triggers.1] at quiet
        contradiction
      simp [calm]
  | @finish inc active present quiet long =>
      obtain ⟨other, same, keeps⟩ := remembers.active active
      cases present.symm.trans same
      have calm : ¬ Triggers (i :: since k back) := by
        intro triggers
        rw [triggers.1] at quiet
        contradiction
      constructor
      · simp [calm, Incident.event]
      · intro ev ended _
        cases ended
        exact keeps.peaks i
  | @hold inc active present violating small =>
      obtain ⟨other, same, keeps⟩ := remembers.active active
      cases present.symm.trans same
      constructor
      · rw [← keeps.triggers_iff i, ← keeps.emitted]
        rcases small with emitted | ⟨short, level⟩
        · simp [emitted]
        · have early : ¬ updateAfterDuration ≤ i.now.sub inc.startedAt := not_le.mpr short
          simp [early, level]
      · intro ev impossible
        contradiction
  | @update inc active present violating first large =>
      obtain ⟨other, same, keeps⟩ := remembers.active active
      cases present.symm.trans same
      constructor
      · rw [← keeps.triggers_iff i, ← keeps.emitted]
        exact iff_of_true ⟨_, rfl, rfl⟩ ⟨keeps.nonempty, ⟨violating, large⟩, by simp [first]⟩
      · intro ev updated _
        cases updated
        exact keeps.peaks i

theorem reports_at {rnd : ρ} {trace : Steps ρ} {final : StateMachine ρ}
    (run : Run (stepCall newULID) (StateMachine.new rnd) trace final) {k : Key}
    {front back : Steps ρ} {entry : Entry (StateMachine ρ) StepCall (Option AttackEvent)}
    (split : trace = front ++ entry :: back) (own : entry.action.key = k) :
    ((∃ ev, entry.output = some ev ∧ ev.state = .updated) ↔ since k back ≠ [] ∧
      Triggers (entry.action.input :: since k back) ∧ ¬ After Triggers (since k back)) ∧
    ∀ ev, entry.output = some ev → ev.state ≠ .started →
      ev.peakPps.toNat = peakPps (entry.action.input :: since k back) ∧
      ev.peakBps.toNat = peakBps (entry.action.input :: since k back) := by
  subst split own
  obtain ⟨past, next, stepped, -⟩ := run.cut
  exact reports_of_transition (StateMachine.step_cases stepped).1 (remembers_run past _)

theorem entry_of_suffix {k : Key} {back : Steps ρ} {i : Input} {earlier : List Input}
    (suffix : (i :: earlier) <:+ since k back) (later : earlier ≠ []) :
    ∃ front entry rest, back = front ++ entry :: rest ∧ entry.action.key = k ∧
      entry.action.input = i ∧ since k rest = earlier := by
  induction back with
  | nil => simp [since] at suffix
  | cons head tail ih =>
      have older (inside : (i :: earlier) <:+ since k tail) : ∃ front entry rest,
          head :: tail = front ++ entry :: rest ∧ entry.action.key = k ∧
          entry.action.input = i ∧ since k rest = earlier := by
        obtain ⟨front, entry, rest, split, found⟩ := ih inside
        exact ⟨head :: front, entry, rest, by rw [split]; rfl, found⟩
      have added (inside : (i :: earlier) <:+ further head.action.input (since k tail))
          (own : head.action.key = k) : ∃ front entry rest,
          head :: tail = front ++ entry :: rest ∧ entry.action.key = k ∧
          entry.action.input = i ∧ since k rest = earlier := by
        cases steps : since k tail with
        | nil =>
            rw [steps] at inside
            simp [further] at inside
        | cons latest before =>
            rw [steps, further] at inside
            rcases List.suffix_cons_iff.mp inside with same | deeper
            · simp only [List.cons.injEq] at same
              exact ⟨[], head, tail, rfl, own, same.1.symm, by rw [steps, same.2]⟩
            · rw [← steps] at deeper
              exact older deeper
      rw [since] at suffix
      split at suffix
      · next own =>
          split at suffix
          · have short := suffix.length_le
            simp only [List.length_cons, List.length_nil] at short
            exact absurd (List.eq_nil_of_length_eq_zero (by omega)) later
          · simp at suffix
          · exact added suffix own
      · exact older suffix

theorem first_violating {steps : List Input} (found : After Violates steps) :
    ∃ i earlier, (i :: earlier) <:+ steps ∧ earlier ≠ [] ∧ i.violating = true ∧
      ¬ After Violates earlier := by
  induction steps with
  | nil =>
      obtain ⟨i, earlier, suffix, -⟩ := found
      simp at suffix
  | cons i rest ih =>
      have later : rest ≠ [] := by
        rintro rfl
        exact not_after_singleton _ i found
      by_cases before : After Violates rest
      · obtain ⟨j, earlier, suffix, nonempty, first⟩ := ih before
        exact ⟨j, earlier, suffix.trans (List.suffix_cons ..), nonempty, first⟩
      · have violating := ((after_cons later).mp found).resolve_right before
        exact ⟨i, rest, List.suffix_refl _, later, violating, before⟩

/-- In an incident that starts small the wrapped test is the exact one, at every step. -/
theorem after_due_iff_of_small {steps : List Input} {first : Input}
    (last : steps.getLast? = some first) (small : ¬ Large first) :
    After Due steps ↔ After Triggers steps := by
  constructor
  · exact fun found => found.mono fun _ _ => triggers_of_due
  · intro found
    apply found.mono
    intro more suffix triggers
    cases more with
    | nil => exact triggers
    | cons i earlier =>
        exact due_of_triggers (getLast?_of_suffix last suffix (List.cons_ne_nil _ _)) small triggers

theorem violates_of_due {steps : List Input} (due : Due steps) : Violates steps :=
  violates_of_triggers (triggers_of_due due)

/-- In an incident that starts large the first violating step of `LargeDue` decides. -/
theorem due_iff_of_large {k : Key} {trace front back : Steps ρ}
    {entry : Entry (StateMachine ρ) StepCall (Option AttackEvent)} {first : Input}
    (condition : LargeDue k trace) (split : trace = front ++ entry :: back)
    (own : entry.action.key = k) (last : (since k back).getLast? = some first)
    (large : Large first) :
    (Triggers (entry.action.input :: since k back) ∧ ¬ After Triggers (since k back)) ↔
      (Due (entry.action.input :: since k back) ∧ ¬ After Due (since k back)) := by
  by_cases before : After Violates (since k back)
  · have triggered : After Triggers (since k back) := by
      apply before.mono
      intro more suffix violates
      cases more with
      | nil => exact violates
      | cons i earlier =>
          exact triggers_of_large (getLast?_of_suffix last suffix (List.cons_ne_nil _ _)) large
            violates
    obtain ⟨i, earlier, suffix, later, violating, none⟩ := first_violating before
    obtain ⟨newer, older, rest, place, ownOlder, rfl, rfl⟩ := entry_of_suffix suffix later
    have whole : trace = (front ++ entry :: newer) ++ older :: rest := by
      rw [split, place]
      simp
    have lastOlder : (since k rest).getLast? = some first :=
      getLast?_of_suffix last ((List.suffix_cons ..).trans suffix) later
    have due := condition _ older rest first whole ownOlder lastOlder large violating none
    have found : After Due (since k back) := ⟨_, _, suffix, later, due⟩
    simp [triggered, found]
  · have calm : ¬ After Triggers (since k back) := fun found =>
      before (found.mono fun _ _ => violates_of_triggers)
    have calmDue : ¬ After Due (since k back) := fun found =>
      before (found.mono fun _ _ => violates_of_due)
    simp only [calm, calmDue, not_false_eq_true, and_true]
    constructor
    · intro triggers
      exact condition front entry back first split own last large triggers.1 before
    · exact triggers_of_due

/-- The update rule holds of a key's incidents, exactly when those that start at 2^63 or more are
due at their first violating step: the doubling of the others does not wrap. -/
theorem update_rule_iff {rnd : ρ} {trace : Steps ρ} {final : StateMachine ρ}
    (run : Run (stepCall newULID) (StateMachine.new rnd) trace final) (k : Key) :
    UpdateRule k trace ↔ LargeDue k trace := by
  constructor
  · intro rule front entry back first split own last large violating none
    have nonempty : since k back ≠ [] := by
      intro empty
      rw [empty] at last
      contradiction
    have triggers : Triggers (entry.action.input :: since k back) :=
      triggers_of_large (getLast?_further last _) large violating
    have calm : ¬ After Triggers (since k back) := fun found =>
      none (found.mono fun _ _ => violates_of_triggers)
    have updated := (reports_at run split own).1.mpr ⟨nonempty, triggers, calm⟩
    exact ((rule.updated front entry back split own).mp updated).2.1
  · intro condition
    constructor
    · intro front entry back split own
      rw [(reports_at run split own).1]
      refine and_congr_right fun nonempty => ?_
      obtain ⟨first, last⟩ := Option.ne_none_iff_exists'.mp
        (mt List.getLast?_eq_none_iff.mp nonempty)
      by_cases large : Large first
      · exact due_iff_of_large condition split own last large
      · rw [after_due_iff_of_small last large]
        exact and_congr_left fun _ =>
          ⟨due_of_triggers (getLast?_further last _) large, triggers_of_due⟩
    · intro front back split
      cases back with
      | nil => exact Nat.zero_le 1
      | cons entry rest =>
          subst split
          obtain ⟨-, next, -, upTo⟩ := run.cut
          exact (remembers_run upTo k).once
    · intro front entry back ev split own returned later
      exact (reports_at run split own).2 ev returned later

theorem mem_since {k : Key} {trace : Steps ρ} {i : Input} (member : i ∈ since k trace) :
    ∃ entry ∈ trace, entry.action.input = i := by
  induction trace with
  | nil => simp [since] at member
  | cons head tail ih =>
      have older (inside : i ∈ since k tail) :
          ∃ entry ∈ head :: tail, entry.action.input = i := by
        obtain ⟨entry, listed, same⟩ := ih inside
        exact ⟨entry, List.mem_cons_of_mem _ listed, same⟩
      have added (inside : i ∈ further head.action.input (since k tail)) :
          ∃ entry ∈ head :: tail, entry.action.input = i := by
        cases steps : since k tail with
        | nil =>
            rw [steps] at inside
            contradiction
        | cons latest before =>
            rw [steps, further, ← steps] at inside
            rcases List.mem_cons.mp inside with same | inside
            · exact ⟨head, List.mem_cons_self, same.symm⟩
            · exact older inside
      rw [since] at member
      split at member
      · split at member
        · exact ⟨head, List.mem_cons_self, (List.mem_singleton.mp member).symm⟩
        · contradiction
        · exact added member
      · exact older member

theorem largeDue_of_small {trace : Steps ρ} (k : Key)
    (small : ∀ entry ∈ trace, ¬ Large entry.action.input) : LargeDue k trace := by
  intro front entry back first split _ last large
  obtain ⟨started, listed, rfl⟩ := mem_since (List.mem_of_getLast? last)
  subst split
  exact absurd large (small started (by simp [listed]))

def sampleStep (now : Int) (pps : UInt64) (violating : Bool) : StepCall where
  key := sampleKey
  input := { sampleInput now violating with currentPps := pps }
  threshold := sampleThreshold 1 1 1 2

theorem update_rule_sample : ∃ (trace : Steps Nat) (final : StateMachine Nat),
    Run (stepCall countingULID) (StateMachine.new 0) trace final ∧
    trace.map (fun entry => entry.output.map fun ev => (ev.state, ev.peakPps)) =
      [some (.ended, 21), none, some (.updated, 21), none, some (.started, 10)] ∧
    UpdateRule sampleKey trace := by
  have executed : (Run.replay (stepCall countingULID) [] (StateMachine.new 0)
      [sampleStep 100 10 true, sampleStep 101 21 false, sampleStep 102 5 true,
        sampleStep 103 5 false, sampleStep 104 5 false]).map (fun made =>
        (made.1.map (fun entry => entry.output.map fun ev => (ev.state, ev.peakPps)),
          made.1.all fun entry => entry.action.input.currentPps < 2 ^ 63 &&
            entry.action.input.currentBps < 2 ^ 63)) =
      some ([some (.ended, 21), none, some (.updated, 21), none, some (.started, 10)], true) := by
    decide +kernel
  obtain ⟨⟨trace, final⟩, replayed, seen⟩ := Option.map_eq_some_iff.mp executed
  simp only [Prod.mk.injEq, List.all_eq_true, Bool.and_eq_true, decide_eq_true_eq] at seen
  have run := Run.of_replay .start replayed
  refine ⟨trace, final, run, seen.1, (update_rule_iff run sampleKey).mpr ?_⟩
  apply largeDue_of_small
  intro entry listed large
  have bound : (2 ^ 63 : UInt64).toNat = 2 ^ 63 := by decide +kernel
  obtain ⟨packets, bytes⟩ := seen.2 entry listed
  rw [UInt64.lt_iff_toNat_lt, bound] at packets bytes
  rcases large with large | large
  · exact absurd large (not_le.mpr packets)
  · exact absurd large (not_le.mpr bytes)

/-- An incident that starts at 2^63 packets reports an update one second later, its peak unchanged:
twice 2^63 is zero. -/
theorem update_without_doubling : ∃ (trace : Steps Nat) (final : StateMachine Nat),
    Run (stepCall countingULID) (StateMachine.new 0) trace final ∧
    trace.map (fun entry => entry.output.map fun ev => (ev.state, ev.peakPps)) =
      [some (.updated, 2 ^ 63), some (.started, 2 ^ 63)] ∧
    ¬ UpdateRule sampleKey trace := by
  have executed : (Run.replay (stepCall countingULID) [] (StateMachine.new 0)
      [sampleStep 100 (2 ^ 63) true, sampleStep 101 (2 ^ 63) true]).map (fun made =>
        made.1.map (fun entry => entry.output.map fun ev => (ev.state, ev.peakPps))) =
      some [some (.updated, 2 ^ 63), some (.started, 2 ^ 63)] := by decide +kernel
  obtain ⟨⟨trace, final⟩, replayed, seen⟩ := Option.map_eq_some_iff.mp executed
  have called : trace.map Entry.action =
      [sampleStep 101 (2 ^ 63) true, sampleStep 100 (2 ^ 63) true] :=
    Run.actions_of_replay replayed
  refine ⟨trace, final, Run.of_replay .start replayed, seen, ?_⟩
  intro rule
  obtain ⟨later, rest, rfl, now, restCalled⟩ := List.map_eq_cons_iff.mp called
  obtain ⟨first, rest, rfl, started, empty⟩ := List.map_eq_cons_iff.mp restCalled
  cases List.map_eq_nil_iff.mp empty
  simp only [List.map_cons, List.map_nil, List.cons.injEq, Option.map_eq_some_iff,
    Prod.mk.injEq, and_true] at seen
  obtain ⟨⟨ev, reported, updated, -⟩, opening, opened, starts, -⟩ := seen
  have own : later.action.key = sampleKey := by rw [now]; rfl
  have steps : since sampleKey [first] = [first.action.input] := by
    have same : first.action.key = sampleKey := by rw [started]; rfl
    simp [since, same, opened, starts]
  obtain ⟨-, due, -⟩ := (rule.updated [] later [first] rfl own).mp ⟨ev, reported, updated⟩
  rw [steps, now, started] at due
  obtain ⟨-, start, last, reason⟩ := due
  cases last
  revert reason
  decide +kernel

end Mitigador.Detect
