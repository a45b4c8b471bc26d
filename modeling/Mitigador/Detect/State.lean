import Mathlib.Logic.Function.Basic
import Mitigador.Detect.Thresholds

/-! The incident state machine (internal/detect/state.go). The ULID package and its entropy
source are a parameter: an identifier and the source that is left. -/

namespace Mitigador.Detect

open Go

def cooldownAfterEnd : Duration := 60 * second
def updateAfterDuration : Duration := 5 * minute

structure Key where
  hostIP : Addr
  vector : Vector
  deriving DecidableEq, Repr

structure Input where
  now : Time
  currentPps : UInt64
  currentBps : UInt64
  avgPpsLastWindow : UInt64
  avgBpsLastWindow : UInt64
  violating : Bool
  durationViolated : Int
  hostgroup : String
  confidence : Float

inductive MachineState
  | idle
  | active
  | cooldown
  deriving DecidableEq, Repr

structure Incident where
  id : String
  startedAt : Time
  initialPeakPps : UInt64
  initialPeakBps : UInt64
  peakPps : UInt64
  peakBps : UInt64
  updateEmitted : Bool
  noViolationTicks : Nat
  deriving DecidableEq, Repr

structure MachineEntry where
  state : MachineState
  inc : Option Incident
  cooldownUntil : Time
  deriving DecidableEq, Repr

def newEntry : MachineEntry := ⟨.idle, none, Time.zero⟩

def graceTicks (t : Threshold) : Int := if t.graceSec ≤ 0 then 60 else t.graceSec

theorem graceTicks_pos (t : Threshold) : 0 < graceTicks t := by
  unfold graceTicks
  split <;> omega

def Incident.opened (id : String) (i : Input) : Incident where
  id := id
  startedAt := i.now
  initialPeakPps := i.currentPps
  initialPeakBps := i.currentBps
  peakPps := i.currentPps
  peakBps := i.currentBps
  updateEmitted := false
  noViolationTicks := 0

def Incident.observe (inc : Incident) (i : Input) : Incident :=
  { inc with
    peakPps := if i.currentPps > inc.peakPps then i.currentPps else inc.peakPps
    peakBps := if i.currentBps > inc.peakBps then i.currentBps else inc.peakBps }

def Incident.peakDoubled (inc : Incident) : Bool :=
  inc.peakPps > 2 * inc.initialPeakPps || inc.peakBps > 2 * inc.initialPeakBps

def Incident.event (inc : Incident) (k : Key) (i : Input) (state : State) : AttackEvent where
  incidentID := inc.id
  state := state
  hostIP := k.hostIP
  vector := k.vector
  hostgroup := i.hostgroup
  pps := i.currentPps
  bps := i.currentBps
  peakPps := inc.peakPps
  peakBps := inc.peakBps
  confidence := i.confidence
  startedAt := inc.startedAt
  endedAt := if state = .ended then i.now else Time.zero
  now := i.now

variable {ρ : Type*} (newULID : ρ → Time → String × ρ)

/-- `Step` on the entry of its key; `none` is a nil dereference. -/
def MachineEntry.step (rnd : ρ) (e : MachineEntry) (k : Key) (i : Input) (t : Threshold) :
    Option (MachineEntry × ρ × Option AttackEvent) :=
  match e.state with
  | .idle =>
      if !i.violating then some (e, rnd, none)
      else if i.durationViolated < t.minWindowSec then some (e, rnd, none)
      else
        let (id, rnd) := newULID rnd i.now
        let inc := Incident.opened id i
        some ({ e with state := .active, inc := some inc }, rnd, some (inc.event k i .started))
  | .active =>
      match e.inc with
      | none => none
      | some inc =>
          let inc := inc.observe i
          if !i.violating then
            let inc := { inc with noViolationTicks := inc.noViolationTicks + 1 }
            if inc.noViolationTicks ≥ graceTicks t then
              some (⟨.cooldown, none, i.now.add cooldownAfterEnd⟩, rnd,
                some (inc.event k i .ended))
            else some ({ e with inc := some inc }, rnd, none)
          else
            let inc := { inc with noViolationTicks := 0 }
            if !inc.updateEmitted &&
                (decide (i.now.sub inc.startedAt ≥ updateAfterDuration) || inc.peakDoubled) then
              let inc := { inc with updateEmitted := true }
              some ({ e with inc := some inc }, rnd, some (inc.event k i .updated))
            else some ({ e with inc := some inc }, rnd, none)
  | .cooldown =>
      if i.now.after e.cooldownUntil then some ({ e with state := .idle }, rnd, none)
      else some (e, rnd, none)

/-- Everything that a step can do to an entry, with the conditions under which it does it. -/
inductive Transition (rnd : ρ) (k : Key) (i : Input) (t : Threshold) :
    MachineEntry → MachineEntry → ρ → Option AttackEvent → Prop
  | wait {e} (idle : e.state = .idle)
      (early : i.violating = true → i.durationViolated < t.minWindowSec) :
      Transition rnd k i t e e rnd none
  | start {e} (idle : e.state = .idle) (violating : i.violating = true)
      (long : t.minWindowSec ≤ i.durationViolated) :
      Transition rnd k i t e
        { e with state := .active, inc := some (Incident.opened (newULID rnd i.now).1 i) }
        (newULID rnd i.now).2
        (some ((Incident.opened (newULID rnd i.now).1 i).event k i .started))
  | ease {e inc} (active : e.state = .active) (present : e.inc = some inc)
      (quiet : i.violating = false) (short : (inc.noViolationTicks : Int) + 1 < graceTicks t) :
      Transition rnd k i t e
        { e with inc := some { inc.observe i with noViolationTicks := inc.noViolationTicks + 1 } }
        rnd none
  | finish {e inc} (active : e.state = .active) (present : e.inc = some inc)
      (quiet : i.violating = false) (long : graceTicks t ≤ (inc.noViolationTicks : Int) + 1) :
      Transition rnd k i t e ⟨.cooldown, none, i.now.add cooldownAfterEnd⟩ rnd
        (some ((inc.observe i).event k i .ended))
  | hold {e inc} (active : e.state = .active) (present : e.inc = some inc)
      (violating : i.violating = true)
      (small : inc.updateEmitted = true ∨
        i.now.sub inc.startedAt < updateAfterDuration ∧ (inc.observe i).peakDoubled = false) :
      Transition rnd k i t e { e with inc := some { inc.observe i with noViolationTicks := 0 } }
        rnd none
  | update {e inc} (active : e.state = .active) (present : e.inc = some inc)
      (violating : i.violating = true) (first : inc.updateEmitted = false)
      (large : updateAfterDuration ≤ i.now.sub inc.startedAt ∨
        (inc.observe i).peakDoubled = true) :
      Transition rnd k i t e
        { e with inc := some { inc.observe i with noViolationTicks := 0, updateEmitted := true } }
        rnd (some ((inc.observe i).event k i .updated))
  | cool {e} (cooldown : e.state = .cooldown) (early : i.now.after e.cooldownUntil = false) :
      Transition rnd k i t e e rnd none
  | thaw {e} (cooldown : e.state = .cooldown) (late : i.now.after e.cooldownUntil = true) :
      Transition rnd k i t e { e with state := .idle } rnd none

/-- No nil dereference is ahead: an active entry has its incident. -/
def MachineEntry.Sound (e : MachineEntry) : Prop := e.state = .active → e.inc.isSome

variable {newULID}

theorem transition_of_step {rnd next : ρ} {e after : MachineEntry} {k : Key} {i : Input}
    {t : Threshold} {output : Option AttackEvent}
    (stepped : e.step newULID rnd k i t = some (after, next, output)) :
    Transition newULID rnd k i t e after next output := by
  unfold MachineEntry.step at stepped
  split at stepped
  · next idle =>
      split at stepped
      · next calm =>
          cases stepped
          exact .wait idle (by simp_all)
      · next violating =>
          split at stepped
          · next early =>
              cases stepped
              exact .wait idle fun _ => early
          · next long =>
              cases stepped
              exact .start idle (by simpa using violating) (not_lt.mp long)
  · next active =>
      split at stepped
      · contradiction
      · next inc present =>
          dsimp only at stepped
          split at stepped
          · next quiet =>
              have quiet : i.violating = false := by simpa using quiet
              split at stepped
              · next long =>
                  cases stepped
                  exact .finish active present quiet (by simpa [Incident.observe] using long)
              · next short =>
                  cases stepped
                  exact .ease active present quiet (by simpa [Incident.observe] using short)
          · next violating =>
              have violating : i.violating = true := by simpa using violating
              split at stepped
              · next large =>
                  cases stepped
                  simp only [Bool.and_eq_true, Bool.not_eq_true', Bool.or_eq_true,
                    decide_eq_true_eq] at large
                  exact .update active present violating large.1 large.2
              · next small =>
                  cases stepped
                  apply Transition.hold active present violating
                  cases emitted : inc.updateEmitted with
                  | true => exact Or.inl rfl
                  | false =>
                      right
                      have known : (inc.observe i).updateEmitted = false := emitted
                      simp only [known, Bool.not_false, Bool.true_and, Bool.or_eq_true,
                        decide_eq_true_eq, not_or, ge_iff_le, not_le, Bool.not_eq_true] at small
                      exact small
  · next cooldown =>
      split at stepped
      · next late =>
          cases stepped
          exact .thaw cooldown late
      · next early =>
          cases stepped
          exact .cool cooldown (by simpa using early)

theorem step_total {rnd : ρ} {e : MachineEntry} (sound : e.Sound) (k : Key) (i : Input)
    (t : Threshold) : ∃ result, e.step newULID rnd k i t = some result := by
  unfold MachineEntry.step
  split
  · split
    · exact ⟨_, rfl⟩
    · split <;> exact ⟨_, rfl⟩
  · next active =>
      obtain ⟨inc, present⟩ := Option.isSome_iff_exists.mp (sound active)
      rw [present]
      dsimp only
      split
      · split <;> exact ⟨_, rfl⟩
      · split <;> exact ⟨_, rfl⟩
  · split <;> exact ⟨_, rfl⟩

theorem started_iff {k : Key} {t : Threshold} {e next : MachineEntry} {rnd rest : ρ} {i : Input}
    {output : Option AttackEvent} (moved : Transition newULID rnd k i t e next rest output) :
    (∃ ev, output = some ev ∧ ev.state = .started) ↔
      e.state = .idle ∧ i.violating = true ∧ t.minWindowSec ≤ i.durationViolated := by
  cases moved with
  | wait idle early =>
      refine ⟨fun ⟨_, impossible, _⟩ => by contradiction, ?_⟩
      intro ⟨_, violating, long⟩
      exact absurd long (not_le.mpr (early violating))
  | start idle violating long => exact ⟨fun _ => ⟨idle, violating, long⟩, fun _ => ⟨_, rfl, rfl⟩⟩
  | ease active | finish active | hold active | update active =>
      simp [active, Incident.event]
  | cool cooldown | thaw cooldown => simp [cooldown]

structure StateMachine (ρ : Type*) where
  m : Key → Option MachineEntry
  rnd : ρ

namespace StateMachine

def new (rnd : ρ) : StateMachine ρ := ⟨fun _ => none, rnd⟩

def entry (sm : StateMachine ρ) (k : Key) : MachineEntry := (sm.m k).getD newEntry

variable (newULID)

/-- `StateMachine.Step`. The mutex makes each call atomic. -/
def step (sm : StateMachine ρ) (k : Key) (i : Input) (t : Threshold) :
    Option (StateMachine ρ × Option AttackEvent) :=
  match (sm.entry k).step newULID sm.rnd k i t with
  | none => none
  | some (e, rnd, output) => some (⟨Function.update sm.m k (some e), rnd⟩, output)

variable {newULID}

theorem step_cases {sm next : StateMachine ρ} {k : Key} {i : Input} {t : Threshold}
    {output : Option AttackEvent} (stepped : sm.step newULID k i t = some (next, output)) :
    Transition newULID sm.rnd k i t (sm.entry k) (next.entry k) next.rnd output ∧
      ∀ other, other ≠ k → next.m other = sm.m other := by
  unfold step at stepped
  split at stepped
  · contradiction
  · next e rnd result moved =>
      cases stepped
      refine ⟨?_, fun other different => Function.update_of_ne different _ _⟩
      simpa [entry] using transition_of_step moved

theorem step_total (newULID : ρ → Time → String × ρ) {sm : StateMachine ρ} {k : Key}
    (sound : (sm.entry k).Sound) (i : Input) (t : Threshold) :
    ∃ result, sm.step newULID k i t = some result := by
  have moves : ∃ result, (sm.entry k).step newULID sm.rnd k i t = some result :=
    Detect.step_total sound k i t
  obtain ⟨⟨e, rnd, output⟩, moved⟩ := moves
  exact ⟨_, by rw [step, moved]⟩

end StateMachine

def countingULID (count : Nat) (_ : Time) : String × Nat := (toString count, count + 1)

def sampleKey : Key := ⟨.v4 0xc0000201, .udpFlood⟩

def sampleThreshold (pps bps : UInt64) (minWindowSec graceSec : Int) : Threshold where
  hostgroupID := 1
  hostgroupName := "corporate"
  cidr := .v4 0xc0000200 ⟨24, by decide⟩
  vector := .udpFlood
  pps := pps
  bps := bps
  minWindowSec := minWindowSec
  graceSec := graceSec

end Mitigador.Detect
