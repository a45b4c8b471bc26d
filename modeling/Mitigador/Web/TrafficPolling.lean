import Mathlib.Data.List.Nodup
import Mathlib.Data.List.Perm.Basic
import Mitigador.Web.TrafficView

/-! The intervals of the top talkers' page: which are set, and when a page that is hidden or left
still polls. -/

namespace Mitigador.Web

open Lib

def TrafficView.interval (v : TrafficView) : Callback → Option Nat
  | .loadTop20 => v.topInterval
  | .loadHost => v.hostInterval

namespace Tab

variable {t next : Tab} {action : TabAction} {seen : TabSeen} {trace : TabTrace}

def polling (t : Tab) : Phase × Bool × Option Nat × Option Nat × List (Nat × Callback) × Nat :=
  (t.phase, t.visible, t.view.topInterval, t.view.hostInterval, t.timers, t.nextTimer)

structure Kept (t : Tab) : Prop where
  set : ∀ id callback, (id, callback) ∈ t.timers ↔ t.view.interval callback = some id
  fresh : ∀ timer ∈ t.timers, timer.1 < t.nextTimer
  nodup : (t.timers.map Prod.fst).Nodup

theorem Kept.congr (kept : Kept t) (same : next.polling = t.polling) : Kept next := by
  simp only [polling, Prod.mk.injEq] at same
  obtain ⟨-, -, top, host, timers, ids⟩ := same
  refine ⟨fun id callback => ?_, ?_, timers ▸ kept.nodup⟩
  · rw [timers, kept.set]
    cases callback with
    | loadTop20 => simp only [TrafficView.interval, top]
    | loadHost => simp only [TrafficView.interval, host]
  · rw [timers, ids]
    exact kept.fresh

theorem kept_created (visible : Bool) : Kept (created visible) := by
  refine ⟨fun id callback => ?_, ?_, .nil⟩
  · cases callback <;> simp [created, TrafficView.interval]
  · simp [created]

theorem Kept.setInterval (kept : Kept t) (callback : Callback) {view : TrafficView}
    (unset : t.view.interval callback = none)
    (named : view.interval callback = some t.nextTimer)
    (others : ∀ other, other ≠ callback → view.interval other = t.view.interval other) :
    Kept { t.setInterval callback with view := view } where
  set := by
    intro id other
    have before := kept.set id other
    have added : (id, other) ∈ (t.setInterval callback).timers ↔
        (id, other) ∈ t.timers ∨ id = t.nextTimer ∧ other = callback := by
      simp [Tab.setInterval]
    rw [added, before]
    by_cases same : other = callback
    · subst same
      simp [unset, named, eq_comm]
    · simp [others other same, same]
  fresh := by
    intro timer there
    rcases List.mem_append.mp there with earlier | new
    · exact Nat.lt_succ_of_lt (kept.fresh timer earlier)
    · cases List.mem_singleton.mp new
      exact Nat.lt_succ_self _
  nodup := by
    simp only [Tab.setInterval, List.map_append, List.map_cons, List.map_nil]
    refine kept.nodup.append (List.nodup_singleton _) fun id earlier new => ?_
    obtain ⟨timer, there, rfl⟩ := List.mem_map.mp earlier
    have below := kept.fresh timer there
    rw [List.mem_singleton.mp new] at below
    exact Nat.lt_irrefl _ below

theorem Kept.clearInterval (kept : Kept t) (callback : Callback) {view : TrafficView} {id : Nat}
    (named : t.view.interval callback = some id) (unset : view.interval callback = none)
    (others : ∀ other, other ≠ callback → view.interval other = t.view.interval other) :
    Kept { t.clearInterval id with view := view } where
  set := by
    intro other kind
    have left : (other, kind) ∈ (t.clearInterval id).timers ↔
        (other, kind) ∈ t.timers ∧ other ≠ id := by
      simp [Tab.clearInterval]
    rw [left, kept.set]
    by_cases same : kind = callback
    · subst same
      simp [unset, named, eq_comm]
    · rw [others kind same]
      refine and_iff_left_of_imp fun set equal => same ?_
      have first : (other, kind) ∈ t.timers := (kept.set other kind).mpr set
      have second : (other, callback) ∈ t.timers := (kept.set other callback).mpr (equal ▸ named)
      exact congrArg Prod.snd (List.inj_on_of_nodup_map kept.nodup first second rfl)
  fresh := fun timer there => kept.fresh timer (List.mem_of_mem_filter there)
  nodup := kept.nodup.sublist (List.filter_sublist.map Prod.fst)

theorem Kept.startTopPolling (kept : Kept t) : Kept t.startTopPolling := by
  unfold Tab.startTopPolling
  split
  · exact kept
  · next unset =>
      refine kept.setInterval .loadTop20 unset rfl fun other different => ?_
      cases other <;> trivial

theorem Kept.stopTopPolling (kept : Kept t) : Kept t.stopTopPolling := by
  unfold Tab.stopTopPolling
  split
  · exact kept
  · next id named =>
      refine kept.clearInterval .loadTop20 named rfl fun other different => ?_
      cases other <;> trivial

theorem Kept.startHostPolling (kept : Kept t) : Kept t.startHostPolling := by
  unfold Tab.startHostPolling
  split
  · next unset host =>
      refine kept.setInterval .loadHost unset rfl fun other different => ?_
      cases other <;> trivial
  · exact kept

theorem Kept.stopHostPolling (kept : Kept t) : Kept t.stopHostPolling := by
  unfold Tab.stopHostPolling
  split
  · exact kept
  · next id named =>
      refine kept.clearInterval .loadHost named rfl fun other different => ?_
      cases other <;> trivial

@[simp] theorem phase_startTopPolling (t : Tab) : t.startTopPolling.phase = t.phase := by
  unfold startTopPolling
  split <;> rfl

@[simp] theorem phase_startHostPolling (t : Tab) : t.startHostPolling.phase = t.phase := by
  unfold startHostPolling
  split <;> rfl

@[simp] theorem phase_stopTopPolling (t : Tab) : t.stopTopPolling.phase = t.phase := by
  unfold stopTopPolling
  split <;> rfl

@[simp] theorem phase_stopHostPolling (t : Tab) : t.stopHostPolling.phase = t.phase := by
  unfold stopHostPolling
  split <;> rfl

@[simp] theorem visible_startTopPolling (t : Tab) : t.startTopPolling.visible = t.visible := by
  unfold startTopPolling
  split <;> rfl

@[simp] theorem visible_startHostPolling (t : Tab) : t.startHostPolling.visible = t.visible := by
  unfold startHostPolling
  split <;> rfl

@[simp] theorem visible_stopHostPolling (t : Tab) : t.stopHostPolling.visible = t.visible := by
  unfold stopHostPolling
  split <;> rfl

theorem topInterval_startTopPolling (t : Tab) :
    t.startTopPolling.view.topInterval ≠ none := by
  unfold startTopPolling
  split
  · next id set => simp [set]
  · simp

@[simp] theorem hostInterval_startTopPolling (t : Tab) :
    t.startTopPolling.view.hostInterval = t.view.hostInterval := by
  unfold startTopPolling
  split <;> rfl

@[simp] theorem topInterval_stopTopPolling (t : Tab) :
    t.stopTopPolling.view.topInterval = none := by
  unfold stopTopPolling
  split
  · assumption
  · rfl

@[simp] theorem topInterval_stopHostPolling (t : Tab) :
    t.stopHostPolling.view.topInterval = t.view.topInterval := by
  unfold stopHostPolling
  split <;> rfl

@[simp] theorem hostInterval_stopHostPolling (t : Tab) :
    t.stopHostPolling.view.hostInterval = none := by
  unfold stopHostPolling
  split
  · assumption
  · rfl

def Awake (t : Tab) : Prop := t.phase = .mounted ∧ t.visible = true

def Resting (t : Tab) : Prop := t.phase ≠ .created ∧ ¬ t.Awake

/-- The answer that `onMounted` waits for. -/
def FirstAnswer (t : Tab) : TabAction → Prop
  | .top20 n _ => t.requests[n]? = some (.top20 true)
  | _ => False

/-- The events on which both intervals are stopped. -/
def Stops (t : Tab) : TabAction → Prop
  | .hidden => t.phase = .mounted
  | .unmount => True
  | _ => False

/-- The first load was answered, and nothing stopped the intervals since. -/
def Resumed : TabTrace → Prop
  | [] => False
  | entry :: back => FirstAnswer entry.before entry.action ∨
      ¬ Stops entry.before entry.action ∧ Resumed back

inductive PollingStep (t : Tab) : TabAction → Tab → Prop
  | mounted (created : t.phase = .created) :
      PollingStep t .mount ({ t with phase := .mounted }.loadTop20 true)
  | shown (mounted : t.phase = .mounted) :
      PollingStep t .shown { t with visible := true }.onVisibilityChange
  | hidden (mounted : t.phase = .mounted) :
      PollingStep t .hidden { t with visible := false }.stopTopPolling.stopHostPolling
  | turned {action : TabAction} (visible : Bool) (away : t.phase ≠ .mounted)
      (turn : action = .shown ∨ action = .hidden) :
      PollingStep t action { t with visible := visible }
  | opened (row : TopTalker) (awake : t.Awake) : PollingStep t (.openDrawer row) (t.openDrawer row)
  | closed (awake : t.Awake) : PollingStep t .closeDrawer t.closeDrawer
  | resumed {n : Nat} (answer : Option (List TopTalker))
      (first : t.requests[n]? = some (.top20 true)) :
      PollingStep t (.top20 n answer)
        ({ t with requests := t.requests.eraseIdx n }.gotTop20 answer).startTopPolling
  | unmounted : PollingStep t .unmount
      { t with phase := .unmounted }.stopTopPolling.stopHostPolling
  | still {action : TabAction} {next : Tab} (same : next.polling = t.polling)
      (first : ¬ FirstAnswer t action) (going : ¬ Stops t action)
      (asked : .top20 true ∈ next.requests → .top20 true ∈ t.requests) : PollingStep t action next

theorem polling_gotHost (answer : Except (Option Nat) HostTraffic) (t : Tab) :
    (t.gotHost answer).polling = t.polling := by
  cases answer <;> rfl

theorem polling_gotTop20 (answer : Option (List TopTalker)) (t : Tab) :
    (t.gotTop20 answer).polling = t.polling := by
  cases answer <;> rfl

theorem polling_retryHost (t : Tab) : t.retryHost.polling = t.polling ∧
    (.top20 true ∈ t.retryHost.requests → .top20 true ∈ t.requests) := by
  unfold retryHost
  split
  · exact ⟨rfl, by simp [loadHost]⟩
  · exact ⟨rfl, id⟩

theorem polling_cases (moved : t.step action = some (next, seen)) :
    PollingStep t action next := by
  cases action with
  | mount =>
      simp only [step] at moved
      split at moved
      · next created =>
          cases moved
          exact .mounted created
      · contradiction
  | shown =>
      simp only [step] at moved
      split at moved
      · contradiction
      · split at moved
        · next mounted =>
            cases moved
            exact .shown mounted
        · next away =>
            cases moved
            exact .turned true away (.inl rfl)
  | hidden =>
      simp only [step] at moved
      split at moved
      · split at moved
        · next mounted =>
            cases moved
            exact .hidden mounted
        · next away =>
            cases moved
            exact .turned false away (.inr rfl)
      · contradiction
  | openDrawer row =>
      simp only [step] at moved
      split at moved
      · next guard =>
          cases moved
          exact .opened row ⟨guard.1, guard.2.1⟩
      · contradiction
  | closeDrawer =>
      simp only [step] at moved
      split at moved
      · next guard =>
          cases moved
          exact .closed ⟨guard.1, guard.2.1⟩
      · contradiction
  | dismissed =>
      simp only [step] at moved
      split at moved
      · cases moved
        exact .still rfl id id id
      · contradiction
  | retryTop =>
      simp only [step] at moved
      split at moved
      · cases moved
        exact .still rfl id id (by simp [loadTop20])
      · contradiction
  | retryHost =>
      simp only [step] at moved
      split at moved
      · cases moved
        exact .still (polling_retryHost t).1 id id (polling_retryHost t).2
      · contradiction
  | fire timer =>
      simp only [step] at moved
      split at moved
      · contradiction
      · cases moved
        exact .still rfl id id (by simp [loadTop20])
      · cases moved
        exact .still (polling_retryHost t).1 id id (polling_retryHost t).2
  | top20 n answer =>
      simp only [step] at moved
      split at moved
      · next awaited there =>
          cases moved
          cases awaited with
          | true => exact .resumed answer there
          | false =>
              refine .still (polling_gotTop20 answer _) ?_ id ?_
              · simp [FirstAnswer, there]
              · rw [if_neg Bool.false_ne_true, requests_gotTop20]
                exact List.mem_of_mem_eraseIdx
      · contradiction
  | host n answer =>
      simp only [step] at moved
      split at moved
      · next ip there =>
          cases moved
          refine .still (polling_gotHost answer _) id id ?_
          rw [requests_gotHost]
          exact List.mem_of_mem_eraseIdx
      · contradiction
  | unmount =>
      simp only [step] at moved
      split at moved
      · cases moved
        exact .unmounted
      · contradiction

theorem Kept.onVisibilityChange (kept : Kept t) : Kept t.onVisibilityChange := by
  unfold Tab.onVisibilityChange
  split
  · have asked : Kept (t.loadTop20 false) := kept.congr rfl
    have top := asked.startTopPolling
    dsimp only
    split
    · next ip opened host =>
        have refreshed : Kept ((t.loadTop20 false).startTopPolling.loadHost ip) := top.congr rfl
        exact refreshed.startHostPolling
    · exact top
  · exact kept.stopTopPolling.stopHostPolling

theorem Kept.step (kept : Kept t) (moved : t.step action = some (next, seen)) : Kept next := by
  cases polling_cases moved with
  | mounted => exact ⟨kept.set, kept.fresh, kept.nodup⟩
  | shown => exact Kept.onVisibilityChange ⟨kept.set, kept.fresh, kept.nodup⟩
  | hidden =>
      have same : Kept { t with visible := false } := ⟨kept.set, kept.fresh, kept.nodup⟩
      exact same.stopTopPolling.stopHostPolling
  | turned => exact ⟨kept.set, kept.fresh, kept.nodup⟩
  | opened row =>
      unfold openDrawer
      exact Kept.startHostPolling (kept.congr rfl)
  | closed =>
      unfold closeDrawer
      exact Kept.stopHostPolling (kept.congr rfl)
  | resumed answer =>
      exact Kept.startTopPolling (kept.congr (polling_gotTop20 answer _))
  | unmounted =>
      have same : Kept { t with phase := .unmounted } := ⟨kept.set, kept.fresh, kept.nodup⟩
      exact same.stopTopPolling.stopHostPolling
  | still same => exact kept.congr same

structure Rests (trace : TabTrace) (t : Tab) : Prop where
  created : t.phase = .created →
    t.view.topInterval = none ∧ ¬ Resumed trace ∧ .top20 true ∉ t.requests
  host : ¬ t.Awake → t.view.hostInterval = none
  top : t.Resting → (t.view.topInterval ≠ none ↔ Resumed trace)

theorem Rests.of_awake (awake : t.Awake) : Rests trace t where
  created := fun created => absurd (awake.1.symm.trans created) (by decide)
  host := fun asleep => absurd awake asleep
  top := fun resting => absurd awake resting.2

theorem Rests.stopped {entry : Entry Tab TabAction TabSeen} (begun : t.phase ≠ .created)
    (top : t.view.topInterval = none) (host : t.view.hostInterval = none)
    (stops : Stops entry.before entry.action) (last : ¬ FirstAnswer entry.before entry.action) :
    Rests (entry :: trace) t where
  created := fun created => absurd created begun
  host := fun _ => host
  top := by
    intro _
    simp [Resumed, stops, last, top]

theorem Rests.still {entry : Entry Tab TabAction TabSeen} (rests : Rests trace t)
    (phase : next.phase = t.phase) (awake : next.Awake ↔ t.Awake)
    (top : next.view.topInterval = t.view.topInterval)
    (host : next.view.hostInterval = t.view.hostInterval)
    (first : ¬ FirstAnswer entry.before entry.action) (going : ¬ Stops entry.before entry.action)
    (asked : .top20 true ∈ next.requests → .top20 true ∈ t.requests) :
    Rests (entry :: trace) next := by
  have later : Resumed (entry :: trace) ↔ Resumed trace := by
    simp [Resumed, first, going]
  refine ⟨fun created => ?_, fun asleep => ?_, fun resting => ?_⟩
  · have before := rests.created (phase ▸ created)
    exact ⟨top ▸ before.1, later.not.mpr before.2.1, mt asked before.2.2⟩
  · exact host ▸ rests.host (awake.not.mp asleep)
  · rw [later, top]
    exact rests.top ⟨phase ▸ resting.1, awake.not.mp resting.2⟩

theorem rests_step (rests : Rests trace t) (moved : t.step action = some (next, seen)) :
    Rests (⟨t, action, seen⟩ :: trace) next := by
  cases polling_cases moved with
  | mounted created =>
      obtain ⟨unset, never, -⟩ := rests.created created
      have asleep : ¬ t.Awake := fun awake => absurd (created.symm.trans awake.1) (by decide)
      refine ⟨nofun, fun _ => rests.host asleep, fun _ => ?_⟩
      have before : t.view.topInterval = none := unset
      simp [Resumed, FirstAnswer, Stops, loadTop20, before, never]
  | shown mounted =>
      refine .of_awake ?_
      unfold onVisibilityChange
      simp only [↓reduceIte]
      split <;> simp [Awake, loadHost, loadTop20, mounted]
  | hidden mounted => exact .stopped (by simp [mounted]) (by simp) (by simp) mounted id
  | turned visible away turn =>
      have first : ¬ FirstAnswer t action := by rcases turn with rfl | rfl <;> exact id
      have going : ¬ Stops t action := by
        rcases turn with rfl | rfl
        · exact id
        · exact away
      have awake : { t with visible := visible }.Awake ↔ t.Awake := by simp [Awake, away]
      exact rests.still rfl awake rfl rfl first going id
  | opened row awake => exact .of_awake (by simp [Awake, openDrawer, loadHost, awake.1, awake.2])
  | closed awake => exact .of_awake (by simp [Awake, closeDrawer, awake.1, awake.2])
  | @resumed n answer first =>
      have same := polling_gotTop20 answer { t with requests := t.requests.eraseIdx n }
      simp only [polling, Prod.mk.injEq] at same
      obtain ⟨phase, visible, -, host, -, -⟩ := same
      refine ⟨fun created => ?_, fun asleep => ?_, fun _ => ?_⟩
      · have started : t.phase = .created := by simpa [phase] using created
        exact absurd (List.mem_of_getElem? first) (rests.created started).2.2
      · rw [hostInterval_startTopPolling, host]
        exact rests.host fun awake => asleep (by simpa [Awake, phase, visible] using awake)
      · exact iff_of_true (topInterval_startTopPolling _) (.inl first)
  | unmounted => exact .stopped (by simp) (by simp) (by simp) trivial id
  | still same first going asked =>
      simp only [polling, Prod.mk.injEq] at same
      obtain ⟨phase, visible, top, host, -, -⟩ := same
      have awake : next.Awake ↔ t.Awake := by simp only [Awake, phase, visible]
      exact rests.still phase awake top host first going asked

theorem kept_of_run {visible : Bool} {final : Tab} (run : Run step (created visible) trace final) :
    Kept final ∧ Rests trace final := by
  induction run with
  | start =>
      refine ⟨kept_created visible, fun _ => ⟨rfl, id, List.not_mem_nil⟩, fun _ => rfl, ?_⟩
      exact fun resting => absurd rfl resting.1
  | step past moved ih => exact ⟨ih.1.step moved, rests_step ih.2 moved⟩

/-- A page has never two intervals of one kind. Hidden or left, it has none, unless its first load
was answered and nothing stopped the intervals since: the page was hidden or left while it waited,
or mounted hidden, and goes on asking for the list. -/
theorem intervals_of_run {visible : Bool} {final : Tab}
    (run : Run step (created visible) trace final) :
    (final.timers.map Prod.snd).Nodup ∧
      (final.Resting → (¬ Resumed trace → final.timers = []) ∧
        (Resumed trace → ∃ id, final.timers = [(id, .loadTop20)])) := by
  obtain ⟨kept, rests⟩ := kept_of_run run
  have nodup : final.timers.Nodup := kept.nodup.of_map
  refine ⟨?_, fun resting => ?_⟩
  · refine List.Nodup.map_on ?_ nodup
    rintro ⟨id, callback⟩ first ⟨other, _⟩ second rfl
    have named := (kept.set id callback).mp first
    rw [Option.some.inj (named.symm.trans ((kept.set other callback).mp second))]
  · have host : ∀ id, (id, .loadHost) ∉ final.timers := by
      intro id there
      have set := (kept.set id .loadHost).mp there
      exact absurd (set.symm.trans (rests.host resting.2)) (by simp)
    constructor
    · intro never
      refine List.eq_nil_iff_forall_not_mem.mpr ?_
      rintro ⟨id, callback⟩ there
      cases callback with
      | loadHost => exact host id there
      | loadTop20 =>
          have set := (kept.set id .loadTop20).mp there
          exact never ((rests.top resting).mp (Option.ne_none_iff_exists'.mpr ⟨id, set⟩))
    · intro resumed
      obtain ⟨id, set⟩ := Option.ne_none_iff_exists'.mp ((rests.top resting).mpr resumed)
      refine ⟨id, List.perm_singleton.mp ?_⟩
      refine (List.perm_ext_iff_of_nodup nodup (List.nodup_singleton _)).mpr ?_
      rintro ⟨other, callback⟩
      cases callback with
      | loadHost => simp [host other]
      | loadTop20 =>
          rw [kept.set other .loadTop20]
          simp [TrafficView.interval, set, eq_comm]

theorem intervals_of_run_sample : ∃ trace final, Run step (created true) trace final ∧
    final.phase = .unmounted ∧ ∃ id, final.timers = [(id, .loadTop20)] := by
  have replayed : Run.replay step [] (created true) [.mount, .unmount, .top20 0 (some [])] =
      some (_, _) := rfl
  have run := Run.of_replay .start replayed
  exact ⟨_, _, run, rfl, ((intervals_of_run run).2 ⟨nofun, nofun⟩).2 (.inl rfl)⟩

end Tab

end Mitigador.Web
