import Mathlib.Data.List.Basic
import Mitigador.Lib.Run

/-! The page of the top talkers (web/src/views/TrafficView.vue) and its drawer, in a browser tab
where answers arrive in any order and the intervals fire whenever they are set. -/

namespace Mitigador.Web

open Lib

inductive DominantProto
  | udp
  | icmp
  | other
  deriving DecidableEq, Repr

structure TopTalker where
  ip : String
  hostgroup : Option String
  bps : Nat
  pps : Nat
  dominantProto : DominantProto
  deriving DecidableEq, Repr

structure HostBucket where
  offsetS : Nat
  pps : Nat
  bps : Nat
  ppsUdp : Nat
  bpsUdp : Nat
  ppsIcmp : Nat
  bpsIcmp : Nat
  ppsOther : Nat
  bpsOther : Nat
  deriving DecidableEq, Repr

structure HostTraffic where
  hostgroup : Option String
  buckets : List HostBucket
  deriving DecidableEq, Repr

inductive DrawerError
  | fetch
  | notFound
  deriving DecidableEq, Repr

structure TrafficView where
  rows : List TopTalker
  loadingFirst : Bool
  topError : Bool
  drawerOpen : Bool
  drawerIP : Option String
  drawerHostgroup : Option String
  drawerBuckets : List HostBucket
  drawerLoading : Bool
  drawerError : Option DrawerError
  topInterval : Option Nat
  hostInterval : Option Nat
  deriving DecidableEq, Repr

def TrafficView.host (v : TrafficView) : Option String := v.drawerIP.filter (· != "")

inductive Callback
  | loadTop20
  | loadHost
  deriving DecidableEq, Repr

/-- A request under way; `awaited` is the one that `onMounted` waits for. -/
inductive Request
  | top20 (awaited : Bool)
  | host (ip : String)
  deriving DecidableEq, Repr

inductive Phase
  | created
  | mounted
  | unmounted
  deriving DecidableEq, Repr

/-- The component, its intervals that are set, and its requests, in the order of their start. -/
structure Tab where
  view : TrafficView
  phase : Phase
  visible : Bool
  timers : List (Nat × Callback)
  nextTimer : Nat
  requests : List Request
  deriving DecidableEq, Repr

/-- `dismissed` is the drawer writing its `v-model:show` itself. An answer names its request by its
place; an error has a status unless none arrived. -/
inductive TabAction
  | mount
  | shown
  | hidden
  | openDrawer (row : TopTalker)
  | closeDrawer
  | dismissed
  | retryTop
  | retryHost
  | fire (id : Nat)
  | top20 (n : Nat) (answer : Option (List TopTalker))
  | host (n : Nat) (answer : Except (Option Nat) HostTraffic)
  | unmount

inductive TabSeen
  | nothing
  | host (ip : String) (answer : Except (Option Nat) HostTraffic)

namespace Tab

def created (visible : Bool) : Tab :=
  ⟨⟨[], true, false, false, none, none, [], false, none, none, none⟩, .created, visible, [], 0, []⟩

def loadTop20 (awaited : Bool) (t : Tab) : Tab :=
  { t with requests := t.requests ++ [.top20 awaited] }

def loadHost (ip : String) (t : Tab) : Tab :=
  { t with
    view := { t.view with drawerLoading := true, drawerError := none }
    requests := t.requests ++ [.host ip] }

def setInterval (callback : Callback) (t : Tab) : Tab :=
  { t with timers := t.timers ++ [(t.nextTimer, callback)], nextTimer := t.nextTimer + 1 }

def clearInterval (id : Nat) (t : Tab) : Tab :=
  { t with timers := t.timers.filter fun timer => timer.1 != id }

def startTopPolling (t : Tab) : Tab :=
  match t.view.topInterval with
  | some _ => t
  | none =>
      { t.setInterval .loadTop20 with view := { t.view with topInterval := some t.nextTimer } }

def stopTopPolling (t : Tab) : Tab :=
  match t.view.topInterval with
  | none => t
  | some id => { t.clearInterval id with view := { t.view with topInterval := none } }

def startHostPolling (t : Tab) : Tab :=
  match t.view.hostInterval, t.view.host with
  | none, some _ =>
      { t.setInterval .loadHost with view := { t.view with hostInterval := some t.nextTimer } }
  | _, _ => t

def stopHostPolling (t : Tab) : Tab :=
  match t.view.hostInterval with
  | none => t
  | some id => { t.clearInterval id with view := { t.view with hostInterval := none } }

def onVisibilityChange (t : Tab) : Tab :=
  if t.visible then
    let t := (t.loadTop20 false).startTopPolling
    match t.view.drawerOpen, t.view.host with
    | true, some ip => (t.loadHost ip).startHostPolling
    | _, _ => t
  else t.stopTopPolling.stopHostPolling

def openDrawer (row : TopTalker) (t : Tab) : Tab :=
  let t := { t with view := { t.view with
    drawerIP := some row.ip
    drawerHostgroup := row.hostgroup
    drawerBuckets := []
    drawerError := none
    drawerOpen := true } }
  (t.loadHost row.ip).startHostPolling

def closeDrawer (t : Tab) : Tab :=
  let t := { t with view := { t.view with
    drawerOpen := false
    drawerIP := none
    drawerBuckets := [] } }
  t.stopHostPolling

/-- `retryHost`; the callback of the host interval is the same. -/
def retryHost (t : Tab) : Tab :=
  match t.view.host with
  | some ip => t.loadHost ip
  | none => t

def gotTop20 (answer : Option (List TopTalker)) (t : Tab) : Tab :=
  match answer with
  | some rows => { t with view := { t.view with rows := rows, topError := false, loadingFirst := false } }
  | none => { t with view := { t.view with topError := true, loadingFirst := false } }

def gotHost (answer : Except (Option Nat) HostTraffic) (t : Tab) : Tab :=
  match answer with
  | .ok resp =>
      { t with view := { t.view with
        drawerBuckets := resp.buckets
        drawerHostgroup := resp.hostgroup
        drawerLoading := false } }
  | .error status =>
      { t with view := { t.view with
        drawerError := if status = some 404 then some .notFound else some .fetch
        drawerBuckets := []
        drawerLoading := false } }

def step (t : Tab) : TabAction → Option (Tab × TabSeen)
  | .mount =>
      if t.phase = .created then some ({ t with phase := .mounted }.loadTop20 true, .nothing)
      else none
  | .shown =>
      if t.visible then none
      else
        let t := { t with visible := true }
        some (if t.phase = .mounted then t.onVisibilityChange else t, .nothing)
  | .hidden =>
      if t.visible then
        let t := { t with visible := false }
        some (if t.phase = .mounted then t.onVisibilityChange else t, .nothing)
      else none
  | .openDrawer row =>
      if t.phase = .mounted ∧ t.visible ∧ t.view.loadingFirst = false ∧ t.view.topError = false ∧
          row ∈ t.view.rows then some (t.openDrawer row, .nothing)
      else none
  | .closeDrawer =>
      if t.phase = .mounted ∧ t.visible ∧ t.view.drawerOpen then some (t.closeDrawer, .nothing)
      else none
  | .dismissed =>
      if t.phase = .mounted ∧ t.visible ∧ t.view.drawerOpen then
        some ({ t with view := { t.view with drawerOpen := false } }, .nothing)
      else none
  | .retryTop =>
      if t.phase = .mounted ∧ t.visible ∧ t.view.loadingFirst = false ∧ t.view.topError then
        some ({ t with view := { t.view with topError := false, loadingFirst := true } }.loadTop20
          false, .nothing)
      else none
  | .retryHost =>
      if t.phase = .mounted ∧ t.visible ∧ t.view.drawerOpen ∧ t.view.drawerError = some .fetch then
        some (t.retryHost, .nothing)
      else none
  | .fire id =>
      match t.timers.lookup id with
      | none => none
      | some .loadTop20 => some (t.loadTop20 false, .nothing)
      | some .loadHost => some (t.retryHost, .nothing)
  | .top20 n answer =>
      match t.requests[n]? with
      | some (.top20 awaited) =>
          let t := { t with requests := t.requests.eraseIdx n }.gotTop20 answer
          -- `onMounted` goes on after its first load, wherever the component is by then
          some (if awaited then t.startTopPolling else t, .nothing)
      | _ => none
  | .host n answer =>
      match t.requests[n]? with
      | some (.host ip) =>
          some ({ t with requests := t.requests.eraseIdx n }.gotHost answer, .host ip answer)
      | _ => none
  | .unmount =>
      if t.phase = .mounted then
        some ({ t with phase := .unmounted }.stopTopPolling.stopHostPolling, .nothing)
      else none

end Tab

abbrev TabTrace := List (Entry Tab TabAction TabSeen)

def TrafficView.drawer (v : TrafficView) :
    Bool × Option String × Option String × List HostBucket × Option DrawerError :=
  (v.drawerOpen, v.drawerIP, v.drawerHostgroup, v.drawerBuckets, v.drawerError)

def TrafficView.clearError (v : TrafficView) : TrafficView := { v with drawerError := none }

theorem TrafficView.drawer_clearError {v w : TrafficView} (same : v.drawer = w.drawer) :
    v.clearError.drawer = w.clearError.drawer := by
  simp only [drawer, clearError, Prod.mk.injEq] at same ⊢
  exact ⟨same.1, same.2.1, same.2.2.1, same.2.2.2.1, trivial⟩

namespace Tab

variable {t next : Tab} {action : TabAction} {seen : TabSeen} {row : TopTalker}

@[simp] theorem drawer_startTopPolling (t : Tab) :
    t.startTopPolling.view.drawer = t.view.drawer := by
  unfold startTopPolling
  split <;> rfl

@[simp] theorem drawer_stopTopPolling (t : Tab) :
    t.stopTopPolling.view.drawer = t.view.drawer := by
  unfold stopTopPolling
  split <;> rfl

@[simp] theorem drawer_startHostPolling (t : Tab) :
    t.startHostPolling.view.drawer = t.view.drawer := by
  unfold startHostPolling
  split <;> rfl

@[simp] theorem drawer_stopHostPolling (t : Tab) :
    t.stopHostPolling.view.drawer = t.view.drawer := by
  unfold stopHostPolling
  split <;> rfl

@[simp] theorem requests_startTopPolling (t : Tab) : t.startTopPolling.requests = t.requests := by
  unfold startTopPolling
  split <;> rfl

@[simp] theorem requests_stopTopPolling (t : Tab) : t.stopTopPolling.requests = t.requests := by
  unfold stopTopPolling
  split <;> rfl

@[simp] theorem requests_startHostPolling (t : Tab) :
    t.startHostPolling.requests = t.requests := by
  unfold startHostPolling
  split <;> rfl

@[simp] theorem requests_stopHostPolling (t : Tab) : t.stopHostPolling.requests = t.requests := by
  unfold stopHostPolling
  split <;> rfl

theorem requests_gotHost (answer : Except (Option Nat) HostTraffic) (t : Tab) :
    (t.gotHost answer).requests = t.requests := by
  cases answer <;> rfl

theorem requests_gotTop20 (answer : Option (List TopTalker)) (t : Tab) :
    (t.gotTop20 answer).requests = t.requests := by
  cases answer <;> rfl

structure Quiet (t next : Tab) : Prop where
  drawer : next.view.drawer = t.view.drawer ∨ next.view.drawer = t.view.clearError.drawer
  asked : ∀ ip, .host ip ∈ next.requests → .host ip ∈ t.requests ∨ t.view.drawerIP = some ip

theorem Quiet.same (drawer : next.view.drawer = t.view.drawer)
    (requests : next.requests = t.requests) : Quiet t next :=
  ⟨.inl drawer, fun _ there => .inl (requests ▸ there)⟩

theorem Quiet.drawerIP (quiet : Quiet t next) : next.view.drawerIP = t.view.drawerIP := by
  rcases quiet.drawer with same | cleared
  · exact congrArg (fun drawer => drawer.2.1) same
  · exact congrArg (fun drawer => drawer.2.1) cleared

theorem Quiet.trans {middle : Tab} (first : Quiet t middle) (second : Quiet middle next) :
    Quiet t next where
  drawer := by
    rcases second.drawer with same | cleared
    · exact first.drawer.imp same.trans same.trans
    · refine .inr (cleared.trans ?_)
      rcases first.drawer with same | before
      · exact TrafficView.drawer_clearError same
      · exact TrafficView.drawer_clearError (w := t.view.clearError) before
  asked := by
    intro ip there
    rcases second.asked ip there with earlier | own
    · exact first.asked ip earlier
    · exact .inr (first.drawerIP.symm.trans own)

theorem quiet_loadTop20 (awaited : Bool) (t : Tab) : Quiet t (t.loadTop20 awaited) :=
  ⟨.inl rfl, fun ip there => .inl (by simpa [loadTop20] using there)⟩

theorem drawerIP_of_host {ip : String} (there : t.view.host = some ip) :
    t.view.drawerIP = some ip :=
  (Option.filter_eq_some_iff.mp there).1

theorem quiet_loadHost {ip : String} (own : t.view.drawerIP = some ip) :
    Quiet t (t.loadHost ip) := by
  refine ⟨.inr rfl, fun other there => ?_⟩
  rcases List.mem_append.mp there with earlier | asked
  · exact .inl earlier
  · cases List.mem_singleton.mp asked
    exact .inr own

theorem quiet_retryHost (t : Tab) : Quiet t t.retryHost := by
  unfold retryHost
  split
  · next ip host => exact quiet_loadHost (drawerIP_of_host host)
  · exact .same rfl rfl

theorem quiet_onVisibilityChange (t : Tab) : Quiet t t.onVisibilityChange := by
  unfold onVisibilityChange
  split
  · have first : Quiet t (t.loadTop20 false).startTopPolling :=
      (quiet_loadTop20 false t).trans (.same (drawer_startTopPolling _) (by simp))
    dsimp only
    split
    · next ip opened host =>
        refine first.trans ((quiet_loadHost (drawerIP_of_host host)).trans ?_)
        exact .same (drawer_startHostPolling _) (by simp)
    · exact first
  · exact .same (by simp) (by simp)

theorem quiet_gotTop20 (answer : Option (List TopTalker)) (t : Tab) :
    Quiet t (t.gotTop20 answer) := by
  cases answer <;> exact .same rfl rfl

inductive DrawerStep (t : Tab) : TabAction → Tab → TabSeen → Prop
  | opened (row : TopTalker) : DrawerStep t (.openDrawer row) (t.openDrawer row) .nothing
  | closed : DrawerStep t .closeDrawer t.closeDrawer .nothing
  | dismissed : DrawerStep t .dismissed
      { t with view := { t.view with drawerOpen := false } } .nothing
  | answered {n : Nat} {ip : String} {answer : Except (Option Nat) HostTraffic} (there : t.requests[n]? = some (.host ip)) :
      DrawerStep t (.host n answer)
        ({ t with requests := t.requests.eraseIdx n }.gotHost answer) (.host ip answer)
  | quiet {action : TabAction} {next : Tab} (quiet : Quiet t next) : DrawerStep t action next .nothing

theorem drawer_cases (moved : t.step action = some (next, seen)) :
    DrawerStep t action next seen := by
  have visibility : ∀ visible : Bool, Quiet t
      (if t.phase = .mounted then { t with visible := visible }.onVisibilityChange
        else { t with visible := visible }) := by
    intro visible
    have same : Quiet t { t with visible := visible } := .same rfl rfl
    split
    · exact same.trans (quiet_onVisibilityChange _)
    · exact same
  cases action with
  | mount =>
      simp only [step] at moved
      split at moved
      · cases moved
        have same : Quiet t { t with phase := .mounted } := .same rfl rfl
        exact .quiet (same.trans (quiet_loadTop20 ..))
      · contradiction
  | shown =>
      simp only [step] at moved
      split at moved
      · contradiction
      · cases moved
        exact .quiet (visibility true)
  | hidden =>
      simp only [step] at moved
      split at moved
      · cases moved
        exact .quiet (visibility false)
      · contradiction
  | openDrawer row =>
      simp only [step] at moved
      split at moved
      · cases moved
        exact .opened row
      · contradiction
  | closeDrawer =>
      simp only [step] at moved
      split at moved
      · cases moved
        exact .closed
      · contradiction
  | dismissed =>
      simp only [step] at moved
      split at moved
      · cases moved
        exact .dismissed
      · contradiction
  | retryTop =>
      simp only [step] at moved
      split at moved
      · cases moved
        have same : Quiet t
            { t with view := { t.view with topError := false, loadingFirst := true } } :=
          .same rfl rfl
        exact .quiet (same.trans (quiet_loadTop20 ..))
      · contradiction
  | retryHost =>
      simp only [step] at moved
      split at moved
      · cases moved
        exact .quiet t.quiet_retryHost
      · contradiction
  | fire id =>
      simp only [step] at moved
      split at moved
      · contradiction
      · cases moved
        exact .quiet (quiet_loadTop20 ..)
      · cases moved
        exact .quiet t.quiet_retryHost
  | top20 n answer =>
      simp only [step] at moved
      split at moved
      · next awaited there =>
          cases moved
          have fewer : Quiet t { t with requests := t.requests.eraseIdx n } :=
            ⟨.inl rfl, fun ip left => .inl (List.mem_of_mem_eraseIdx left)⟩
          have got := fewer.trans (quiet_gotTop20 answer _)
          split
          · exact .quiet (got.trans (.same (drawer_startTopPolling _) (by simp)))
          · exact .quiet got
      · contradiction
  | host n answer =>
      simp only [step] at moved
      split at moved
      · next ip there =>
          cases moved
          exact .answered there
      · contradiction
  | unmount =>
      simp only [step] at moved
      split at moved
      · cases moved
        exact .quiet (.same (by simp) (by simp))
      · contradiction

def Stays (trace : TabTrace) : Prop :=
  ∀ entry ∈ trace, entry.action ≠ .closeDrawer ∧ entry.action ≠ .dismissed ∧
    ∀ row, entry.action ≠ .openDrawer row

/-- The drawer shows the host of `row`: all in it is of the row or of an answer for that host. -/
structure Own (row : TopTalker) (trace : TabTrace) (t : Tab) : Prop where
  opened : t.view.drawerOpen = true
  host : t.view.drawerIP = some row.ip
  hostgroup : t.view.drawerHostgroup = row.hostgroup ∨ ∃ entry ∈ trace, ∃ resp,
    entry.output = .host row.ip (.ok resp) ∧ t.view.drawerHostgroup = resp.hostgroup
  buckets : t.view.drawerBuckets = [] ∨ ∃ entry ∈ trace, ∃ resp,
    entry.output = .host row.ip (.ok resp) ∧ t.view.drawerBuckets = resp.buckets
  error : t.view.drawerError = none ∨ ∃ entry ∈ trace, ∃ status,
    entry.output = .host row.ip (.error status)

theorem Own.older {trace : TabTrace} (own : Own row trace t)
    (entry : Entry Tab TabAction TabSeen) : Own row (entry :: trace) t where
  opened := own.opened
  host := own.host
  hostgroup := own.hostgroup.imp_right fun ⟨older, there, rest⟩ =>
    ⟨older, List.mem_cons_of_mem _ there, rest⟩
  buckets := own.buckets.imp_right fun ⟨older, there, rest⟩ =>
    ⟨older, List.mem_cons_of_mem _ there, rest⟩
  error := own.error.imp_right fun ⟨older, there, rest⟩ =>
    ⟨older, List.mem_cons_of_mem _ there, rest⟩

theorem Own.quiet {trace : TabTrace} (own : Own row trace t) (quiet : Quiet t next) :
    Own row trace next := by
  rcases quiet.drawer with same | cleared
  · simp only [TrafficView.drawer, Prod.mk.injEq] at same
    obtain ⟨opened, host, hostgroup, buckets, error⟩ := same
    exact ⟨opened ▸ own.opened, host ▸ own.host, hostgroup ▸ own.hostgroup,
      buckets ▸ own.buckets, error ▸ own.error⟩
  · simp only [TrafficView.drawer, TrafficView.clearError, Prod.mk.injEq] at cleared
    obtain ⟨opened, host, hostgroup, buckets, error⟩ := cleared
    exact ⟨opened ▸ own.opened, host ▸ own.host, hostgroup ▸ own.hostgroup,
      buckets ▸ own.buckets, .inl error⟩

theorem Own.answered {trace : TabTrace} {entry : Entry Tab TabAction TabSeen}
    {answer : Except (Option Nat) HostTraffic} (own : Own row trace t)
    (told : entry.output = .host row.ip answer) :
    Own row (entry :: trace) (t.gotHost answer) := by
  have newest : entry ∈ entry :: trace := List.mem_cons_self
  have before := own.older entry
  cases answer with
  | ok resp =>
      exact ⟨own.opened, own.host, .inr ⟨entry, newest, resp, told, rfl⟩,
        .inr ⟨entry, newest, resp, told, rfl⟩, before.error⟩
  | error status =>
      exact ⟨own.opened, own.host, before.hostgroup, .inl rfl,
        .inr ⟨entry, newest, status, told⟩⟩

theorem Own.opens (row : TopTalker) (t : Tab) : Own row [] (t.openDrawer row) := by
  have same := drawer_startHostPolling
    ({ t with view := { t.view with
      drawerIP := some row.ip
      drawerHostgroup := row.hostgroup
      drawerBuckets := []
      drawerError := none
      drawerOpen := true } }.loadHost row.ip)
  simp only [TrafficView.drawer, Prod.mk.injEq, loadHost] at same
  obtain ⟨opened, host, hostgroup, buckets, error⟩ := same
  exact ⟨opened, host, .inl hostgroup, .inl buckets, .inl error⟩

theorem requests_openDrawer (row : TopTalker) (t : Tab) :
    (t.openDrawer row).requests = t.requests ++ [.host row.ip] := by
  simp [openDrawer, loadHost]

theorem step_host {n : Nat} {ip : String} (answer : Except (Option Nat) HostTraffic)
    (place : t.requests[n]? = some (.host ip)) : t.step (.host n answer) =
      some ({ t with requests := t.requests.eraseIdx n }.gotHost answer, .host ip answer) := by
  simp only [step, place]

/-- While the drawer stays, an answer still awaited for another host is the only way to something
foreign in it. -/
theorem own_of_run {trace : TabTrace} {final : Tab} (run : Run step (t.openDrawer row) trace final)
    (alone : ∀ ip, .host ip ∈ t.requests → ip = row.ip) (stays : Stays trace) :
    Own row trace final ∧ ∀ ip, .host ip ∈ final.requests → ip = row.ip := by
  induction run with
  | start =>
      refine ⟨Own.opens row t, fun ip there => ?_⟩
      rw [requests_openDrawer] at there
      rcases List.mem_append.mp there with earlier | asked
      · exact alone ip earlier
      · cases List.mem_singleton.mp asked
        rfl
  | @step trace state next action seen past moved ih =>
      obtain ⟨own, asked⟩ := ih fun entry there => stays entry (List.mem_cons_of_mem _ there)
      have kept := stays _ List.mem_cons_self
      cases drawer_cases moved with
      | opened other => exact absurd rfl (kept.2.2 other)
      | closed => exact absurd rfl kept.1
      | dismissed => exact absurd rfl kept.2.1
      | @answered n ip answer there =>
          obtain rfl := asked ip (List.mem_of_getElem? there)
          have fewer : Quiet state { state with requests := state.requests.eraseIdx n } :=
            ⟨.inl rfl, fun _ left => .inl (List.mem_of_mem_eraseIdx left)⟩
          refine ⟨(own.quiet fewer).answered rfl, fun other left => asked other ?_⟩
          rw [requests_gotHost] at left
          exact List.mem_of_mem_eraseIdx left
      | quiet quiet =>
          refine ⟨(own.quiet quiet).older _, fun ip there => ?_⟩
          rcases quiet.asked ip there with earlier | drawer
          · exact asked ip earlier
          · exact Option.some.inj (drawer.symm.trans own.host)

/-- A drawer just opened can be trusted to show its own host exactly if no answer for another host
is still to come. -/
theorem drawer_own_iff (t : Tab) (row : TopTalker) :
    (∀ trace final, Run step (t.openDrawer row) trace final → Stays trace → Own row trace final) ↔
      ∀ ip, .host ip ∈ t.requests → ip = row.ip := by
  constructor
  · intro trusted ip there
    obtain ⟨n, place⟩ := List.getElem?_of_mem there
    have asked : (t.openDrawer row).requests[n]? = some (.host ip) := by
      rw [requests_openDrawer]
      exact List.getElem?_append_left (List.getElem?_eq_some_iff.mp place).1 ▸ place
    -- the foreign answer arrives at once, with a bucket
    have moved := step_host (.ok ⟨none, [⟨0, 0, 0, 0, 0, 0, 0, 0, 0⟩]⟩) asked
    have own := trusted _ _ (.step .start moved) (by simp [Stays])
    rcases own.buckets with empty | ⟨entry, there, resp, told, -⟩
    · simp [gotHost] at empty
    · cases List.mem_singleton.mp there
      cases told
      rfl
  · exact fun alone trace final run stays => (own_of_run run alone stays).1

end Tab

end Mitigador.Web
