import Mitigador.Subscriber.AsValue
import Mitigador.Subscriber.Host
import Mitigador.Subscriber.Store
import Mitigador.Subscriber.Uptime

/-! One cycle of the poller of subscribers (internal/subscriber/mikrotik.go), and which of the
sessions it fetches are published. -/

namespace Mitigador.Subscriber

open Go Lib

structure RouterConfig where
  name : String
  url : String
  deriving DecidableEq

/-- What a router does with one command: no session comes about, or it ends, with an error or
without. -/
inductive Exchange
  | failed (err : String)
  | ended (out : String) (err : Option String)
  deriving DecidableEq

inductive FetchError
  | notSupported
  | other (text : String)
  deriving DecidableEq

def runSSH (r : RouterConfig) (exchange : Exchange) : Except FetchError String :=
  if normalizeHost r.url = "" then .error (.other "ssh: empty host")
  else match exchange with
    | .failed err => .error (.other err)
    | .ended out none => .ok out
    | .ended out (some err) =>
        if contains out "no such command" || contains out "expected end of command" then
          .error .notSupported
        else .error (.other ("ssh exec: " ++ err ++ " (stderr=" ++ trimSpace out ++ ")"))

def firstNonEmpty (a b : String) : String :=
  if trimSpace a ≠ "" then trimSpace a else trimSpace b

def valueOf (fields : KeyedMap String String) (key : String) : String :=
  (fields.lookup key).getD ""

/-- The answers of a router to the two commands of a cycle, and when the first was read. -/
structure Answers where
  ppp : Exchange
  lease : Exchange
  read : Time
  deriving DecidableEq

def pppSubscriber (r : RouterConfig) (read : Time) (fields : KeyedMap String String)
    (ip : Addr) : Subscriber where
  ip := ip
  username := firstNonEmpty (valueOf fields "name") (valueOf fields "user")
  service := firstNonEmpty (valueOf fields "service") "pppoe"
  router := r.name
  comment := firstNonEmpty (valueOf fields "comment") (valueOf fields "caller-id")
  connectedSince := subtractUptime read (valueOf fields "uptime")
  lastSeen := .zero

def leaseSubscriber (r : RouterConfig) (fields : KeyedMap String String) (ip : Addr) :
    Subscriber where
  ip := ip
  username := firstNonEmpty (valueOf fields "host-name") (valueOf fields "mac-address")
  service := "dhcp"
  router := r.name
  comment := firstNonEmpty (valueOf fields "comment") (valueOf fields "mac-address")
  connectedSince := .zero
  lastSeen := .zero

def skipped (r : RouterConfig) : Bool := r.name == "" || r.url == ""

section Fetch

variable (parseAddr : String → Option Addr)

def addressOf (fields : KeyedMap String String) : Option Addr :=
  let addr := valueOf fields "address"
  if addr = "" then none
  else match parseAddr (trimSpace addr) with
    | none => none
    | some ip => if ip.isValid then some ip.unmap else none

def subscribers (build : KeyedMap String String → Addr → Subscriber) (out : String) :
    List Subscriber :=
  (parseAsValue out).filterMap fun fields => (addressOf parseAddr fields).map (build fields)

def fetchPPPoE (r : RouterConfig) (a : Answers) : Except FetchError (List Subscriber) :=
  (runSSH r a.ppp).map (subscribers parseAddr (pppSubscriber r a.read))

def fetchDHCPLeases (r : RouterConfig) (a : Answers) : Except FetchError (List Subscriber) :=
  (runSSH r a.lease).map (subscribers parseAddr (leaseSubscriber r))

def pollLeases (r : RouterConfig) (a : Answers) (out : List Subscriber) :
    List Subscriber × Option String :=
  match fetchDHCPLeases parseAddr r a with
  | .ok subs => (out ++ subs, none)
  | .error .notSupported => (out, none)
  | .error (.other err) => (out, some ("dhcp: " ++ err))

def pollRouter (r : RouterConfig) (a : Answers) : List Subscriber × Option String :=
  match fetchPPPoE parseAddr r a with
  | .ok subs => pollLeases parseAddr r a subs
  | .error .notSupported => pollLeases parseAddr r a []
  | .error (.other err) => ([], some ("ppp: " ++ err))

/-- A subscriber as the refresh that started at `now` leaves it. -/
def seen (now : Time) (sub : Subscriber) : Subscriber := { sub with lastSeen := now }

def addRouter (now : Time) (next : KeyedMap Addr Subscriber) (polled : RouterConfig × Answers) :
    KeyedMap Addr Subscriber :=
  if skipped polled.1 then next
  else match pollRouter parseAddr polled.1 polled.2 with
    | (_, some _) => next
    | (subs, none) => subs.foldl (fun next sub => next.insert sub.ip (seen now sub)) next

/-- One cycle: the routers of the provider, each with its answers, or the provider's error. -/
structure Cycle where
  now : Time
  routers : Except String (List (RouterConfig × Answers))

def refresh (cycle : Cycle) (s : Store) : Store :=
  match cycle.routers with
  | .error _ => s
  | .ok routers => s.replace (routers.foldl (addRouter parseAddr cycle.now) ∅)

structure Fetched where
  sub : Subscriber
  cutOff : Bool

def broken {α : Type} : Except FetchError α → Bool
  | .error (.other _) => true
  | _ => false

def delivered : Except FetchError (List Subscriber) → List Subscriber
  | .ok subs => subs
  | .error _ => []

theorem broken_ok {α : Type} (subs : α) : broken (.ok subs : Except FetchError α) = false := rfl

theorem broken_notSupported {α : Type} :
    broken (.error .notSupported : Except FetchError α) = false := rfl

theorem broken_other {α : Type} (err : String) :
    broken (.error (.other err) : Except FetchError α) = true := rfl

theorem delivered_ok (subs : List Subscriber) : delivered (.ok subs) = subs := rfl

theorem delivered_error (err : FetchError) : delivered (.error err) = [] := rfl

/-- What a router gave in the cycle. The leases are not asked for when the sessions failed to
come. -/
def fetchedFrom (polled : RouterConfig × Answers) : List Fetched :=
  let ppp := fetchPPPoE parseAddr polled.1 polled.2
  let leases := fetchDHCPLeases parseAddr polled.1 polled.2
  if skipped polled.1 || broken ppp then []
  else (delivered ppp ++ delivered leases).map fun sub => ⟨sub, broken leases⟩

def fetched (routers : List (RouterConfig × Answers)) : List Fetched :=
  routers.flatMap (fetchedFrom parseAddr)

def lastFetched (ip : Addr) (items : List Fetched) : Option Fetched :=
  KeyedMap.lastAt (fun item => item.sub.ip) ip items

def Publishes (cycle : Cycle) (before after : Store) : Prop :=
  match cycle.routers with
  | .error _ => after = before
  | .ok routers => ∀ ip, after.m.lookup ip =
      (lastFetched ip (fetched parseAddr routers)).map fun item => seen cycle.now item.sub

/-- Where the session fetched last for an address comes from a router that was cut off, the
last one from the routers that were not is the same. -/
def Covered (cycle : Cycle) : Prop :=
  ∀ routers, cycle.routers = .ok routers → ∀ ip item,
    lastFetched ip (fetched parseAddr routers) = some item → item.cutOff = true →
      (lastFetched ip ((fetched parseAddr routers).filter fun item => !item.cutOff)).map
        (fun item => seen cycle.now item.sub) = some (seen cycle.now item.sub)

variable {parseAddr}

theorem addressOf_unmapped {fields : KeyedMap String String} {ip : Addr}
    (address : addressOf parseAddr fields = some ip) : ip.unmap = ip := by
  simp only [addressOf] at address
  by_cases blank : valueOf fields "address" = ""
  · rw [if_pos blank] at address
    contradiction
  · rw [if_neg blank] at address
    cases parsed : parseAddr (trimSpace (valueOf fields "address")) with
    | none =>
        rw [parsed] at address
        contradiction
    | some found =>
        simp only [parsed, Option.ite_none_right_eq_some, Option.some.injEq] at address
        rw [← address.2, Addr.unmap_unmap]

theorem delivered_unmapped {build : KeyedMap String String → Addr → Subscriber}
    (keyed : ∀ fields ip, (build fields ip).ip = ip) {out : Except FetchError String}
    {sub : Subscriber} (member : sub ∈ delivered (out.map (subscribers parseAddr build))) :
    sub.ip.unmap = sub.ip := by
  cases out with
  | error => exact absurd member List.not_mem_nil
  | ok out =>
      obtain ⟨fields, -, built⟩ := List.mem_filterMap.mp member
      obtain ⟨ip, address, rfl⟩ := Option.map_eq_some_iff.mp built
      rw [keyed, addressOf_unmapped address]

theorem fetched_unmapped {routers : List (RouterConfig × Answers)} {item : Fetched}
    (member : item ∈ fetched parseAddr routers) : item.sub.ip.unmap = item.sub.ip := by
  obtain ⟨polled, -, given⟩ := List.mem_flatMap.mp member
  simp only [fetchedFrom] at given
  by_cases none : (skipped polled.1 || broken (fetchPPPoE parseAddr polled.1 polled.2)) = true
  · rw [if_pos none] at given
    contradiction
  · rw [if_neg none] at given
    obtain ⟨sub, among, rfl⟩ := List.mem_map.mp given
    rcases List.mem_append.mp among with session | lease
    · exact delivered_unmapped (fun _ _ => rfl) session
    · exact delivered_unmapped (fun _ _ => rfl) lease

def taken : List Subscriber × Option String → List Subscriber
  | (_, some _) => []
  | (subs, none) => subs

theorem taken_pollRouter (r : RouterConfig) (a : Answers) :
    taken (pollRouter parseAddr r a) =
      if broken (fetchPPPoE parseAddr r a) || broken (fetchDHCPLeases parseAddr r a) then []
      else delivered (fetchPPPoE parseAddr r a) ++ delivered (fetchDHCPLeases parseAddr r a) := by
  have second (out : List Subscriber) :
      taken (pollLeases parseAddr r a out) = if broken (fetchDHCPLeases parseAddr r a) then []
        else out ++ delivered (fetchDHCPLeases parseAddr r a) := by
    unfold pollLeases
    cases fetchDHCPLeases parseAddr r a with
    | ok leases => simp only [taken, broken_ok, delivered_ok, Bool.false_eq_true, if_false]
    | error err =>
        cases err with
        | notSupported =>
            simp only [taken, broken_notSupported, delivered_error, Bool.false_eq_true, if_false,
              List.append_nil]
        | other => simp only [taken, broken_other, if_true]
  unfold pollRouter
  cases fetchPPPoE parseAddr r a with
  | ok subs =>
      rw [broken_ok, Bool.false_or, delivered_ok]
      exact second subs
  | error err =>
      cases err with
      | notSupported =>
          rw [broken_notSupported, Bool.false_or, delivered_error]
          exact second []
      | other => simp only [taken, broken_other, Bool.true_or, if_true]

theorem addRouter_eq (now : Time) (next : KeyedMap Addr Subscriber)
    (polled : RouterConfig × Answers) :
    addRouter parseAddr now next polled =
      ((fetchedFrom parseAddr polled).filter fun item => !item.cutOff).foldl
        (fun next item => next.insert item.sub.ip (seen now item.sub)) next := by
  have added : addRouter parseAddr now next polled =
      if skipped polled.1 then next
      else (taken (pollRouter parseAddr polled.1 polled.2)).foldl
          (fun next (sub : Subscriber) => next.insert sub.ip (seen now sub)) next := by
    unfold addRouter
    rcases pollRouter parseAddr polled.1 polled.2 with ⟨subs, _ | err⟩ <;> rfl
  rw [added, taken_pollRouter, fetchedFrom]
  cases skipped polled.1 with
  | true => rfl
  | false =>
      cases broken (fetchPPPoE parseAddr polled.1 polled.2) with
      | true => rfl
      | false =>
          cases broken (fetchDHCPLeases parseAddr polled.1 polled.2) with
          | true =>
              have nothing (subs : List Subscriber) :
                  (subs.map fun sub => (⟨sub, true⟩ : Fetched)).filter (fun item => !item.cutOff) =
                    [] := by
                simp
              simp only [Bool.false_or, Bool.false_eq_true, if_true, if_false, nothing,
                List.foldl_nil]
          | false =>
              have whole (subs : List Subscriber) :
                  (subs.map fun sub => (⟨sub, false⟩ : Fetched)).filter (fun item => !item.cutOff) =
                    subs.map fun sub => ⟨sub, false⟩ := by
                simp
              simp only [Bool.false_or, Bool.false_eq_true, if_false, whole, List.foldl_map]

theorem next_eq (now : Time) (routers : List (RouterConfig × Answers))
    (next : KeyedMap Addr Subscriber) :
    routers.foldl (addRouter parseAddr now) next =
      ((fetched parseAddr routers).filter fun item => !item.cutOff).foldl
        (fun next item => next.insert item.sub.ip (seen now item.sub)) next := by
  induction routers generalizing next with
  | nil => rfl
  | cons polled routers ih =>
      have parted : fetched parseAddr (polled :: routers) =
          fetchedFrom parseAddr polled ++ fetched parseAddr routers := List.flatMap_cons
      rw [List.foldl_cons, addRouter_eq, ih, parted, List.filter_append, List.foldl_append]

theorem lookup_refresh (cycle : Cycle) (s : Store) {routers : List (RouterConfig × Answers)}
    (provided : cycle.routers = .ok routers) (ip : Addr) :
    (refresh parseAddr cycle s).m.lookup ip =
      (lastFetched ip ((fetched parseAddr routers).filter fun item => !item.cutOff)).map
        fun item => seen cycle.now item.sub := by
  have stored (ip : Addr) : (routers.foldl (addRouter parseAddr cycle.now) ∅).lookup ip =
      (lastFetched ip ((fetched parseAddr routers).filter fun item => !item.cutOff)).map
        fun item => seen cycle.now item.sub := by
    rw [next_eq]
    have last := KeyedMap.lookup_insertAll (fun item : Fetched => item.sub.ip)
      (fun item => seen cycle.now item.sub)
      ((fetched parseAddr routers).filter fun item => !item.cutOff) ∅ ip
    rwa [AList.lookup_empty, Option.or_none] at last
  have unmapped : ∀ k v, (routers.foldl (addRouter parseAddr cycle.now) ∅).lookup k = some v →
      k.unmap = k := by
    intro k v present
    rw [stored, Option.map_eq_some_iff] at present
    obtain ⟨item, last, -⟩ := present
    obtain rfl : item.sub.ip = k := by simpa using List.find?_some last
    have member := List.mem_reverse.mp (List.mem_of_find?_eq_some last)
    exact fetched_unmapped (List.mem_of_mem_filter member)
  rw [refresh, provided]
  simp only [s.replace_unmapped unmapped]
  exact stored ip

/-- A cycle publishes exactly what was fetched in it, unless a router is cut off whose sessions
the others do not give too. -/
theorem refresh_publishes_iff (cycle : Cycle) (s : Store) :
    Publishes parseAddr cycle s (refresh parseAddr cycle s) ↔ Covered parseAddr cycle := by
  cases provided : cycle.routers with
  | error err =>
      have kept : refresh parseAddr cycle s = s := by rw [refresh, provided]
      rw [Publishes, provided, kept]
      refine iff_of_true rfl fun routers same => ?_
      rw [provided] at same
      contradiction
  | ok routers =>
      rw [Publishes, provided]
      simp only [lookup_refresh cycle s provided]
      constructor
      · intro every others same ip item last cutOff
        rw [provided, Except.ok.injEq] at same
        subst same
        exact KeyedMap.lastAt_filter_eq_iff.mp (every ip) item last (by simp [cutOff])
      · intro covered ip
        apply KeyedMap.lastAt_filter_eq_iff.mpr
        intro item last dropped
        exact covered routers provided ip item last (by simpa using dropped)

def sampleParse (text : String) : Option Addr :=
  if text = "100.64.17.10" then some (.v4 0x6440110a) else none

def sampleCycle : Cycle where
  now := .ofUnix 1700000000
  routers := .ok [(⟨"BR1", "10.0.0.1"⟩,
    { ppp := .ended ".id=*1;name=joao;service=pppoe;address=100.64.17.10" none
      lease := .failed "ssh dial 10.0.0.1:22: i/o timeout"
      read := .ofUnix 1700000001 })]

/-- The session of a router that was cut off is not published. -/
theorem refresh_drops :
    ¬ ∀ (parseAddr : String → Option Addr) (cycle : Cycle) (s : Store),
      Publishes parseAddr cycle s (refresh parseAddr cycle s) := by
  intro every
  have published := every sampleParse sampleCycle .new
  simp only [Publishes, sampleCycle] at published
  have answer := published (.v4 0x6440110a)
  rw [lookup_refresh _ _ rfl] at answer
  revert answer
  decide +kernel

end Fetch

end Mitigador.Subscriber
