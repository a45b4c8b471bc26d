import Mitigador.Api.RouterRows
import Mitigador.Subscriber.Poller

/-! The routers of the daemon, from the table that the dashboard edits to the subscribers that it
shows (cmd/mitigador/serve.go): requests, refreshes of the poller and restarts in any order. -/

namespace Mitigador.Serve

open Go Lib Subscriber Api

structure MikrotikRouter where
  name : String
  url : String
  username : String
  password : String
  verifyTLS : Bool
  deriving DecidableEq

/-- The attempt to store a router of config.yaml, with what becomes of its statement. -/
structure Seed where
  router : MikrotikRouter
  now : Time
  fault : Fault

def Seed.row (s : Seed) : Router where
  name := s.router.name
  url := s.router.url
  username := s.router.username
  password := s.router.password
  verifyTLS := s.router.verifyTLS
  enabled := true
  createdAt := Time.zero
  updatedAt := Time.zero

def seedRouter (t : RouterTable) (s : Seed) : RouterTable :=
  (RouterStore.create s.fault s.now s.row t).1

/-- The one-shot seed of `serve`; `listed` where `List` gives no error. -/
def seed (listed : Bool) (configured : List Seed) (t : RouterTable) : RouterTable :=
  if listed && t.rows.entries.isEmpty && !configured.isEmpty then configured.foldl seedRouter t
  else t

def listEnabled (t : RouterTable) : List (Sigma fun _ : Int => Router) :=
  (t.rows.entries.filter fun row => row.2.enabled).mergeSort fun a b => decide (a.1 ≤ b.1)

def routers (t : RouterTable) : List RouterConfig :=
  (listEnabled t).map fun row => ⟨row.2.name, row.2.url⟩

structure Polling where
  now : Time
  left : List RouterConfig
  polled : List (RouterConfig × Answers)

/-- The table outlives the process, the store and a refresh do not. -/
structure Subscribing where
  table : RouterTable
  store : Store
  polling : Option Polling

inductive SubscribingAction
  | start (listed : Bool) (configured : List Seed)
  | request (call : RouterCall)
  | list (now : Time) (listed : Bool)
  | poll (answers : Answers)
  | publish
  | lookup (ip : Addr)

inductive SubscribingSeen
  | nothing
  | response (response : RouterResponse)
  | subscriber (found : Option Subscriber)

namespace Subscribing

variable (parseAddr : String → Option Addr)

def step (s : Subscribing) : SubscribingAction → Option (Subscribing × SubscribingSeen)
  | .start listed configured => some (⟨seed listed configured s.table, .new, none⟩, .nothing)
  | .request call =>
      some ({ s with table := (serveRouters s.table call).1 },
        .response (serveRouters s.table call).2)
  | .list now listed =>
      match s.polling with
      | some _ => none
      | none =>
          if listed then some ({ s with polling := some ⟨now, routers s.table, []⟩ }, .nothing)
          else some ({ s with store := refresh parseAddr ⟨now, .error "list_enabled"⟩ s.store }, .nothing)
  | .poll answers =>
      match s.polling with
      | some ⟨now, r :: left, polled⟩ =>
          some ({ s with polling := some ⟨now, left, polled ++ [(r, answers)]⟩ }, .nothing)
      | _ => none
  | .publish =>
      match s.polling with
      | some ⟨now, [], polled⟩ =>
          some ({ s with store := refresh parseAddr ⟨now, .ok polled⟩ s.store, polling := none },
            .nothing)
      | _ => none
  | .lookup ip => some (s, .subscriber (s.store.lookup ip))

end Subscribing

abbrev SubscribingTrace := List (Entry Subscribing SubscribingAction SubscribingSeen)

structure Refreshed where
  now : Time
  table : RouterTable
  answers : List Answers

def underWay : SubscribingTrace → Option Refreshed
  | [] => none
  | entry :: back =>
      match entry.action with
      | .list now listed => if listed then some ⟨now, entry.before.table, []⟩ else underWay back
      | .poll answers => (underWay back).map fun r => { r with answers := r.answers ++ [answers] }
      | .publish => none
      | .start .. => none
      | _ => underWay back

def published : SubscribingTrace → Option Refreshed
  | [] => none
  | entry :: back =>
      match entry.action with
      | .publish => underWay back
      | .start .. => none
      | _ => published back

namespace Subscribing

/-- What the routers of a refresh gave, without those that were cut off. -/
def gave (parseAddr : String → Option Addr) (r : Refreshed) : List Fetched :=
  (fetched parseAddr ((routers r.table).zip r.answers)).filter fun item => !item.cutOff

variable {parseAddr : String → Option Addr} {s next : Subscribing} {action : SubscribingAction}
  {seen : SubscribingSeen} {trace : SubscribingTrace}

structure Recalls (parseAddr : String → Option Addr) (trace : SubscribingTrace)
    (s : Subscribing) : Prop where
  polling : s.polling = (underWay trace).map fun r =>
    ⟨r.now, (routers r.table).drop r.answers.length, (routers r.table).zip r.answers⟩
  store : ∀ ip, s.store.m.lookup ip = (published trace).bind fun r =>
    (lastFetched ip (gave parseAddr r)).map fun item => Subscriber.seen r.now item.sub

theorem zip_snoc {α β : Type*} {items left : List α} {others : List β} {item : α}
    (rest : items.drop others.length = item :: left) (other : β) :
    items.zip (others ++ [other]) = items.zip others ++ [(item, other)] ∧
      items.drop (others ++ [other]).length = left := by
  obtain ⟨front, rfl, same⟩ :
      ∃ front, items = front ++ item :: left ∧ front.length = others.length := by
    refine ⟨items.take others.length, by rw [← rest, List.take_append_drop], ?_⟩
    refine List.length_take_of_le (Nat.le_of_not_lt fun short => ?_)
    rw [List.drop_eq_nil_of_le short.le] at rest
    contradiction
  have earlier : (front ++ item :: left).zip others = front.zip others := by
    have parted : (front ++ item :: left).zip (others ++ []) =
        front.zip others ++ (item :: left).zip [] := List.zip_append same
    rwa [List.append_nil, List.zip_nil_right, List.append_nil] at parted
  constructor
  · rw [earlier, List.zip_append same, List.zip_cons_cons, List.zip_nil_right]
  · simp [← same]

theorem recalls_step (recalls : Recalls parseAddr trace s)
    (moved : s.step parseAddr action = some (next, seen)) :
    Recalls parseAddr (⟨s, action, seen⟩ :: trace) next := by
  cases action with
  | start listed configured =>
      cases moved
      exact ⟨rfl, fun _ => rfl⟩
  | request call =>
      cases moved
      exact ⟨recalls.polling, recalls.store⟩
  | lookup ip =>
      cases moved
      exact ⟨recalls.polling, recalls.store⟩
  | list now listed =>
      simp only [step] at moved
      split at moved
      · contradiction
      · next idle =>
          split at moved
          · next reached =>
              cases moved
              subst reached
              exact ⟨by simp [underWay], recalls.store⟩
          · next unreached =>
              cases moved
              obtain rfl : listed = false := by simpa using unreached
              exact ⟨recalls.polling, recalls.store⟩
  | poll answers =>
      simp only [step] at moved
      split at moved
      · next now r left polled busy =>
          cases moved
          obtain ⟨⟨began, table, earlier⟩, history, same⟩ :=
            Option.map_eq_some_iff.mp (recalls.polling.symm.trans busy)
          simp only [Polling.mk.injEq] at same
          obtain ⟨rfl, rest, rfl⟩ := same
          obtain ⟨zipped, dropped⟩ := zip_snoc rest answers
          refine ⟨?_, recalls.store⟩
          simp [underWay, history, zipped, ← dropped]
      · contradiction
  | publish =>
      simp only [step] at moved
      split at moved
      · next now polled busy =>
          cases moved
          obtain ⟨⟨began, table, answers⟩, history, same⟩ :=
            Option.map_eq_some_iff.mp (recalls.polling.symm.trans busy)
          simp only [Polling.mk.injEq] at same
          obtain ⟨rfl, -, rfl⟩ := same
          refine ⟨rfl, fun ip => ?_⟩
          rw [lookup_refresh _ _ rfl, published, history]
          rfl
      · contradiction

theorem recalls_of_run {t : RouterTable} {final : Subscribing}
    (run : Run (step parseAddr) ⟨t, .new, none⟩ trace final) : Recalls parseAddr trace final := by
  induction run with
  | start => exact ⟨rfl, fun _ => rfl⟩
  | step past moved ih => exact recalls_step ih moved

def Unpublished (trace : SubscribingTrace) : Prop :=
  ∀ front closing middle opening back, trace = front ++ closing :: (middle ++ opening :: back) →
    closing.action = .publish → ∀ now, opening.action ≠ .list now true

theorem unpublished_cons {entry : Entry Subscribing SubscribingAction SubscribingSeen}
    (before : Unpublished trace) (other : entry.action ≠ .publish) :
    Unpublished (entry :: trace) := by
  intro front closing middle opening back parted closes
  cases front with
  | nil =>
      cases parted
      exact absurd closes other
  | cons first front =>
      cases parted
      exact before front closing middle opening back rfl closes

theorem Unpublished.of_append {rest : SubscribingTrace} (whole : Unpublished (trace ++ rest)) :
    Unpublished trace := by
  rintro front closing middle opening back rfl
  exact whole front closing middle opening (back ++ rest) (by simp)

theorem unpublished_of_none
    (none : ∀ entry ∈ trace, ∀ now, entry.action ≠ .list now true) : Unpublished trace := by
  rintro front closing middle opening back rfl - now
  exact none opening (by simp) now

theorem underWay_cut {r : Refreshed} (history : underWay trace = some r) :
    ∃ newer opening older, trace = newer ++ opening :: older ∧
      opening.action = .list r.now true ∧ opening.before.table = r.table ∧
      ∀ entry ∈ newer, ∀ now, entry.action ≠ .list now true := by
  induction trace generalizing r with
  | nil => contradiction
  | cons entry back ih =>
      obtain ⟨before, action, output⟩ := entry
      have later {r : Refreshed} (earlier : underWay back = some r)
          (other : ∀ now, action ≠ .list now true) :
          ∃ newer opening older, (⟨before, action, output⟩ : Entry ..) :: back =
              newer ++ opening :: older ∧ opening.action = .list r.now true ∧
            opening.before.table = r.table ∧
            ∀ entry ∈ newer, ∀ now, entry.action ≠ .list now true := by
        obtain ⟨newer, opening, older, rfl, began, table, none⟩ := ih earlier
        exact ⟨_ :: newer, opening, older, rfl, began, table,
          List.forall_mem_cons.mpr ⟨other, none⟩⟩
      cases action with
      | list now listed =>
          cases listed with
          | true =>
              cases history
              exact ⟨[], _, back, rfl, rfl, rfl, List.forall_mem_nil _⟩
          | false => exact later history nofun
      | poll answers =>
          obtain ⟨earlier, known, rfl⟩ := Option.map_eq_some_iff.mp history
          have cut := later known nofun
          exact cut
      | publish => contradiction
      | start => contradiction
      | request => exact later history nofun
      | lookup => exact later history nofun

/-- Where the refresh that was published last began: no later one was published. -/
theorem published_cut {r : Refreshed} (history : published trace = some r) :
    ∃ newer opening older, trace = newer ++ opening :: older ∧
      opening.action = .list r.now true ∧ opening.before.table = r.table ∧
      Unpublished newer := by
  induction trace with
  | nil => contradiction
  | cons entry back ih =>
      obtain ⟨before, action, output⟩ := entry
      have later (earlier : published back = some r) (other : action ≠ .publish) :
          ∃ newer opening older, (⟨before, action, output⟩ : Entry ..) :: back =
              newer ++ opening :: older ∧ opening.action = .list r.now true ∧
            opening.before.table = r.table ∧ Unpublished newer := by
        obtain ⟨newer, opening, older, rfl, began, table, none⟩ := ih earlier
        exact ⟨_ :: newer, opening, older, rfl, began, table, unpublished_cons none other⟩
      cases action with
      | publish =>
          obtain ⟨newer, opening, older, rfl, began, table, none⟩ := underWay_cut history
          exact ⟨_ :: newer, opening, older, rfl, began, table,
            unpublished_of_none (List.forall_mem_cons.mpr ⟨nofun, none⟩)⟩
      | start => contradiction
      | list => exact later history nofun
      | poll => exact later history nofun
      | request => exact later history nofun
      | lookup => exact later history nofun

theorem mem_routers {t : RouterTable} {r : RouterConfig} :
    r ∈ routers t ↔ ∃ id row, t.rows.lookup id = some row ∧ row.enabled = true ∧
      r = ⟨row.name, row.url⟩ := by
  simp only [routers, listEnabled, List.mem_map, List.mem_mergeSort, List.mem_filter]
  constructor
  · rintro ⟨⟨id, row⟩, ⟨stored, enabled⟩, rfl⟩
    exact ⟨id, row, (KeyedMap.mem_entries ..).mp stored, enabled, rfl⟩
  · rintro ⟨id, row, stored, enabled, rfl⟩
    exact ⟨⟨id, row⟩, ⟨(KeyedMap.mem_entries ..).mpr stored, enabled⟩, rfl⟩

theorem built_of_delivered {build : KeyedMap String String → Addr → Subscriber}
    {out : Except FetchError String} {sub : Subscriber}
    (member : sub ∈ delivered (out.map (subscribers parseAddr build))) :
    ∃ fields ip, build fields ip = sub := by
  cases out with
  | error => exact absurd member List.not_mem_nil
  | ok out =>
      obtain ⟨fields, -, built⟩ := List.mem_filterMap.mp member
      obtain ⟨ip, -, same⟩ := Option.map_eq_some_iff.mp built
      exact ⟨fields, ip, same⟩

theorem router_of_fetched {polled : RouterConfig × Answers} {item : Fetched}
    (given : item ∈ fetchedFrom parseAddr polled) :
    item.sub.router = polled.1.name ∧ polled.1.name ≠ "" := by
  simp only [fetchedFrom] at given
  split at given
  · contradiction
  · next asked =>
      obtain ⟨sub, among, rfl⟩ := List.mem_map.mp given
      refine ⟨?_, fun unnamed => asked (by simp [skipped, unnamed])⟩
      rcases List.mem_append.mp among with session | lease
      · obtain ⟨fields, ip, rfl⟩ := built_of_delivered session
        rfl
      · obtain ⟨fields, ip, rfl⟩ := built_of_delivered lease
        rfl

theorem row_of_gave {r : Refreshed} {item : Fetched} (given : item ∈ gave parseAddr r) :
    item.sub.router ≠ "" ∧ ∃ id row, r.table.rows.lookup id = some row ∧ row.enabled = true ∧
      row.name = item.sub.router := by
  obtain ⟨polled, among, fetched⟩ := List.mem_flatMap.mp (List.mem_of_mem_filter given)
  obtain ⟨named, nonempty⟩ := router_of_fetched fetched
  obtain ⟨id, row, stored, enabled, same⟩ := mem_routers.mp (List.of_mem_zip among).1
  rw [named]
  exact ⟨nonempty, id, row, stored, enabled, by rw [same]⟩

theorem found_of_lookup {t : RouterTable} {final : Subscribing} {ip : Addr}
    (run : Run (step parseAddr) ⟨t, .new, none⟩ trace final)
    (moved : final.step parseAddr (.lookup ip) = some (next, seen)) :
    seen = .subscriber ((published trace).bind fun r =>
      (lastFetched ip.unmap (gave parseAddr r)).map fun item =>
        Subscriber.seen r.now item.sub) := by
  cases moved
  exact congrArg SubscribingSeen.subscriber ((recalls_of_run run).store ip.unmap)

theorem row_of_lookup {t : RouterTable} {final : Subscribing} {ip : Addr} {sub : Subscriber}
    (run : Run (step parseAddr) ⟨t, .new, none⟩ trace final)
    (moved : final.step parseAddr (.lookup ip) = some (next, .subscriber (some sub))) :
    ∃ newer opening older, trace = newer ++ opening :: older ∧
      opening.action = .list sub.lastSeen true ∧ Unpublished newer ∧
        ∃ id row, opening.before.table.rows.lookup id = some row ∧
          row.enabled = true ∧ row.name = sub.router := by
  have found := SubscribingSeen.subscriber.inj (found_of_lookup run moved)
  obtain ⟨r, history, held⟩ := Option.bind_eq_some_iff.mp found.symm
  obtain ⟨item, last, rfl⟩ := Option.map_eq_some_iff.mp held
  obtain ⟨newer, opening, older, parted, began, table, none⟩ := published_cut history
  have given := List.mem_reverse.mp (List.mem_of_find?_eq_some last)
  exact ⟨newer, opening, older, parted, began, none, table ▸ (row_of_gave given).2⟩

/-- A router that is deleted, renamed or disabled, and not brought back since, is gone from the
dashboard as soon as one refresh that began afterwards is published. -/
theorem removed_gone {t : RouterTable} {middle final : Subscribing} {ip : Addr}
    {older newer : SubscribingTrace} {name : String} {sub : Subscriber}
    (run : Run (step parseAddr) ⟨t, .new, none⟩ older middle)
    (more : Run (step parseAddr) middle newer final)
    (removed : ∀ entry ∈ newer, ∀ id row, entry.before.table.rows.lookup id = some row →
      row.enabled = true → row.name ≠ name)
    (refreshed : ¬ Unpublished newer)
    (moved : final.step parseAddr (.lookup ip) = some (next, .subscriber (some sub))) :
    sub.router ≠ name := by
  obtain ⟨front, opening, back, parted, -, none, id, row, stored, enabled, named⟩ :=
    row_of_lookup (run.trans more) moved
  rintro rfl
  have outside : ∀ rest, front ≠ newer ++ rest := by
    rintro rest rfl
    exact refreshed (none.of_append)
  rcases List.append_eq_append_iff.mp parted with ⟨rest, same, -⟩ | ⟨rest, rfl, left⟩
  · exact outside rest same
  · cases rest with
    | nil => exact outside [] (by simp)
    | cons first rest =>
        cases left
        exact removed opening (by simp) id row stored enabled named

end Subscribing

/-! What a start makes of the table. -/

def seeded : List Seed → List String → List RouterConfig
  | [], _ => []
  | s :: rest, taken =>
      if s.row.storable && s.fault.applied && !taken.contains s.router.name then
        ⟨s.router.name, s.router.url⟩ :: seeded rest (s.router.name :: taken)
      else seeded rest taken

def Taken (t : RouterTable) (taken : List String) : Prop :=
  ∀ name, name ∈ taken ↔ ∃ id row, t.rows.lookup id = some row ∧ row.name = name

theorem free_next_iff {t : RouterTable} {taken : List String} (names : Taken t taken)
    (name : String) : t.Free name t.next ↔ name ∉ taken := by
  rw [RouterTable.free_iff, names]
  constructor
  · rintro free ⟨id, row, stored, named⟩
    have below := t.below id (AList.lookup_isSome.mp (stored ▸ rfl))
    exact absurd (free id row stored named) below.ne
  · intro unused id row stored named
    exact absurd ⟨id, row, stored, named⟩ unused

theorem listEnabled_sorted (t : RouterTable) :
    (listEnabled t).Pairwise fun a b => a.1 ≤ b.1 := by
  have transitive (a b c : Sigma fun _ : Int => Router) (first : decide (a.1 ≤ b.1) = true)
      (second : decide (b.1 ≤ c.1) = true) : decide (a.1 ≤ c.1) = true :=
    decide_eq_true ((of_decide_eq_true first).trans (of_decide_eq_true second))
  have total (a b : Sigma fun _ : Int => Router) :
      (decide (a.1 ≤ b.1) || decide (b.1 ≤ a.1)) = true := by
    simpa using le_total a.1 b.1
  exact (List.pairwise_mergeSort transitive total _).imp of_decide_eq_true

theorem mem_listEnabled {t : RouterTable} {row : Sigma fun _ : Int => Router} :
    row ∈ listEnabled t ↔ row ∈ t.rows.entries ∧ row.2.enabled = true := by
  simp [listEnabled]

theorem listEnabled_put {t : RouterTable} {row : Router} (free : t.Free row.name t.next)
    (enabled : row.enabled = true) :
    listEnabled (t.put t.next row free) = listEnabled t ++ [⟨t.next, row⟩] := by
  have fresh : t.next ∉ t.rows := fun old => lt_irrefl _ (t.below t.next old)
  have added : (t.put t.next row free).rows.entries = ⟨t.next, row⟩ :: t.rows.entries :=
    AList.entries_insert_of_notMem fresh
  have earlier : ∀ other ∈ listEnabled t, other.1 < t.next := fun other listed =>
    t.below other.1 (AList.mem_keys.mpr (List.mem_keys_of_mem (mem_listEnabled.mp listed).1))
  refine List.Perm.eq_of_pairwise ?_ (listEnabled_sorted _) ?_ ?_
  · intro first second here there below above
    have one := (mem_listEnabled.mp here).1
    have other : second ∈ (t.put t.next row free).rows.entries := by
      rw [added]
      rcases List.mem_append.mp there with old | new
      · exact List.mem_cons_of_mem _ (mem_listEnabled.mp old).1
      · exact List.mem_singleton.mp new ▸ List.mem_cons_self
    exact (t.put t.next row free).rows.nodupKeys.eq_of_fst_eq one other (below.antisymm above)
  · refine List.pairwise_append.mpr ⟨listEnabled_sorted t, List.pairwise_singleton .., ?_⟩
    intro old listed new member
    rw [List.mem_singleton.mp member]
    exact (earlier old listed).le
  · unfold listEnabled
    refine (List.mergeSort_perm _ _).trans ?_
    rw [added, List.filter_cons_of_pos (by simpa using enabled)]
    refine (List.perm_append_singleton ..).symm.trans ?_
    exact (List.mergeSort_perm _ _).symm.append_right _

theorem routers_put {t : RouterTable} {row : Router} (free : t.Free row.name t.next)
    (enabled : row.enabled = true) :
    routers (t.put t.next row free) = routers t ++ [⟨row.name, row.url⟩] := by
  rw [routers, listEnabled_put free enabled, List.map_append]
  rfl

theorem routers_congr {t next : RouterTable} (same : next.rows = t.rows) :
    routers next = routers t := by
  rw [routers, routers, listEnabled, listEnabled, same]

theorem create_stored {fault : Fault} {now : Time} {r : Router} {t : RouterTable}
    (storable : r.storable = true) (applied : fault.applied = true) (free : t.Free r.name t.next) :
    (RouterStore.create fault now r t).1 =
      t.put t.next { r with createdAt := now, updatedAt := now } free := by
  rw [RouterStore.create, if_neg (by simp [storable]), dif_pos free, RouterStore.settle_fst, if_pos applied]

theorem create_refused {fault : Fault} {now : Time} {r : Router} {t : RouterTable}
    (refused : r.storable = true → fault.applied = true → ¬ t.Free r.name t.next) :
    (RouterStore.create fault now r t).1.rows = t.rows := by
  unfold RouterStore.create
  dsimp only
  split
  · rfl
  · next storable =>
      split
      · next free =>
          rw [RouterStore.settle_fst, if_neg]
          exact fun applied => refused (by simpa using storable) applied free
      · rfl

theorem taken_put {t : RouterTable} {taken : List String} (names : Taken t taken) {row : Router}
    (free : t.Free row.name t.next) : Taken (t.put t.next row free) (row.name :: taken) := by
  intro name
  have fresh : t.rows.lookup t.next = none :=
    AList.lookup_eq_none.mpr fun old => lt_irrefl _ (t.below t.next old)
  have written (id : Int) : (t.put t.next row free).rows.lookup id =
      if id = t.next then some row else t.rows.lookup id := KeyedMap.lookup_insert ..
  rw [List.mem_cons, names]
  constructor
  · rintro (rfl | ⟨id, other, stored, named⟩)
    · exact ⟨t.next, row, by rw [written, if_pos rfl], rfl⟩
    · refine ⟨id, other, ?_, named⟩
      rw [written, if_neg, stored]
      rintro rfl
      rw [fresh] at stored
      contradiction
  · rintro ⟨id, other, stored, rfl⟩
    rw [written] at stored
    split at stored
    · cases stored
      exact .inl rfl
    · exact .inr ⟨id, other, stored, rfl⟩

theorem routers_seedRouter {t : RouterTable} {taken : List String} (names : Taken t taken)
    (s : Seed) :
    if s.row.storable && s.fault.applied && !taken.contains s.router.name then
      routers (seedRouter t s) = routers t ++ [⟨s.router.name, s.router.url⟩] ∧
        Taken (seedRouter t s) (s.router.name :: taken)
    else (seedRouter t s).rows = t.rows := by
  have unused : t.Free s.row.name t.next ↔ s.router.name ∉ taken := free_next_iff names _
  split
  · next accepted =>
      simp only [Bool.and_eq_true, Bool.not_eq_true', List.contains_eq_mem,
        decide_eq_false_iff_not] at accepted
      obtain ⟨⟨storable, applied⟩, new⟩ := accepted
      rw [seedRouter, create_stored storable applied (unused.mpr new)]
      exact ⟨routers_put _ rfl, taken_put names _⟩
  · next refused =>
      refine create_refused fun storable applied free => refused ?_
      simp [storable, applied, unused.mp free]

theorem taken_congr {t next : RouterTable} {taken : List String} (same : next.rows = t.rows)
    (names : Taken t taken) : Taken next taken := by
  intro name
  rw [names, same]

theorem routers_seeds {t : RouterTable} {taken : List String} (names : Taken t taken)
    (configured : List Seed) :
    routers (configured.foldl seedRouter t) = routers t ++ seeded configured taken := by
  induction configured generalizing t taken with
  | nil => exact (List.append_nil _).symm
  | cons s rest ih =>
      have stored := routers_seedRouter names s
      rw [List.foldl_cons, seeded]
      split at stored
      · next accepted =>
          rw [if_pos accepted, ih stored.2, stored.1, List.append_assoc]
          rfl
      · next refused => rw [if_neg refused, ih (taken_congr stored names), routers_congr stored]

/-- The poller's routers after a start: those of the table as it was, unless it had no row at all.
Then the routers of config.yaml are back, in their order, each name once. -/
theorem routers_seed (listed : Bool) (configured : List Seed) (t : RouterTable) :
    routers (seed listed configured t) =
      if listed = true ∧ t.rows.entries = [] then seeded configured [] else routers t := by
  unfold seed
  by_cases empty : listed = true ∧ t.rows.entries = []
  · rw [if_pos empty]
    have none : Taken t [] := by
      intro name
      refine iff_of_false List.not_mem_nil ?_
      rintro ⟨id, row, stored, -⟩
      have listed := (KeyedMap.mem_entries ..).mpr stored
      rw [empty.2] at listed
      contradiction
    have polled : routers t = [] := by
      rw [routers, listEnabled, empty.2, List.filter_nil, List.mergeSort_nil, List.map_nil]
    have made := routers_seeds none configured
    rw [polled, List.nil_append] at made
    rw [← made]
    cases configured with
    | nil => simp
    | cons s rest => rw [if_pos (by simp [empty.1, empty.2])]
  · rw [if_neg empty, if_neg (by simpa using fun reached none => absurd ⟨reached, none⟩ empty)]

end Mitigador.Serve
