import Mitigador.Aggregate.Overview
import Mitigador.Flow.Recent
import Mitigador.Lib.GroupBy
import Mitigador.Lib.InsertionSort
import Mitigador.Subscriber.Store

/-! The three aggregations of the analytics endpoint (internal/api/dashboard.go): owners and
countries by the traffic of their hosts, and the edges between sources and targets. -/

namespace Mitigador.Api

open Go Lib Mitigador.Flow Mitigador.Aggregate

/-- The lookups of `netowner.Resolver`, whose databases another package reads. -/
structure NetOwner where
  lookup : Addr → String
  countryISO : Addr → String
  countryName : Addr → String

/-- What the handler needs to name an address; `none` is a part that is not wired. -/
structure Deps where
  subscribers : Option Subscriber.Store
  netOwner : Option NetOwner

def resolveOwner (deps : Deps) (ip : Addr) : String :=
  match deps.netOwner with
  | none => ""
  | some resolver => resolver.lookup ip

def resolveCountry (deps : Deps) (ip : Addr) : String × String :=
  match deps.netOwner with
  | none => ("", "")
  | some resolver => (resolver.countryISO ip, resolver.countryName ip)

def resolveSubscriber (deps : Deps) (ip : Addr) : String × String :=
  match deps.subscribers.bind fun store => store.lookup ip with
  | none => ("", "")
  | some sub =>
      (sub.username,
        if sub.router ≠ "" then sub.service ++ " · " ++ sub.router else sub.service)

structure DashOwnerBucket where
  owner : String
  bps : UInt64
  pps : UInt64
  hosts : Nat
  deriving DecidableEq

structure DashCountryBucket where
  iso : String
  name : String
  bps : UInt64
  pps : UInt64
  hosts : Nat
  deriving DecidableEq

structure DashSankeyEdge where
  source : String
  target : String
  bytes : UInt64
  count : Nat
  deriving DecidableEq

structure DashAnalyticsResponse where
  generatedAt : Time
  topOwners : List DashOwnerBucket
  topCountries : List DashCountryBucket
  sankey : List DashSankeyEdge
  deriving DecidableEq

structure OwnerAgg where
  bps : UInt64
  pps : UInt64
  hosts : Nat
  deriving DecidableEq

structure CountryAgg extends OwnerAgg where
  name : String
  deriving DecidableEq

def OwnerAgg.zero : OwnerAgg := ⟨0, 0, 0⟩

def OwnerAgg.add (a : OwnerAgg) (e : TopEntry) : OwnerAgg where
  bps := a.bps + e.bps
  pps := a.pps + e.pps
  hosts := a.hosts + 1

def ownerLabel (deps : Deps) (ip : Addr) : String :=
  let owner := resolveOwner deps ip
  if owner = "" then "—" else owner

def countryLabel (deps : Deps) (ip : Addr) : String × String :=
  let (iso, cname) := resolveCountry deps ip
  if iso = "" then ("??", "Unknown") else (iso, cname)

def ownerGroups (deps : Deps) (entries : List TopEntry) : KeyedMap String OwnerAgg :=
  groupBy (fun e => ownerLabel deps e.ip) (fun _ => .zero) .add entries

def countryGroups (deps : Deps) (entries : List TopEntry) : KeyedMap String CountryAgg :=
  groupBy (fun e => (countryLabel deps e.ip).1)
    (fun e => { OwnerAgg.zero with name := (countryLabel deps e.ip).2 })
    (fun a e => { a.toOwnerAgg.add e with name := a.name }) entries

def labelize (deps : Deps) (ip : Addr) : String :=
  let sub := (resolveSubscriber deps ip).1
  let name := resolveOwner deps ip
  let iso := (resolveCountry deps ip).1
  if sub ≠ "" then sub
  else if name ≠ "" then name
  else if ip.isPrivate || ip.isLoopback then "private"
  else if iso ≠ "" then "country:" ++ iso
  else "unknown"

/-- `edgeKey` of a record: the two columns of the graph never share a name. -/
def edgeKey (deps : Deps) (rec : Record) : String × String :=
  ("◂ " ++ labelize deps rec.srcIP, labelize deps rec.dstIP ++ " ▸")

def edgeGroups (deps : Deps) (snap : List Record) : KeyedMap (String × String) DashSankeyEdge :=
  groupBy (edgeKey deps)
    (fun rec => ⟨(edgeKey deps rec).1, (edgeKey deps rec).2, 0, 0⟩)
    (fun e rec => { e with bytes := e.bytes + rec.bytes, count := e.count + 1 }) snap

def sortByBps {T : Type} (buckets : List T) (bps : T → UInt64) : List T :=
  sortDescending (fun b => (bps b).toNat) buckets

def sortByBytes (edges : List DashSankeyEdge) : List DashSankeyEdge :=
  sortDescending (fun e => e.bytes.toNat) edges

/-- `if len(s) > n { s = s[:n] }`. -/
def cut {T : Type} (n : Nat) (s : List T) : List T :=
  if s.length > n then s.take n else s

def ownerBucket (group : Sigma fun _ : String => OwnerAgg) : DashOwnerBucket :=
  ⟨group.1, group.2.bps, group.2.pps, group.2.hosts⟩

def countryBucket (group : Sigma fun _ : String => CountryAgg) : DashCountryBucket :=
  ⟨group.1, group.2.name, group.2.bps, group.2.pps, group.2.hosts⟩

section Response

variable (deps : Deps) (entries : List TopEntry) (snap : List Record)

/-- The orders in which the handler ranges over its three maps. -/
structure Ranges where
  owners : MapOrder (ownerGroups deps entries)
  countries : MapOrder (countryGroups deps entries)
  edges : MapOrder (edgeGroups deps snap)

def analytics (now : Time) (ranges : Ranges deps entries snap) : DashAnalyticsResponse where
  generatedAt := now
  topOwners := cut 12 (sortByBps (ranges.owners.1.map ownerBucket) DashOwnerBucket.bps)
  topCountries := cut 12 (sortByBps (ranges.countries.1.map countryBucket) DashCountryBucket.bps)
  sankey := cut 40 (sortByBytes (ranges.edges.1.map fun group => group.2))

def handleDashboardAnalytics {capacity : Nat} (s : Option Aggregate.Store)
    (recentFlows : Option (RecentBuffer capacity)) (now : Time)
    (ranges : ∀ entries snap, Ranges deps entries snap) : Option DashAnalyticsResponse :=
  s.map fun s =>
    let snap := match recentFlows with
      | none => []
      | some flows => flows.snapshot 500
    analytics deps (s.top now.unix 1024) snap now (ranges _ _)

end Response

abbrev Traffic := UInt64 × UInt64 × Nat

def entryTraffic (e : TopEntry) : Traffic := (e.bps, e.pps, 1)

def OwnerAgg.traffic (a : OwnerAgg) : Traffic := (a.bps, a.pps, a.hosts)

def DashOwnerBucket.traffic (b : DashOwnerBucket) : Traffic := (b.bps, b.pps, b.hosts)

def DashCountryBucket.traffic (b : DashCountryBucket) : Traffic := (b.bps, b.pps, b.hosts)

def DashSankeyEdge.traffic (e : DashSankeyEdge) : UInt64 × Nat := (e.bytes, e.count)

/-- `out` lists the `n` groups of the most traffic, of a grouping that loses none of it. -/
structure Reports {α β κ M : Type} [DecidableEq κ] [AddCommMonoid M] (label : α → κ)
    (weight : α → M) (items : List α) (name : β → κ) (measure : β → M) (rank : β → UInt64) (n : Nat)
    (out groups : List β) : Prop where
  grouping : Grouping label items name groups
  each : ∀ b ∈ groups,
    measure b = ((items.filter fun item => label item = name b).map weight).sum
  total : (groups.map measure).sum = (items.map weight).sum
  largest : Largest (fun b => (rank b).toNat) n groups out

theorem cut_eq_take {T : Type} (n : Nat) (s : List T) : cut n s = s.take n := by
  rw [cut]
  split
  · rfl
  · rw [List.take_of_length_le (by omega)]

theorem reports_of_order {α β κ ν M : Type} [DecidableEq κ] [AddCommMonoid M] {key : α → κ}
    {start : α → ν} {add : ν → α → ν} {items : List α} (size : ν → M) (weight : α → M)
    (name : β → κ) (measure : β → M) (render : (Sigma fun _ : κ => ν) → β)
    (empty : ∀ item, size (start item) = 0)
    (adds : ∀ value item, size (add value item) = size value + weight item)
    (order : MapOrder (groupBy key start add items))
    (named : ∀ entry ∈ (groupBy key start add items).entries, name (render entry) = entry.1)
    (measured : ∀ entry, measure (render entry) = size entry.2) (rank : β → UInt64) (n : Nat) :
    Reports key weight items name measure rank n
      (cut n (sortByBps (order.1.map render) rank)) (order.1.map render) where
  grouping := grouping_of_order order named
  each b member := by
    obtain ⟨entry, visited, rfl⟩ := List.mem_map.mp member
    have stored := order.2.mem_iff.mp visited
    rw [measured, named entry stored]
    exact measure_group empty adds stored
  total := by
    calc
      ((order.1.map render).map measure).sum = (order.1.map fun entry => size entry.2).sum := by
        rw [List.map_map]
        exact congrArg List.sum (List.map_congr_left fun entry _ => measured entry)
      _ = ((groupBy key start add items).entries.map fun entry => size entry.2).sum :=
        (order.2.map _).sum_eq
      _ = (items.map weight).sum := sum_groupBy empty adds items
  largest := by
    rw [cut_eq_take]
    exact largest_take n _

section Lists

variable (deps : Deps) (entries : List TopEntry) (snap : List Record)

theorem owners_report (order : MapOrder (ownerGroups deps entries)) :
    Reports (fun e => ownerLabel deps e.ip) entryTraffic entries DashOwnerBucket.owner
      DashOwnerBucket.traffic DashOwnerBucket.bps 12
      (cut 12 (sortByBps (order.1.map ownerBucket) DashOwnerBucket.bps))
      (order.1.map ownerBucket) :=
  reports_of_order OwnerAgg.traffic entryTraffic DashOwnerBucket.owner DashOwnerBucket.traffic
    ownerBucket (fun _ => rfl) (fun _ _ => rfl) order (fun _ _ => rfl) (fun _ => rfl)
    DashOwnerBucket.bps 12

theorem countries_report (order : MapOrder (countryGroups deps entries)) :
    Reports (fun e => (countryLabel deps e.ip).1) entryTraffic entries DashCountryBucket.iso
      DashCountryBucket.traffic DashCountryBucket.bps 12
      (cut 12 (sortByBps (order.1.map countryBucket) DashCountryBucket.bps))
      (order.1.map countryBucket) :=
  reports_of_order (fun a : CountryAgg => a.traffic) entryTraffic DashCountryBucket.iso
    DashCountryBucket.traffic countryBucket (fun _ => rfl) (fun _ _ => rfl) order
    (fun _ _ => rfl) (fun _ => rfl) DashCountryBucket.bps 12

/-- An edge keeps the source and the target of its first record, which are its key. -/
theorem edges_report (order : MapOrder (edgeGroups deps snap)) :
    Reports (edgeKey deps) (fun flow : Record => (flow.bytes, 1)) snap
      (fun e => (e.source, e.target)) DashSankeyEdge.traffic DashSankeyEdge.bytes 40
      (cut 40 (sortByBytes (order.1.map fun group => group.2)))
      (order.1.map fun group => group.2) := by
  have named : ∀ entry ∈ (edgeGroups deps snap).entries,
      (entry.2.source, entry.2.target) = entry.1 := by
    intro entry member
    refine tag_group (fun e : DashSankeyEdge => (e.source, e.target)) ?_ ?_ member
    · intro rec
      rfl
    · intro e rec
      rfl
  exact reports_of_order DashSankeyEdge.traffic (fun flow : Record => (flow.bytes, 1))
    (fun e : DashSankeyEdge => (e.source, e.target)) DashSankeyEdge.traffic
    (fun group => group.2) (fun _ => rfl) (fun _ _ => rfl) order named (fun _ => rfl)
    DashSankeyEdge.bytes 40

end Lists

/-- The lists of the response, each with the groups that it was cut from. -/
theorem analytics_reports (deps : Deps) (entries : List TopEntry) (snap : List Record) (now : Time)
    (ranges : Ranges deps entries snap) :
    (∃ owners, Reports (fun e => ownerLabel deps e.ip) entryTraffic entries DashOwnerBucket.owner
      DashOwnerBucket.traffic DashOwnerBucket.bps 12
      (analytics deps entries snap now ranges).topOwners owners) ∧
    (∃ countries, Reports (fun e => (countryLabel deps e.ip).1) entryTraffic entries
      DashCountryBucket.iso DashCountryBucket.traffic DashCountryBucket.bps 12
      (analytics deps entries snap now ranges).topCountries countries) ∧
    ∃ edges, Reports (edgeKey deps) (fun flow : Record => (flow.bytes, 1)) snap
      (fun e => (e.source, e.target)) DashSankeyEdge.traffic DashSankeyEdge.bytes 40
      (analytics deps entries snap now ranges).sankey edges := by
  have owners := owners_report deps entries ranges.owners
  have countries := countries_report deps entries ranges.countries
  have edges := edges_report deps snap ranges.edges
  exact ⟨⟨_, owners⟩, ⟨_, countries⟩, ⟨_, edges⟩⟩

theorem handleDashboardAnalytics_edges {deps : Deps} {capacity : Nat} {s : Aggregate.Store}
    {flows : RecentBuffer capacity} {history : List Record} {now : Time}
    {ranges : ∀ entries snap, Ranges deps entries snap} {response : DashAnalyticsResponse}
    (represents : flows.Represents history)
    (answered : handleDashboardAnalytics deps (some s) (some flows) now ranges = some response) :
    ∃ edges, Reports (edgeKey deps) (fun flow : Record => (flow.bytes, 1))
      (history.take (min 500 (min capacity history.length))) (fun e => (e.source, e.target))
      DashSankeyEdge.traffic DashSankeyEdge.bytes 40 response.sankey edges := by
  have snapshot : flows.snapshot 500 = history.take (min 500 (min capacity history.length)) :=
    represents.snapshot 500
  cases answered
  rw [← snapshot]
  exact ⟨_, edges_report deps _ _⟩

end Mitigador.Api
