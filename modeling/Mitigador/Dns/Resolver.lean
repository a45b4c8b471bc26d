import Mathlib.Data.Finset.Basic
import Mitigador.Go.Netip
import Mitigador.Go.Strings
import Mitigador.Go.Time
import Mitigador.Lib.KeyedMap
import Mitigador.Lib.Run

/-! The cache of PTR names (internal/dns/resolver.go). A lookup that misses gives up its read lock
before it takes the write lock, and the fetch that it starts answers at any later time. -/

namespace Mitigador.Dns

open Go Lib

def hitTTL : Duration := 5 * minute
def missTTL : Duration := 30 * second
def maxEntries : Nat := 5000

structure CacheEntry where
  name : String
  expiresAt : Time
  deriving DecidableEq

abbrev Cache := KeyedMap Addr CacheEntry

def Cache.len (cache : Cache) : Nat := cache.keys.length

/-- The eviction loop over the entries in some order; it ends as soon as there is room. -/
def Cache.sweep (now : Time) : List Addr → Cache → Cache
  | [], cache => cache
  | k :: rest, cache =>
      let swept : Cache := match cache.lookup k with
        | some v => if now.after v.expiresAt then cache.erase k else cache
        | none => cache
      if Cache.len swept < maxEntries then swept else Cache.sweep now rest swept

structure Resolver where
  cache : Cache
  pending : Finset Addr

/-- The resolver, the lookups between their two locks with their times, and the fetches. -/
structure Resolving where
  resolver : Resolver
  lookups : List (Addr × Time)
  fetches : List Addr

def Resolving.start : Resolving := ⟨⟨∅, ∅⟩, [], []⟩

/-- The write lock of a lookup comes with an order of the entries for the eviction loop, and with
the entry that the loop after it drops. An answer comes with the names that `LookupAddr` found. -/
inductive Action
  | lookup (ip : Addr) (now : Time)
  | schedule (ip : Addr) (now : Time) (order : List Addr) (victim : Addr)
  | answer (ip : Addr) (names : List String) (now : Time)

def firstName : List String → String
  | [] => ""
  | name :: _ => trimSuffix name "."

/-- One locked part of a call, with what `Lookup` returns if it ends there. -/
def step (s : Resolving) : Action → Option (Resolving × Option String)
  | .lookup ip now =>
      if !ip.isValid || ip.isLoopback || ip.isLinkLocalUnicast then some (s, some "")
      else
        match s.resolver.cache.lookup ip with
        | some e =>
            if now.before e.expiresAt then some (s, some e.name)
            else some ({ s with lookups := (ip, now) :: s.lookups }, none)
        | none => some ({ s with lookups := (ip, now) :: s.lookups }, none)
  | .schedule ip now order victim =>
      if (ip, now) ∉ s.lookups then none
      else
        let lookups := s.lookups.erase (ip, now)
        if ip ∈ s.resolver.pending then some ({ s with lookups := lookups }, some "")
        else if Cache.len s.resolver.cache < maxEntries then
          some (⟨⟨s.resolver.cache, insert ip s.resolver.pending⟩, lookups, ip :: s.fetches⟩,
            some "")
        else if ¬ order.Perm s.resolver.cache.keys then none
        else
          let swept := Cache.sweep now order s.resolver.cache
          if Cache.len swept < maxEntries then
            some (⟨⟨swept, insert ip s.resolver.pending⟩, lookups, ip :: s.fetches⟩, some "")
          else if victim ∉ swept then none
          else
            -- still full: any one entry
            some (⟨⟨swept.erase victim, insert ip s.resolver.pending⟩, lookups, ip :: s.fetches⟩,
              some "")
  | .answer ip names now =>
      if ip ∉ s.fetches then none
      else
        let name := firstName names
        let ttl := if name = "" then missTTL else hitTTL
        some (⟨⟨s.resolver.cache.insert ip ⟨name, now.add ttl⟩, s.resolver.pending.erase ip⟩,
          s.lookups, s.fetches.erase ip⟩, none)

end Mitigador.Dns
