import Mitigador.Dns.Bound

/-! What a cached name tells: it is that of the last answer for its address, and not expired. -/

namespace Mitigador.Dns

open Go Lib

/-- The addresses that `Lookup` does not turn away at once. -/
def eligible (ip : Addr) : Bool := ip.isValid && !ip.isLoopback && !ip.isLinkLocalUnicast

def ttlOf (names : List String) : Duration := if firstName names = "" then missTTL else hitTTL

def stored (answer : List String × Time) : CacheEntry :=
  ⟨firstName answer.1, answer.2.add (ttlOf answer.1)⟩

def Action.answerFor (ip : Addr) : Action → Option (List String × Time)
  | .answer other names now => if other = ip then some (names, now) else none
  | .lookup .. | .schedule .. => none

def lastAnswer (ip : Addr) (trace : Trace) : Option (List String × Time) :=
  trace.findSome? fun entry => entry.action.answerFor ip

/-- A fetch that is started while the cache is full makes it forget entries. -/
def Forgets (s : Resolving) : Action → Prop
  | .schedule ip .. => ip ∉ s.resolver.pending ∧ maxEntries ≤ Cache.len s.resolver.cache
  | .lookup .. | .answer .. => False

theorem Cache.lookup_of_sweep {now : Time} {order : List Addr} {cache : Cache} {ip : Addr}
    {e : CacheEntry} (found : (Cache.sweep now order cache).lookup ip = some e) :
    cache.lookup ip = some e := by
  induction order generalizing cache with
  | nil => exact found
  | cons k rest ih =>
      have kept : ∀ {swept : Cache}, swept = cache ∨ swept = cache.erase k →
          swept.lookup ip = some e → cache.lookup ip = some e := by
        rintro swept (rfl | rfl) held
        · exact held
        · exact KeyedMap.lookup_of_erase held
      rw [Cache.sweep] at found
      split at found
      · split_ifs at found
        · exact kept (.inr rfl) found
        · exact kept (.inr rfl) (ih found)
        · exact kept (.inl rfl) found
        · exact kept (.inl rfl) (ih found)
      · split_ifs at found
        · exact kept (.inl rfl) found
        · exact kept (.inl rfl) (ih found)

section Step

variable {s next : Resolving} {output : Option String}

/-- A write lock starts at most one fetch, of the address that was looked up; entries only go, and
only from a full cache. -/
theorem schedule_cases {ip : Addr} {now : Time} {order : List Addr} {victim : Addr}
    (moved : step s (.schedule ip now order victim) = some (next, output)) :
    (ip, now) ∈ s.lookups ∧ next.lookups = s.lookups.erase (ip, now) ∧
      (next.fetches = s.fetches ∨ next.fetches = ip :: s.fetches) ∧
      (∀ other e, next.resolver.cache.lookup other = some e →
        s.resolver.cache.lookup other = some e) ∧
      (¬ Forgets s (.schedule ip now order victim) → next.resolver.cache = s.resolver.cache) := by
  simp only [step] at moved
  split at moved
  · contradiction
  · next queued =>
      have queued : (ip, now) ∈ s.lookups := not_not.mp queued
      split at moved
      · cases moved
        exact ⟨queued, rfl, .inl rfl, fun _ _ => id, fun _ => rfl⟩
      · next free =>
        split at moved
        · cases moved
          exact ⟨queued, rfl, .inr rfl, fun _ _ => id, fun _ => rfl⟩
        · next full =>
            have forgets : Forgets s (.schedule ip now order victim) := ⟨free, not_lt.mp full⟩
            split at moved
            · contradiction
            · split at moved
              · cases moved
                exact ⟨queued, rfl, .inr rfl, fun _ _ => Cache.lookup_of_sweep,
                  fun calm => absurd forgets calm⟩
              · split at moved
                · contradiction
                · cases moved
                  exact ⟨queued, rfl, .inr rfl,
                    fun _ _ found => Cache.lookup_of_sweep (KeyedMap.lookup_of_erase found),
                    fun calm => absurd forgets calm⟩

theorem lookup_cases {ip : Addr} {now : Time}
    (moved : step s (.lookup ip now) = some (next, output)) :
    eligible ip = false ∧ next = s ∧ output = some "" ∨
      eligible ip = true ∧ (∃ e, s.resolver.cache.lookup ip = some e ∧
        now.before e.expiresAt = true ∧ next = s ∧ output = some e.name) ∨
      eligible ip = true ∧ (∀ e, s.resolver.cache.lookup ip = some e →
        now.before e.expiresAt = false) ∧
        next = { s with lookups := (ip, now) :: s.lookups } ∧ output = none := by
  simp only [step] at moved
  split at moved
  · next away =>
      cases moved
      refine .inl ⟨?_, rfl, rfl⟩
      simp only [eligible]
      revert away
      cases ip.isValid <;> cases ip.isLoopback <;> cases ip.isLinkLocalUnicast <;> simp
  · next allowed =>
      have allowed : eligible ip = true := by
        simp only [eligible]
        revert allowed
        cases ip.isValid <;> cases ip.isLoopback <;> cases ip.isLinkLocalUnicast <;> simp
      right
      split at moved
      · next e found =>
          split at moved
          · next fresh =>
              cases moved
              exact .inl ⟨allowed, e, found, fresh, rfl, rfl⟩
          · next expired =>
              cases moved
              refine .inr ⟨allowed, fun other same => ?_, rfl, rfl⟩
              cases found.symm.trans same
              simpa using expired
      · next missing =>
          cases moved
          refine .inr ⟨allowed, fun other same => ?_, rfl, rfl⟩
          rw [missing] at same
          contradiction

end Step

structure Latest (trace : Trace) (s : Resolving) : Prop where
  sound : ∀ ip e, s.resolver.cache.lookup ip = some e → (lastAnswer ip trace).map stored = some e
  full : (∀ entry ∈ trace, ¬ Forgets entry.before entry.action) →
    ∀ ip, s.resolver.cache.lookup ip = (lastAnswer ip trace).map stored
  lookups : ∀ ip now, (ip, now) ∈ s.lookups → eligible ip = true
  fetches : ∀ ip ∈ s.fetches, eligible ip = true

theorem lastAnswer_cons (ip : Addr) (entry : Entry Resolving Action (Option String))
    (trace : Trace) :
    lastAnswer ip (entry :: trace) = (entry.action.answerFor ip).or (lastAnswer ip trace) := by
  rw [lastAnswer, List.findSome?_cons]
  cases entry.action.answerFor ip <;> rfl

theorem latest {trace : Trace} {final : Resolving}
    (run : Run step Resolving.start trace final) : Latest trace final := by
  induction run with
  | start => exact ⟨nofun, fun _ _ => rfl, nofun, nofun⟩
  | @step trace s next action output past moved ih =>
      obtain ⟨sound, full, lookups, fetches⟩ := ih
      have older : (∀ entry ∈ (⟨s, action, output⟩ : Entry ..) :: trace,
          ¬ Forgets entry.before entry.action) →
            ∀ entry ∈ trace, ¬ Forgets entry.before entry.action :=
        fun calm => (List.forall_mem_cons.mp calm).2
      cases action with
      | lookup ip now =>
          have silent : ∀ other, lastAnswer other (⟨s, .lookup ip now, output⟩ :: trace) =
              lastAnswer other trace := fun other => lastAnswer_cons ..
          obtain ⟨kept, queued, fetched⟩ : next.resolver = s.resolver ∧
              (∀ pair ∈ next.lookups, pair ∈ s.lookups ∨ eligible pair.1 = true) ∧
              next.fetches = s.fetches := by
            rcases lookup_cases moved with ⟨-, rfl, -⟩ | ⟨-, _, -, -, rfl, -⟩ | ⟨allowed, -, rfl, -⟩
            · exact ⟨rfl, fun _ => .inl, rfl⟩
            · exact ⟨rfl, fun _ => .inl, rfl⟩
            · refine ⟨rfl, fun pair there => ?_, rfl⟩
              rcases List.mem_cons.mp there with rfl | earlier
              · exact .inr allowed
              · exact .inl earlier
          refine ⟨fun other e found => ?_, fun calm other => ?_, fun other time there => ?_, ?_⟩
          · rw [silent]
            exact sound other e (kept ▸ found)
          · rw [silent, kept]
            exact full (older calm) other
          · exact (queued _ there).elim (lookups other time) id
          · rw [fetched]
            exact fetches
      | schedule ip now order victim =>
          have silent : ∀ other, lastAnswer other
              (⟨s, .schedule ip now order victim, output⟩ :: trace) = lastAnswer other trace :=
            fun other => lastAnswer_cons ..
          obtain ⟨queued, left, fetched, fewer, same⟩ := schedule_cases moved
          refine ⟨fun other e found => ?_, fun calm other => ?_, fun other time there => ?_, ?_⟩
          · rw [silent]
            exact sound other e (fewer other e found)
          · rw [silent, same ((List.forall_mem_cons.mp calm).1)]
            exact full (older calm) other
          · rw [left] at there
            exact lookups other time (List.mem_of_mem_erase there)
          · intro other there
            rcases fetched with kept | grown
            · exact fetches other (kept ▸ there)
            · rw [grown] at there
              rcases List.mem_cons.mp there with rfl | earlier
              · exact lookups _ _ queued
              · exact fetches other earlier
      | answer ip names now =>
          simp only [step] at moved
          split at moved
          · contradiction
          · cases moved
            have answered : ∀ other, (lastAnswer other
                (⟨s, .answer ip names now, none⟩ :: trace)).map stored =
                  if ip = other then some (stored (names, now))
                  else (lastAnswer other trace).map stored := by
              intro other
              rw [lastAnswer_cons, Action.answerFor]
              split <;> rfl
            refine ⟨fun other e found => ?_, fun calm other => ?_, lookups, fun other there => ?_⟩
            · rw [answered]
              by_cases own : ip = other
              · subst own
                rw [AList.lookup_insert] at found
                rw [if_pos rfl, ← found]
                rfl
              · rw [AList.lookup_insert_ne (Ne.symm own)] at found
                rw [if_neg own]
                exact sound other e found
            · rw [answered]
              by_cases own : ip = other
              · subst own
                rw [AList.lookup_insert, if_pos rfl]
                rfl
              · rw [AList.lookup_insert_ne (Ne.symm own), if_neg own]
                exact full (older calm) other
            · exact fetches other (List.mem_of_mem_erase there)

/-- What `Lookup` answers at any moment of a run. A name is that of the last answer for its
address and at most five minutes old; as long as no fetch is started while the cache is full, an
answer that has not expired is always found; and nothing is ever asked of the name servers about
an address that is invalid, of the loopback or link-local. -/
theorem lookup_latest {trace : Trace} {final next : Resolving}
    (run : Run step Resolving.start trace final) {ip : Addr} {now : Time} {output : Option String}
    (moved : step final (.lookup ip now) = some (next, output)) :
    (∀ name, output = some name → name ≠ "" → ∃ names answered,
        lastAnswer ip trace = some (names, answered) ∧ firstName names = name ∧
          now.before (answered.add hitTTL) = true) ∧
      ((∀ entry ∈ trace, ¬ Forgets entry.before entry.action) → eligible ip = true →
        ∀ names answered, lastAnswer ip trace = some (names, answered) →
          now.before (answered.add (ttlOf names)) = true → output = some (firstName names)) ∧
      ∀ other ∈ final.fetches, eligible other = true := by
  obtain ⟨sound, full, -, fetches⟩ := latest run
  refine ⟨?_, ?_, fetches⟩
  · intro name returned named
    rcases lookup_cases moved with ⟨-, -, empty⟩ | ⟨-, e, found, fresh, -, hit⟩ | ⟨-, -, -, miss⟩
    · cases empty.symm.trans returned
      contradiction
    · obtain ⟨⟨names, answered⟩, last, same⟩ := Option.map_eq_some_iff.mp (sound ip e found)
      cases hit.symm.trans returned
      rw [← same] at named fresh ⊢
      have five : ttlOf names = hitTTL := if_neg named
      have fresh : now.before (answered.add (ttlOf names)) = true := fresh
      rw [five] at fresh
      exact ⟨names, answered, last, rfl, fresh⟩
    · cases miss.symm.trans returned
  · intro calm allowed names answered last fresh
    have held := full calm ip
    rw [last, Option.map_some] at held
    rcases lookup_cases moved with ⟨away, -, -⟩ | ⟨-, e, found, -, -, hit⟩ | ⟨-, expired, -, -⟩
    · rw [allowed] at away
      contradiction
    · cases held.symm.trans found
      exact hit
    · have stale := expired _ held
      rw [stored] at stale
      rw [fresh] at stale
      contradiction

theorem lookup_latest_sample : ∃ (trace : Trace) (final next : Resolving) (names : List String)
    (answered : Time),
    step final (.lookup (.v4 0x08080808) (Time.ofUnix 342)) = some (next, some "dns.google") ∧
      lastAnswer (.v4 0x08080808) trace = some (names, answered) ∧
      firstName names = "dns.google" := by
  have executed : (Run.replay step [] Resolving.start
      [.lookup (.v4 0x08080808) (Time.ofUnix 100),
        .schedule (.v4 0x08080808) (Time.ofUnix 100) [] .invalid,
        .answer (.v4 0x08080808) ["dns.google."] (Time.ofUnix 102)]).map
        (fun made => (step made.2 (.lookup (.v4 0x08080808) (Time.ofUnix 342))).map Prod.snd) =
      some (some (some "dns.google")) := by
    decide +kernel
  obtain ⟨⟨trace, final⟩, replayed, observed⟩ := Option.map_eq_some_iff.mp executed
  obtain ⟨⟨next, output⟩, moved, returned⟩ := Option.map_eq_some_iff.mp observed
  obtain rfl : output = some "dns.google" := returned
  have run := Run.of_replay .start replayed
  obtain ⟨names, answered, last, named, -⟩ :=
    (lookup_latest run moved).1 "dns.google" rfl (by decide)
  exact ⟨trace, final, next, names, answered, moved, last, named⟩

end Mitigador.Dns
