import Mitigador.Api.Auth

/-! Whose sessions pass the gate in front of the handlers. -/

namespace Mitigador.Api

open Go Lib Users

variable {Hash : Type*}

def RequestState.Holds (r : RequestState) (id : Int) : Prop :=
  r.session.values.userID = id ∨ r.phase = .verified id

namespace AuthSystem

def Live (s : AuthSystem Hash) (id : Int) : Prop :=
  (∃ token values, s.sessions.lookup token = some values ∧ values.userID = id) ∨
    ∃ n r, s.requests.lookup n = some r ∧ r.Holds id

instance (r : RequestState) (id : Int) : Decidable (r.Holds id) :=
  inferInstanceAs (Decidable (_ ∨ _))

theorem live_iff (s : AuthSystem Hash) (id : Int) :
    s.Live id ↔ (∃ entry ∈ s.sessions.entries, entry.2.userID = id) ∨
      ∃ entry ∈ s.requests.entries, entry.2.Holds id := by
  unfold Live
  simp only [← KeyedMap.mem_entries]
  constructor
  · rintro (⟨token, values, stored, same⟩ | ⟨n, r, under, holds⟩)
    · exact .inl ⟨_, stored, same⟩
    · exact .inr ⟨_, under, holds⟩
  · rintro (⟨entry, stored, same⟩ | ⟨entry, under, holds⟩)
    · exact .inl ⟨entry.1, entry.2, stored, same⟩
    · exact .inr ⟨entry.1, entry.2, under, holds⟩

instance (s : AuthSystem Hash) (id : Int) : Decidable (s.Live id) :=
  decidable_of_iff _ (live_iff s id).symm

/-- What every step but a deletion does: no user goes, and an id that comes to life is the id of a
user. -/
structure Kept (s next : AuthSystem Hash) : Prop where
  users : ∀ id ∈ s.users.rows, id ∈ next.users.rows
  live : ∀ id, id ≠ 0 → next.Live id → s.Live id ∨ id ∈ s.users.rows

theorem live_of_request {s : AuthSystem Hash} {n : Nat} {r : RequestState}
    (under : s.requests.lookup n = some r) {id : Int} (holds : r.Holds id) : s.Live id :=
  .inr ⟨n, r, under, holds⟩

theorem kept_set {s other : AuthSystem Hash} {n : Nat} {r next : RequestState}
    (under : s.requests.lookup n = some r) (users : ∀ id ∈ s.users.rows, id ∈ other.users.rows)
    (sessions : ∀ token values, other.sessions.lookup token = some values →
      s.sessions.lookup token = some values)
    (requests : other.requests = s.requests)
    (holds : ∀ id, id ≠ 0 → next.Holds id → r.Holds id ∨ id ∈ s.users.rows) :
    Kept s (other.set n next) where
  users := users
  live := by
    rintro id nonzero (⟨token, values, stored, same⟩ | ⟨m, state, there, own⟩)
    · exact .inl (.inl ⟨token, values, sessions token values stored, same⟩)
    · rw [set, requests, KeyedMap.lookup_insert] at there
      split at there
      · cases there
        exact (holds id nonzero own).imp_left (live_of_request under)
      · exact .inl (.inr ⟨m, state, there, own⟩)

theorem kept_same {s : AuthSystem Hash} {n : Nat} {r next : RequestState}
    (under : s.requests.lookup n = some r)
    (session : next.session.values.userID = r.session.values.userID)
    (phase : ∀ id, next.phase ≠ .verified id) : Kept s (s.set n next) := by
  apply kept_set under (fun _ known => known) (fun _ _ stored => stored) rfl
  rintro id - (own | verified)
  · exact .inl (.inl (session ▸ own))
  · exact absurd verified (phase id)

theorem kept_done {s : AuthSystem Hash} {n : Nat} {r next : RequestState}
    (under : s.requests.lookup n = some r)
    (session : next.session.values.userID = r.session.values.userID) :
    Kept s (s.set n { next with phase := .done }) :=
  kept_same under session fun _ impossible => by contradiction

theorem known_of_verified {matching : Hash → String → Bool} {username plain : String}
    {t : UserTable Hash} {id : Int} {u : User Hash}
    (passed : Store.verifyPassword matching username plain t = .ok (id, u)) : id ∈ t.rows := by
  unfold Store.verifyPassword at passed
  split at passed
  · contradiction
  · next found =>
      split at passed
      · cases passed
        rw [← AList.lookup_isSome, (UserTable.find_spec found).1]
        rfl
      · contradiction

variable {generate : String → Option Hash} {matching : Hash → String → Bool}
  {s next : AuthSystem Hash} {n : Nat} {r : RequestState} {seen : AuthSeen}

theorem verify_kept {failed : Bool} (under : s.requests.lookup n = some r)
    (moved : s.verify matching n failed r = some (next, seen)) : Kept s next := by
  unfold verify at moved
  split at moved
  · cases moved
    exact kept_done under rfl
  · split at moved
    · cases moved
      exact kept_done under rfl
    · split at moved
      · cases moved
        exact kept_done under rfl
      · next id _ passed =>
          cases moved
          refine kept_set under (fun _ known => known) (fun _ _ stored => stored) rfl ?_
          rintro other - (own | verified)
          · exact .inl (.inl own)
          · cases verified
            exact .inr (known_of_verified passed)
  · contradiction

theorem renew_kept {token : String} {failed : Bool} (under : s.requests.lookup n = some r)
    (moved : s.renew n token failed r = some (next, seen)) : Kept s next := by
  unfold renew at moved
  split at moved
  · next id phase =>
      split at moved
      · cases moved
        exact kept_done under rfl
      · cases moved
        refine kept_set under (fun _ known => known)
          (fun _ _ stored => KeyedMap.lookup_of_erase stored) rfl ?_
        rintro other - (own | verified)
        · obtain rfl : id = other := own
          exact .inl (.inr phase)
        · contradiction
  · contradiction

theorem touch_kept {now : Time} {failed : Bool} (under : s.requests.lookup n = some r)
    (moved : s.touch n now failed r = some (next, seen)) : Kept s next := by
  unfold touch at moved
  split at moved
  · cases moved
    refine kept_set under ?_ (fun _ _ stored => stored) rfl ?_
    · intro other known
      cases failed with
      | true => exact known
      | false => exact Store.mem_updateLastLogin.mpr known
    · rintro other - (own | verified)
      · exact .inl (.inl own)
      · contradiction
  · contradiction

theorem draw_kept {random : Option String} (under : s.requests.lookup n = some r)
    (moved : s.draw n random r = some (next, seen)) : Kept s next := by
  unfold draw at moved
  split at moved
  · split at moved
    · cases moved
      exact kept_done under rfl
    · split at moved
      · cases moved
        exact kept_done under rfl
      · cases moved
        exact kept_done under rfl
  · contradiction

theorem requireAuth_kept (under : s.requests.lookup n = some r)
    (moved : s.requireAuth n r = some (next, seen)) : Kept s next := by
  unfold requireAuth at moved
  split at moved
  · dsimp only at moved
    split at moved
    · cases moved
      exact kept_done under rfl
    · cases moved
      exact kept_same under rfl fun _ impossible => by contradiction
  · contradiction

theorem checkCsrf_kept (under : s.requests.lookup n = some r)
    (moved : s.checkCsrf n r = some (next, seen)) : Kept s next := by
  unfold checkCsrf at moved
  split at moved
  · split at moved
    · cases moved
      exact kept_same under rfl fun _ impossible => by contradiction
    · cases moved
      exact kept_done under rfl
  · contradiction

theorem handle_kept {failed : Bool} (under : s.requests.lookup n = some r)
    (moved : s.handle n failed r = some (next, seen)) : Kept s next := by
  unfold handle at moved
  split at moved
  · split at moved
    · split at moved
      · cases moved
        exact kept_done under rfl
      · cases moved
        refine kept_set under (fun _ known => known)
          (fun _ _ stored => KeyedMap.lookup_of_erase stored) rfl ?_
        rintro other nonzero (own | verified)
        · exact absurd own.symm nonzero
        · contradiction
    · dsimp only at moved
      split at moved
      · cases moved
        exact kept_done under rfl
      · split at moved
        · cases moved
          exact kept_done under rfl
        · split at moved
          · cases moved
            exact kept_done under rfl
          · cases moved
            exact kept_done under rfl
    · cases moved
      exact kept_done under rfl
  · contradiction

theorem finish_kept {token : String} {failed : Bool} (under : s.requests.lookup n = some r)
    (moved : s.finish n token failed r = some (next, seen)) : Kept s next := by
  unfold finish at moved
  split at moved
  · dsimp only at moved
    split at moved
    · cases moved
      constructor
      · exact fun _ known => known
      · rintro id - (⟨key, values, stored, same⟩ | ⟨m, state, there, own⟩)
        · by_cases own : key = if r.session.token = "" then token else r.session.token
          · rw [KeyedMap.lookup_insert, if_pos own] at stored
            cases stored
            exact .inl (live_of_request under (.inl same))
          · rw [KeyedMap.lookup_insert, if_neg own] at stored
            exact .inl (.inl ⟨key, values, stored, same⟩)
        · exact .inl (live_of_request (KeyedMap.lookup_of_erase there) own)
    · cases moved
      constructor
      · exact fun _ known => known
      · rintro id - (stored | ⟨m, state, there, own⟩)
        · exact .inl (.inl stored)
        · exact .inl (live_of_request (KeyedMap.lookup_of_erase there) own)
  · contradiction

theorem begin_kept (route : Route) (cookie : String) :
    Kept s (s.set n ⟨route, SessionData.load s.sessions cookie, .loaded⟩) where
  users _ known := known
  live := by
    rintro id nonzero (stored | ⟨m, state, there, own⟩)
    · exact .inl (.inl stored)
    · rw [set, KeyedMap.lookup_insert] at there
      split at there
      · cases there
        rcases own with loaded | impossible
        · unfold SessionData.load at loaded
          split at loaded
          · exact absurd loaded.symm nonzero
          · split at loaded
            · exact absurd loaded.symm nonzero
            · next values stored => exact .inl (.inl ⟨cookie, values, stored, loaded⟩)
        · contradiction
      · exact .inl (live_of_request there own)

theorem step_kept {action : AuthAction} (other : ∀ username, action ≠ .deleteUser username)
    (moved : s.step generate matching action = some (next, seen)) : Kept s next := by
  cases action with
  | createUser now username email plain =>
      cases moved
      exact ⟨fun _ known => Store.mem_create known, fun _ _ live => .inl live⟩
  | deleteUser username => exact absurd rfl (other username)
  | expire token =>
      cases moved
      constructor
      · exact fun _ known => known
      · rintro id - (⟨key, values, stored, same⟩ | request)
        · exact .inl (.inl ⟨key, values, KeyedMap.lookup_of_erase stored, same⟩)
        · exact .inl (.inr request)
  | restart =>
      cases moved
      constructor
      · exact fun _ known => known
      · rintro id - (stored | ⟨m, state, there, own⟩)
        · exact .inl (.inl stored)
        · contradiction
  | begin n route cookie =>
      simp only [step] at moved
      split at moved
      · contradiction
      · cases moved
        exact begin_kept route cookie
  | verify n failed =>
      obtain ⟨r, under, moved⟩ := Option.bind_eq_some_iff.mp moved
      exact verify_kept under moved
  | renew n token failed =>
      obtain ⟨r, under, moved⟩ := Option.bind_eq_some_iff.mp moved
      exact renew_kept under moved
  | touch n now failed =>
      obtain ⟨r, under, moved⟩ := Option.bind_eq_some_iff.mp moved
      exact touch_kept under moved
  | draw n random =>
      obtain ⟨r, under, moved⟩ := Option.bind_eq_some_iff.mp moved
      exact draw_kept under moved
  | requireAuth n =>
      obtain ⟨r, under, moved⟩ := Option.bind_eq_some_iff.mp moved
      exact requireAuth_kept under moved
  | checkCsrf n =>
      obtain ⟨r, under, moved⟩ := Option.bind_eq_some_iff.mp moved
      exact checkCsrf_kept under moved
  | handle n failed =>
      obtain ⟨r, under, moved⟩ := Option.bind_eq_some_iff.mp moved
      exact handle_kept under moved
  | finish n token failed =>
      obtain ⟨r, under, moved⟩ := Option.bind_eq_some_iff.mp moved
      exact finish_kept under moved

def Owned (s : AuthSystem Hash) : Prop := ∀ id, id ≠ 0 → s.Live id → id ∈ s.users.rows

def Spares (s : AuthSystem Hash) : AuthAction → Prop
  | .deleteUser username =>
      ∀ id u, s.users.rows.lookup id = some u → u.username = username → ¬ s.Live id
  | _ => True

instance (s : AuthSystem Hash) (action : AuthAction) : Decidable (s.Spares action) :=
  match action with
  | .deleteUser username =>
      decidable_of_iff (∀ entry ∈ s.users.rows.entries, entry.2.username = username →
          ¬ s.Live entry.1) (by
        constructor
        · intro every id u stored
          exact every ⟨id, u⟩ ((KeyedMap.mem_entries ..).mpr stored)
        · intro every entry stored
          exact every entry.1 entry.2 ((KeyedMap.mem_entries ..).mp stored))
  | .createUser .. | .expire _ | .restart | .begin .. | .verify .. | .renew .. | .touch ..
  | .draw .. | .requireAuth _ | .checkCsrf _ | .handle .. | .finish .. => isTrue trivial

theorem owned_delete {username : String} (owned : s.Owned)
    (spares : s.Spares (.deleteUser username)) :
    AuthSystem.Owned { s with users := (Store.delete username s.users).1 } := by
  intro id nonzero live
  have alive : s.Live id := live
  have known := owned id nonzero alive
  obtain ⟨u, stored⟩ := Option.isSome_iff_exists.mp (AList.lookup_isSome.mpr known)
  by_cases named : u.username = username
  · exact absurd alive (spares id u stored named)
  · exact Store.mem_delete stored named

theorem owned_step {action : AuthAction} (owned : s.Owned) (spares : s.Spares action)
    (moved : s.step generate matching action = some (next, seen)) : next.Owned := by
  by_cases deletion : ∃ username, action = .deleteUser username
  · obtain ⟨username, rfl⟩ := deletion
    cases moved
    exact owned_delete owned spares
  · have kept := step_kept (fun username same => deletion ⟨username, same⟩) moved
    intro id nonzero live
    rcases kept.live id nonzero live with before | known
    · exact kept.users id (owned id nonzero before)
    · exact kept.users id known

theorem admitted_live {uid : Int}
    (moved : s.step generate matching (.requireAuth n) = some (next, .admitted uid)) :
    uid ≠ 0 ∧ s.Live uid := by
  obtain ⟨r, under, gate⟩ := Option.bind_eq_some_iff.mp moved
  unfold requireAuth at gate
  split at gate
  · dsimp only at gate
    split at gate
    · cases gate
    · next nonzero =>
        cases gate
        exact ⟨nonzero, live_of_request under (.inl rfl)⟩
  · contradiction

abbrev Trace (Hash : Type*) := List (Entry (AuthSystem Hash) AuthAction AuthSeen)

theorem owned_run {trace : Trace Hash} {final : AuthSystem Hash}
    (run : Run (step generate matching) empty trace final)
    (spared : ∀ front entry back, trace = front ++ entry :: back →
      entry.before.Spares entry.action) : final.Owned := by
  apply run.invariant (fun _ s action => s.Spares action) (fun _ s => s.Owned)
  · rintro id - (⟨_, _, impossible, -⟩ | ⟨_, _, impossible, -⟩) <;> contradiction
  · intro _ s action next seen _ owned guard moved
    exact owned_step owned guard moved
  · exact spared

/-- Whoever passes the gate is still in users, in every run whose deletions spare the users that
are live. -/
theorem admitted_known {trace : Trace Hash} {final : AuthSystem Hash}
    (run : Run (step generate matching) empty trace final)
    (spared : ∀ front entry back, trace = front ++ entry :: back →
      entry.before.Spares entry.action) :
    ∀ front entry back n uid, trace = front ++ entry :: back → entry.action = .requireAuth n →
      entry.output = .admitted uid → uid ∈ entry.before.users.rows := by
  rintro front entry back n uid rfl asked passed
  obtain ⟨past, next, moved, -⟩ := run.cut
  rw [asked, passed] at moved
  obtain ⟨nonzero, live⟩ := admitted_live moved
  have earlier : back <:+ front ++ entry :: back :=
    (List.suffix_cons entry back).trans (List.suffix_append ..)
  exact owned_run past (Run.guarded_of_suffix earlier spared) uid nonzero live

def sampleGenerate (plain : String) : Option String := some plain

def sampleMatching (hash plain : String) : Bool := hash == plain

def sampleLogin : List AuthAction :=
  [.createUser (Time.ofUnix 100) "ana" "" "secret",
    .begin 0 (.login (some ("ana", "secret"))) "", .verify 0 false, .renew 0 "t0" false,
    .touch 0 (Time.ofUnix 101) false, .finish 0 "" false]

theorem admitted_known_sample : ∃ (trace : Trace String) (final : AuthSystem String),
    Run (step sampleGenerate sampleMatching) empty trace final ∧
      trace.map Entry.output = [.admitted 1, .nothing, .nothing, .nothing, .nothing,
      .replied .noContent, .nothing, .nothing, .nothing, .nothing] ∧
      ∀ front entry back n uid, trace = front ++ entry :: back → entry.action = .requireAuth n →
        entry.output = .admitted uid → uid ∈ entry.before.users.rows := by
  have executed : (Run.replay (step sampleGenerate sampleMatching) [] empty
      (sampleLogin ++ [.createUser (Time.ofUnix 102) "rui" "" "secret", .begin 1 .me "t0",
        .deleteUser "rui", .requireAuth 1])).map
      (fun made : Trace String × AuthSystem String => (made.1.map Entry.output,
        Run.checks (fun _ entry => decide (entry.before.Spares entry.action)) made.1)) =
      some ([.admitted 1, .nothing, .nothing, .nothing, .nothing, .replied .noContent, .nothing,
        .nothing, .nothing, .nothing], true) := by
    decide +kernel
  obtain ⟨⟨trace, final⟩, replayed, observed⟩ := Option.map_eq_some_iff.mp executed
  rw [Prod.mk.injEq] at observed
  have run : Run (step sampleGenerate sampleMatching) empty trace final :=
    Run.of_replay .start replayed
  refine ⟨trace, final, run, observed.1, ?_⟩
  apply admitted_known run
  intro front entry back split
  exact of_decide_eq_true (Run.of_checks observed.2 front entry back split)

/-- The account goes while its session stays. -/
theorem admitted_deleted : ∃ (trace : Trace String) (final : AuthSystem String),
    Run (step sampleGenerate sampleMatching) empty trace final ∧
      ∃ front entry back, trace = front ++ entry :: back ∧ entry.action = .requireAuth 1 ∧
        entry.output = .admitted 1 ∧ 1 ∉ entry.before.users.rows := by
  have executed : (Run.replay (step sampleGenerate sampleMatching) [] empty
      (sampleLogin ++ [.deleteUser "ana", .begin 1 .me "t0", .requireAuth 1])).map
      (fun made : Trace String × AuthSystem String => made.1.head?.map fun entry =>
        (entry.action, entry.output, decide (1 ∈ entry.before.users.rows))) =
      some (some (.requireAuth 1, .admitted 1, false)) := by
    decide +kernel
  obtain ⟨⟨trace, final⟩, replayed, observed⟩ := Option.map_eq_some_iff.mp executed
  obtain ⟨entry, latest, seen⟩ := Option.map_eq_some_iff.mp observed
  obtain ⟨back, rfl⟩ := List.head?_eq_some_iff.mp latest
  simp only [Prod.mk.injEq, decide_eq_false_iff_not] at seen
  obtain ⟨asked, passed, missing⟩ := seen
  exact ⟨entry :: back, final, Run.of_replay .start replayed, [], entry, back, rfl, asked, passed,
    missing⟩

end AuthSystem

end Mitigador.Api
