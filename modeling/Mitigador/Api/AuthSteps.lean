import Mitigador.Api.Auth

/-! What one step of the sessions and their requests can do, told once for every action. -/

namespace Mitigador.Api

open Go Lib Users

variable {Hash : Type*}

namespace AuthSystem

variable (matching : Hash → String → Bool)

/-- What a step makes of a request under way. A reply that leaves the session as it was is
`answered`, whichever handler gives it. -/
inductive Advance (s : AuthSystem Hash) (n : Nat) (r : RequestState) :
    AuthAction → AuthSeen → RequestState → Prop
  | verified {username plain : String} {id : Int} {u : User Hash}
      (route : r.route = .login (some (username, plain))) (phase : r.phase = .loaded)
      (passed : Store.verifyPassword matching username plain s.users = .ok (id, u)) :
      Advance s n r (.verify n false) .nothing { r with phase := .verified id }
  | renewed {id : Int} {token : String} (phase : r.phase = .verified id) :
      Advance s n r (.renew n token false) .nothing { r with
        session := { r.session with token := token }.putUserID id
        phase := .greeting id }
  | drawn {token : String} (route : r.route = .csrf) (phase : r.phase = .loaded)
      (missing : r.session.values.csrfToken = "") :
      Advance s n r (.draw n (some token)) (.replied (.token token))
        { r with session := r.session.putCsrfToken token, phase := .done }
  | admitted (route : r.route.guarded = true) (phase : r.phase = .loaded)
      (known : r.session.values.userID ≠ 0) :
      Advance s n r (.requireAuth n) (.admitted r.session.values.userID)
        { r with phase := .admitted }
  | allowed (phase : r.phase = .admitted) (allows : csrfAllows r.route r.session = true) :
      Advance s n r (.checkCsrf n) .nothing { r with phase := .running }
  | destroyed {header : String} (route : r.route = .logout header) (phase : r.phase = .running) :
      Advance s n r (.handle n false) (.replied .noContent)
        { r with session := ⟨"", .empty, .destroyed⟩, phase := .done }
  | answered {action : AuthAction} {answer : AuthReply} :
      Advance s n r action (.replied answer) { r with phase := .done }

def Advances (s next : AuthSystem Hash) (n : Nat) (r : RequestState) (action : AuthAction)
    (seen : AuthSeen) : Prop :=
  ∃ after, Advance matching s n r action seen after ∧
    next.requests = s.requests.insert n after ∧
    ∀ token values, next.sessions.lookup token = some values →
      s.sessions.lookup token = some values

variable {generate : String → Option Hash} {matching} {s next : AuthSystem Hash} {n : Nat}
  {r : RequestState} {seen : AuthSeen}

theorem advances_reply {action : AuthAction} {answer : AuthReply} :
    Advances matching s (s.reply n r answer).1 n r action (.replied answer) :=
  ⟨_, .answered, rfl, fun _ _ stored => stored⟩

theorem verify_advances {failed : Bool}
    (moved : s.verify matching n failed r = some (next, seen)) :
    Advances matching s next n r (.verify n failed) seen := by
  unfold verify at moved
  split at moved
  · cases moved
    exact advances_reply
  · next username plain route phase =>
      split at moved
      · cases moved
        exact advances_reply
      · next succeeded =>
          obtain rfl : failed = false := Bool.eq_false_iff.mpr succeeded
          split at moved
          · cases moved
            exact advances_reply
          · next passed =>
              cases moved
              exact ⟨_, .verified route phase passed, rfl, fun _ _ stored => stored⟩
  · contradiction

theorem renew_advances {token : String} {failed : Bool}
    (moved : s.renew n token failed r = some (next, seen)) :
    Advances matching s next n r (.renew n token failed) seen := by
  unfold renew at moved
  split at moved
  · next id phase =>
      split at moved
      · cases moved
        exact advances_reply
      · next succeeded =>
          obtain rfl : failed = false := Bool.eq_false_iff.mpr succeeded
          cases moved
          exact ⟨_, .renewed phase, rfl, fun _ _ stored => KeyedMap.lookup_of_erase stored⟩
  · contradiction

theorem touch_advances {now : Time} {failed : Bool}
    (moved : s.touch n now failed r = some (next, seen)) :
    Advances matching s next n r (.touch n now failed) seen := by
  unfold touch at moved
  split at moved
  · cases moved
    exact ⟨_, .answered, rfl, fun _ _ stored => stored⟩
  · contradiction

theorem draw_advances {random : Option String}
    (moved : s.draw n random r = some (next, seen)) :
    Advances matching s next n r (.draw n random) seen := by
  unfold draw at moved
  split at moved
  · next route phase =>
      split at moved
      · cases moved
        exact advances_reply
      · next missing =>
          split at moved
          · cases moved
            exact advances_reply
          · cases moved
            exact ⟨_, .drawn route phase (not_not.mp missing), rfl, fun _ _ stored => stored⟩
  · contradiction

theorem requireAuth_advances (moved : s.requireAuth n r = some (next, seen)) :
    Advances matching s next n r (.requireAuth n) seen := by
  unfold requireAuth at moved
  split at moved
  · next asked =>
      dsimp only at moved
      split at moved
      · cases moved
        exact advances_reply
      · next known =>
          cases moved
          exact ⟨_, .admitted asked.1 asked.2 known, rfl, fun _ _ stored => stored⟩
  · contradiction

theorem checkCsrf_advances (moved : s.checkCsrf n r = some (next, seen)) :
    Advances matching s next n r (.checkCsrf n) seen := by
  unfold checkCsrf at moved
  split at moved
  · next phase =>
      split at moved
      · next allows =>
          cases moved
          exact ⟨_, .allowed phase allows, rfl, fun _ _ stored => stored⟩
      · cases moved
        exact advances_reply
  · contradiction

theorem handle_advances {failed : Bool} (moved : s.handle n failed r = some (next, seen)) :
    Advances matching s next n r (.handle n failed) seen := by
  unfold handle at moved
  split at moved
  · next phase =>
      split at moved
      · next route =>
          split at moved
          · cases moved
            exact advances_reply
          · next succeeded =>
              obtain rfl : failed = false := Bool.eq_false_iff.mpr succeeded
              cases moved
              exact ⟨_, .destroyed route phase, rfl,
                fun _ _ stored => KeyedMap.lookup_of_erase stored⟩
      · dsimp only at moved
        split at moved
        · cases moved
          exact advances_reply
        · split at moved
          · cases moved
            exact advances_reply
          · split at moved <;> cases moved <;> exact advances_reply
      · cases moved
        exact advances_reply
  · contradiction

theorem handle_logout {header : String} (under : s.requests.lookup n = some r)
    (route : r.route = .logout header)
    (moved : s.step generate matching (.handle n false) = some (next, seen)) :
    seen = .replied .noContent ∧ next.sessions = s.sessions.erase r.session.token ∧
      next.requests =
        s.requests.insert n { r with session := ⟨"", .empty, .destroyed⟩, phase := .done } := by
  obtain ⟨_, there, handled⟩ := Option.bind_eq_some_iff.mp moved
  cases under.symm.trans there
  obtain ⟨asked, session, phase⟩ := r
  obtain rfl : asked = .logout header := route
  unfold handle at handled
  split at handled
  · cases handled
    exact ⟨rfl, rfl, rfl⟩
  · contradiction

def savedKey (token : String) (r : RequestState) : String :=
  if r.session.token = "" then token else r.session.token

theorem request_step {action : AuthAction} {after : RequestState}
    (moved : s.step generate matching action = some (next, seen))
    (under : next.requests.lookup n = some after) :
    s.requests.lookup n = some after ∨
      (∃ route cookie, action = .begin n route cookie ∧ n ∉ s.requests ∧
        after = ⟨route, SessionData.load s.sessions cookie, .loaded⟩) ∨
      ∃ r, s.requests.lookup n = some r ∧ Advance matching s n r action seen after := by
  have advanced {m : Nat} {r : RequestState} (there : s.requests.lookup m = some r)
      (advances : Advances matching s next m r action seen) :
      s.requests.lookup n = some after ∨
        (∃ route cookie, action = .begin n route cookie ∧ n ∉ s.requests ∧
          after = ⟨route, SessionData.load s.sessions cookie, .loaded⟩) ∨
        ∃ r, s.requests.lookup n = some r ∧ Advance matching s n r action seen after := by
    obtain ⟨made, advance, table, -⟩ := advances
    rw [table, KeyedMap.lookup_insert] at under
    split at under
    · next own =>
        subst own
        cases under
        exact .inr (.inr ⟨r, there, advance⟩)
    · exact .inl under
  cases action with
  | createUser | deleteUser | expire =>
      cases moved
      exact .inl under
  | restart =>
      cases moved
      contradiction
  | begin m route cookie =>
      simp only [step] at moved
      split at moved
      · contradiction
      · next free =>
          cases moved
          rw [set, KeyedMap.lookup_insert] at under
          split at under
          · next own =>
              subst own
              cases under
              exact .inr (.inl ⟨route, cookie, rfl, free, rfl⟩)
          · exact .inl under
  | verify =>
      obtain ⟨r, there, moved⟩ := Option.bind_eq_some_iff.mp moved
      exact advanced there (verify_advances moved)
  | renew =>
      obtain ⟨r, there, moved⟩ := Option.bind_eq_some_iff.mp moved
      exact advanced there (renew_advances moved)
  | touch =>
      obtain ⟨r, there, moved⟩ := Option.bind_eq_some_iff.mp moved
      exact advanced there (touch_advances moved)
  | draw =>
      obtain ⟨r, there, moved⟩ := Option.bind_eq_some_iff.mp moved
      exact advanced there (draw_advances moved)
  | requireAuth =>
      obtain ⟨r, there, moved⟩ := Option.bind_eq_some_iff.mp moved
      exact advanced there (requireAuth_advances moved)
  | checkCsrf =>
      obtain ⟨r, there, moved⟩ := Option.bind_eq_some_iff.mp moved
      exact advanced there (checkCsrf_advances moved)
  | handle =>
      obtain ⟨r, there, moved⟩ := Option.bind_eq_some_iff.mp moved
      exact advanced there (handle_advances moved)
  | finish m token failed =>
      obtain ⟨r, there, moved⟩ := Option.bind_eq_some_iff.mp moved
      unfold finish at moved
      split at moved
      · dsimp only at moved
        split at moved <;> cases moved <;> exact .inl (KeyedMap.lookup_of_erase under)
      · contradiction

def Saves (s : AuthSystem Hash) (n : Nat) (fresh token : String) (values : SessionValues) : Prop :=
  ∃ r, s.requests.lookup n = some r ∧ r.session.status = .modified ∧ savedKey fresh r = token ∧
    r.session.values = values

theorem session_step {action : AuthAction} {token : String} {values : SessionValues}
    (moved : s.step generate matching action = some (next, seen))
    (stored : next.sessions.lookup token = some values) :
    s.sessions.lookup token = some values ∨
      ∃ n fresh, action = .finish n fresh false ∧ s.Saves n fresh token values := by
  have advanced {m : Nat} {r : RequestState} (advances : Advances matching s next m r action seen) :
      s.sessions.lookup token = some values := by
    obtain ⟨_, -, -, sessions⟩ := advances
    exact sessions token values stored
  cases action with
  | createUser | deleteUser | restart =>
      cases moved
      exact .inl stored
  | expire =>
      cases moved
      exact .inl (KeyedMap.lookup_of_erase stored)
  | begin =>
      simp only [step] at moved
      split at moved
      · contradiction
      · cases moved
        exact .inl stored
  | verify =>
      obtain ⟨r, -, moved⟩ := Option.bind_eq_some_iff.mp moved
      exact .inl (advanced (verify_advances moved))
  | renew =>
      obtain ⟨r, -, moved⟩ := Option.bind_eq_some_iff.mp moved
      have advances : Advances matching .. := renew_advances moved
      exact .inl (advanced advances)
  | touch =>
      obtain ⟨r, -, moved⟩ := Option.bind_eq_some_iff.mp moved
      exact .inl (advanced (touch_advances moved))
  | draw =>
      obtain ⟨r, -, moved⟩ := Option.bind_eq_some_iff.mp moved
      exact .inl (advanced (draw_advances moved))
  | requireAuth =>
      obtain ⟨r, -, moved⟩ := Option.bind_eq_some_iff.mp moved
      exact .inl (advanced (requireAuth_advances moved))
  | checkCsrf =>
      obtain ⟨r, -, moved⟩ := Option.bind_eq_some_iff.mp moved
      exact .inl (advanced (checkCsrf_advances moved))
  | handle =>
      obtain ⟨r, -, moved⟩ := Option.bind_eq_some_iff.mp moved
      exact .inl (advanced (handle_advances moved))
  | finish n fresh failed =>
      obtain ⟨r, under, ended⟩ := Option.bind_eq_some_iff.mp moved
      unfold finish at ended
      split at ended
      · dsimp only at ended
        split at ended
        · next saved =>
            obtain ⟨modified, rfl⟩ := saved
            cases ended
            rw [KeyedMap.lookup_insert] at stored
            change (if token = savedKey fresh r then some r.session.values else _) = _ at stored
            split at stored
            · next own =>
                exact .inr ⟨n, fresh, rfl, r, under, modified, own.symm, Option.some.inj stored⟩
            · exact .inl stored
        · cases ended
          exact .inl stored
      · contradiction

end AuthSystem

end Mitigador.Api
