import Mitigador.Api.AuthSteps
import Mitigador.Api.Revocation

/-! Where a session of a user comes from: a login renews the token before it puts the user in. -/

namespace Mitigador.Api

open Go Lib Users

variable {Hash : Type*}

namespace AuthSystem

def Carries (s : AuthSystem Hash) (token : String) (id : Int) : Prop :=
  (∃ values, s.sessions.lookup token = some values ∧ values.userID = id) ∨
    ∃ n r, s.requests.lookup n = some r ∧ r.session.token = token ∧ r.session.values.userID = id

def Anonymous (s : AuthSystem Hash) : Prop :=
  ∀ n r, s.requests.lookup n = some r → r.session.token = "" → r.session.values.userID = 0

def Renews (s : AuthSystem Hash) (action : AuthAction) (token : String) (id : Int) : Prop :=
  ∃ n r, action = .renew n token false ∧ s.requests.lookup n = some r ∧ r.phase = .verified id

def PasswordPassed (matching : Hash → String → Bool) (s : AuthSystem Hash) (n : Nat)
    (action : AuthAction) (id : Int) : Prop :=
  ∃ r username plain u, action = .verify n false ∧ s.requests.lookup n = some r ∧
    r.route = .login (some (username, plain)) ∧
    Store.verifyPassword matching username plain s.users = .ok (id, u)

variable {generate : String → Option Hash} {matching : Hash → String → Bool}
  {s next : AuthSystem Hash} {seen : AuthSeen}

theorem anonymous_load (sessions : KeyedMap String SessionValues) {cookie : String}
    (unnamed : (SessionData.load sessions cookie).token = "") :
    (SessionData.load sessions cookie).values.userID = 0 := by
  unfold SessionData.load at unnamed ⊢
  split
  · rfl
  · next named =>
      rw [if_neg named] at unnamed
      split at unnamed
      · rfl
      · exact absurd unnamed named

theorem anonymous_step {action : AuthAction} (anonymous : s.Anonymous)
    (named : ∀ n failed, action ≠ .renew n "" failed)
    (moved : s.step generate matching action = some (next, seen)) : next.Anonymous := by
  intro n after under unnamed
  rcases request_step moved under with before | ⟨route, cookie, -, -, rfl⟩ | ⟨r, before, advance⟩
  · exact anonymous n after before unnamed
  · exact anonymous_load s.sessions unnamed
  · cases advance with
    | renewed phase =>
        obtain rfl : _ = "" := unnamed
        exact absurd rfl (named n false)
    | verified | drawn | admitted | allowed | answered => exact anonymous n r before unnamed
    | destroyed => rfl

theorem carries_load {sessions : KeyedMap String SessionValues} {cookie token : String} {id : Int}
    (nonzero : id ≠ 0) (named : (SessionData.load sessions cookie).token = token)
    (own : (SessionData.load sessions cookie).values.userID = id) :
    ∃ values, sessions.lookup token = some values ∧ values.userID = id := by
  unfold SessionData.load at named own
  split at named
  · next missing =>
      rw [if_pos missing] at own
      exact absurd own.symm nonzero
  · next present =>
      rw [if_neg present] at own
      cases stored : sessions.lookup cookie with
      | none =>
          rw [stored] at own
          exact absurd own.symm nonzero
      | some values =>
          rw [stored] at named own
          exact ⟨values, named ▸ stored, own⟩

theorem carries_step {action : AuthAction} {token : String} {id : Int} (nonzero : id ≠ 0)
    (anonymous : s.Anonymous) (moved : s.step generate matching action = some (next, seen))
    (carries : next.Carries token id) : s.Carries token id ∨ s.Renews action token id := by
  rcases carries with ⟨values, stored, own⟩ | ⟨n, after, under, same, own⟩
  · rcases session_step moved stored with before | ⟨n, fresh, -, r, under, -, key, rfl⟩
    · exact .inl (.inl ⟨values, before, own⟩)
    · unfold savedKey at key
      split at key
      · next unnamed => exact absurd (own.symm.trans (anonymous n r under unnamed)) nonzero
      · exact .inl (.inr ⟨n, r, under, key, own⟩)
  · rcases request_step moved under with before | ⟨route, cookie, -, -, rfl⟩ | ⟨r, before, advance⟩
    · exact .inl (.inr ⟨n, after, before, same, own⟩)
    · exact .inl (.inl (carries_load nonzero same own))
    · cases advance with
      | renewed phase =>
          obtain rfl : _ = token := same
          obtain rfl : _ = id := own
          exact .inr ⟨n, r, rfl, before, phase⟩
      | destroyed => exact absurd own.symm nonzero
      | verified | drawn | admitted | allowed | answered =>
          exact .inl (.inr ⟨n, r, before, same, own⟩)

theorem verified_step {action : AuthAction} {n : Nat} {id : Int}
    (moved : s.step generate matching action = some (next, seen))
    (verified : ∃ r, next.requests.lookup n = some r ∧ r.phase = .verified id) :
    (∃ r, s.requests.lookup n = some r ∧ r.phase = .verified id) ∨
      PasswordPassed matching s n action id := by
  obtain ⟨after, under, phase⟩ := verified
  rcases request_step moved under with before | ⟨route, cookie, -, -, rfl⟩ | ⟨r, before, advance⟩
  · exact .inl ⟨after, before, phase⟩
  · contradiction
  · cases advance with
    | verified route _ passed =>
        cases phase
        exact .inr ⟨r, _, _, _, rfl, before, route, passed⟩
    | renewed | drawn | admitted | allowed | destroyed | answered => contradiction

def presents (token : String) : AuthAction → Bool
  | .begin _ _ cookie => cookie == token
  | _ => false

/-- The session manager draws tokens at random: none is empty, and no request has presented one
before a renewal gives it. -/
def FreshRenewal (back : List (Entry (AuthSystem Hash) AuthAction AuthSeen)) : AuthAction → Prop
  | .renew _ token _ => token ≠ "" ∧ ∀ older ∈ back, presents token older.action = false
  | _ => True

instance (back : List (Entry (AuthSystem Hash) AuthAction AuthSeen)) (action : AuthAction) :
    Decidable (FreshRenewal back action) :=
  match action with
  | .renew _ token _ =>
      inferInstanceAs (Decidable (token ≠ "" ∧ ∀ older ∈ back, presents token older.action = false))
  | .createUser .. | .deleteUser _ | .expire _ | .restart | .begin .. | .verify .. | .touch ..
  | .draw .. | .requireAuth _ | .checkCsrf _ | .handle .. | .finish .. => isTrue trivial

variable {trace : List (Entry (AuthSystem Hash) AuthAction AuthSeen)} {final : AuthSystem Hash}

theorem anonymous_run (run : Run (step generate matching) empty trace final)
    (fresh : ∀ front entry back, trace = front ++ entry :: back →
      FreshRenewal back entry.action) : final.Anonymous := by
  apply run.invariant (fun back _ action => FreshRenewal back action) (fun _ s => s.Anonymous)
  · intro n r impossible
    contradiction
  · intro back s action next seen _ anonymous guard moved
    refine anonymous_step anonymous ?_ moved
    rintro n failed rfl
    exact guard.1 rfl
  · exact fresh

theorem verified_run (run : Run (step generate matching) empty trace final) {n : Nat} {id : Int}
    (verified : ∃ r, final.requests.lookup n = some r ∧ r.phase = .verified id) :
    ∃ check ∈ trace, PasswordPassed matching check.before n check.action id := by
  have unchecked : ¬ ∃ r, (empty : AuthSystem Hash).requests.lookup n = some r ∧
      r.phase = .verified id := by
    rintro ⟨_, impossible, -⟩
    contradiction
  rcases run.first_time
      (P := fun s => ∃ r, s.requests.lookup n = some r ∧ r.phase = .verified id) unchecked with
    ⟨never, -⟩ | ⟨front, check, back, _, rfl, -, -, before, moved, after⟩
  · exact absurd verified never
  · rcases verified_step moved after with already | passed
    · exact absurd already before
    · exact ⟨check, List.mem_append_right _ List.mem_cons_self, passed⟩

theorem carries_run (run : Run (step generate matching) empty trace final)
    (fresh : ∀ front entry back, trace = front ++ entry :: back → FreshRenewal back entry.action)
    {token : String} {id : Int} (nonzero : id ≠ 0) (carries : final.Carries token id) :
    ∃ later renewal earlier, trace = later ++ renewal :: earlier ∧
      renewal.before.Renews renewal.action token id := by
  have unknown : ¬ (empty : AuthSystem Hash).Carries token id := by
    rintro (⟨_, impossible, -⟩ | ⟨_, _, impossible, -⟩) <;> contradiction
  rcases run.first_time (P := fun s => s.Carries token id) unknown with
    ⟨never, -⟩ | ⟨later, renewal, earlier, _, rfl, past, -, before, moved, after⟩
  · exact absurd carries never
  · have fresh' : ∀ front entry back, earlier = front ++ entry :: back →
        FreshRenewal back entry.action :=
      Run.guarded_of_suffix ((List.suffix_cons ..).trans (List.suffix_append ..)) fresh
    rcases carries_step nonzero (anonymous_run past fresh') moved after with already | renews
    · exact absurd already before
    · exact ⟨later, renewal, earlier, rfl, renews⟩

/-- Whoever passes the gate does so under a token that a login got after the check of the user's
password, and that no request had presented until then. -/
theorem admitted_renewed (run : Run (step generate matching) empty trace final)
    (fresh : ∀ front entry back, trace = front ++ entry :: back →
      FreshRenewal back entry.action) :
    ∀ front entry back n uid r, trace = front ++ entry :: back → entry.action = .requireAuth n →
      entry.output = .admitted uid → entry.before.requests.lookup n = some r →
      ∃ later renewal earlier login, back = later ++ renewal :: earlier ∧
        renewal.action = .renew login r.session.token false ∧
        (∃ check ∈ earlier, PasswordPassed matching check.before login check.action uid) ∧
        ∀ older ∈ earlier, presents r.session.token older.action = false := by
  rintro front entry back n uid r rfl asked passed under
  obtain ⟨past, next, moved, -⟩ := run.cut
  have older : back <:+ front ++ entry :: back :=
    (List.suffix_cons entry back).trans (List.suffix_append ..)
  have fresh' := Run.guarded_of_suffix older fresh
  have gate : uid ≠ 0 ∧ r.session.values.userID = uid := by
    rw [asked, passed, step, under] at moved
    simp only [Option.bind_some, requireAuth] at moved
    split at moved
    · split at moved
      · cases moved
      · next known =>
          cases moved
          exact ⟨known, rfl⟩
    · contradiction
  obtain ⟨later, renewal, earlier, rfl, login, state, renewed, waiting, phase⟩ :=
    carries_run past fresh' gate.1 (.inr ⟨n, r, under, rfl, gate.2⟩)
  refine ⟨later, renewal, earlier, login, rfl, renewed, ?_, ?_⟩
  · exact verified_run past.cut.1 ⟨state, waiting, phase⟩
  · have unseen := fresh' later renewal earlier rfl
    rw [renewed] at unseen
    exact unseen.2

theorem admitted_renewed_sample : ∃ (trace : Trace String) (final : AuthSystem String),
    Run (step sampleGenerate sampleMatching) empty trace final ∧
      trace.map Entry.output = [.admitted 1, .nothing, .nothing, .replied .noContent, .nothing,
        .nothing, .nothing, .nothing] ∧
      ∀ front entry back n uid r, trace = front ++ entry :: back →
        entry.action = .requireAuth n → entry.output = .admitted uid →
        entry.before.requests.lookup n = some r →
        ∃ later renewal earlier login, back = later ++ renewal :: earlier ∧
          renewal.action = .renew login r.session.token false ∧
          (∃ check ∈ earlier, PasswordPassed sampleMatching check.before login check.action uid) ∧
          ∀ older ∈ earlier, presents r.session.token older.action = false := by
  have executed : (Run.replay (step sampleGenerate sampleMatching) [] empty
      [.createUser (Time.ofUnix 100) "ana" "" "secret",
        .begin 0 (.login (some ("ana", "secret"))) "planted", .verify 0 false,
        .renew 0 "t0" false, .touch 0 (Time.ofUnix 101) false, .finish 0 "" false,
        .begin 1 .me "t0", .requireAuth 1]).map
      (fun made : Trace String × AuthSystem String => (made.1.map Entry.output,
        Run.checks (fun back entry => decide (FreshRenewal back entry.action)) made.1)) =
      some ([.admitted 1, .nothing, .nothing, .replied .noContent, .nothing, .nothing, .nothing,
        .nothing], true) := by
    decide +kernel
  obtain ⟨⟨trace, final⟩, replayed, observed⟩ := Option.map_eq_some_iff.mp executed
  rw [Prod.mk.injEq] at observed
  have run : Run (step sampleGenerate sampleMatching) empty trace final :=
    Run.of_replay .start replayed
  refine ⟨trace, final, run, observed.1, ?_⟩
  apply admitted_renewed run
  intro front entry back split
  exact of_decide_eq_true (Run.of_checks observed.2 front entry back split)

end AuthSystem

end Mitigador.Api
