import Mitigador.Api.AuthSteps
import Mitigador.Api.Revocation

/-! Whether a session that left the store stays away. A request saves the copy that it loaded when
it began, so one that was under way at the time brings the session back. -/

namespace Mitigador.Api

open Go Lib Users

variable {Hash : Type*}

namespace AuthSystem

def Under (s : AuthSystem Hash) (token : String) (n : Nat) : Prop :=
  ∃ r, s.requests.lookup n = some r ∧ r.session.token = token

/-- The session manager gives the token to a session: at a renewal, or at the end of a request
whose session has none. -/
def Gives (s : AuthSystem Hash) (token : String) : AuthAction → Prop
  | .renew _ fresh _ => fresh = token
  | .finish n fresh _ => fresh = token ∧ s.Under "" n
  | _ => False

instance (s : AuthSystem Hash) (token : String) (n : Nat) : Decidable (s.Under token n) :=
  decidable_of_iff ((s.requests.lookup n).any fun r => r.session.token = token) (by
    simp only [Option.any_eq_true, decide_eq_true_eq, Under])

instance (s : AuthSystem Hash) (token : String) (action : AuthAction) :
    Decidable (s.Gives token action) :=
  match action with
  | .renew _ fresh _ => inferInstanceAs (Decidable (fresh = token))
  | .finish n fresh _ => inferInstanceAs (Decidable (fresh = token ∧ s.Under "" n))
  | .createUser .. | .deleteUser _ | .expire _ | .restart | .begin .. | .verify .. | .touch ..
  | .draw .. | .requireAuth _ | .checkCsrf _ | .handle .. => isFalse id

variable {generate : String → Option Hash} {matching : Hash → String → Bool}
  {s next : AuthSystem Hash} {seen : AuthSeen}

theorem load_named {sessions : KeyedMap String SessionValues} {cookie token : String}
    (nonempty : token ≠ "") (named : (SessionData.load sessions cookie).token = token) :
    cookie = token ∧ (sessions.lookup token).isSome := by
  unfold SessionData.load at named
  split at named
  · exact absurd named.symm nonempty
  · split at named
    · exact absurd named.symm nonempty
    · next stored =>
        obtain rfl : cookie = token := named
        exact ⟨rfl, by rw [stored]; rfl⟩

theorem not_begin {action : AuthAction} {n : Nat} {r : RequestState}
    (moved : s.step generate matching action = some (next, seen))
    (under : s.requests.lookup n = some r) : ∀ route cookie, action ≠ .begin n route cookie := by
  rintro route cookie rfl
  simp only [step] at moved
  split at moved
  · contradiction
  · next free => exact free (AList.lookup_isSome.mp (by rw [under]; rfl))

theorem under_step {action : AuthAction} {token : String} {n : Nat} (nonempty : token ≠ "")
    (away : s.sessions.lookup token = none) (ungiven : ¬ s.Gives token action)
    (moved : s.step generate matching action = some (next, seen)) (under : next.Under token n) :
    s.Under token n ∧ ∀ route cookie, action ≠ .begin n route cookie := by
  obtain ⟨after, there, same⟩ := under
  rcases request_step moved there with before | ⟨route, cookie, rfl, -, rfl⟩ | ⟨r, before, advance⟩
  · exact ⟨⟨after, before, same⟩, not_begin moved before⟩
  · obtain ⟨-, stored⟩ := load_named nonempty same
    rw [away] at stored
    contradiction
  · refine ⟨?_, not_begin moved before⟩
    cases advance with
    | renewed => exact absurd same ungiven
    | destroyed => exact absurd same.symm nonempty
    | verified | drawn | admitted | allowed | answered => exact ⟨r, before, same⟩

variable {start final : AuthSystem Hash} {trace : List (Entry (AuthSystem Hash) AuthAction AuthSeen)}

theorem under_run {token : String} {n : Nat} (nonempty : token ≠ "")
    (run : Run (step generate matching) start trace final)
    (ungiven : ∀ entry ∈ trace, ¬ entry.before.Gives token entry.action)
    (away : ∀ entry ∈ trace, entry.before.sessions.lookup token = none)
    (under : final.Under token n) :
    start.Under token n ∧ ∀ entry ∈ trace, ∀ route cookie, entry.action ≠ .begin n route cookie := by
  induction run with
  | start => exact ⟨under, fun _ impossible => nomatch impossible⟩
  | step past moved ih =>
      rw [List.forall_mem_cons] at ungiven away
      obtain ⟨before, other⟩ := under_step nonempty away.1 ungiven.1 moved under
      obtain ⟨first, others⟩ := ih ungiven.2 away.2 before
      exact ⟨first, List.forall_mem_cons.mpr ⟨other, others⟩⟩

/-- A session comes back by the save of a request that was under way with it when it went. -/
theorem revived_by {token : String} (nonempty : token ≠ "")
    (run : Run (step generate matching) start trace final)
    (ungiven : ∀ entry ∈ trace, ¬ entry.before.Gives token entry.action)
    (gone : start.sessions.lookup token = none)
    (back : (final.sessions.lookup token).isSome) :
    ∃ newer saved older n fresh, trace = newer ++ saved :: older ∧
      saved.action = .finish n fresh false ∧ start.Under token n ∧
      ∀ entry ∈ older, ∀ route cookie, entry.action ≠ .begin n route cookie := by
  rcases run.first_time (P := fun s => (s.sessions.lookup token).isSome) (by simp [gone]) with
    ⟨never, -⟩ | ⟨newer, saved, older, _, rfl, past, away, before, moved, stored⟩
  · exact absurd back never
  · obtain ⟨values, stored⟩ := Option.isSome_iff_exists.mp stored
    rcases session_step moved stored with already | ⟨n, fresh, ended, r, under, -, key, -⟩
    · rw [already] at before
      exact absurd rfl before
    · have named : r.session.token = token := by
        unfold savedKey at key
        split at key
        · next unnamed =>
            have given := ungiven saved (List.mem_append_right _ List.mem_cons_self)
            rw [ended] at given
            exact absurd ⟨key, r, under, unnamed⟩ given
        · exact key
      obtain ⟨first, others⟩ := under_run nonempty past
        (fun entry member => ungiven entry (List.mem_append_right _ (List.mem_cons_of_mem _ member)))
        (fun entry member => Option.not_isSome_iff_eq_none.mp (away entry member))
        ⟨r, under, named⟩
      exact ⟨newer, saved, older, n, fresh, rfl, ended, first, others⟩

theorem logout_gone {n : Nat} {r : RequestState} {header : String}
    (under : s.requests.lookup n = some r) (route : r.route = .logout header)
    (left : s.step generate matching (.handle n false) = some (start, seen)) :
    start.sessions.lookup r.session.token = none ∧
      ∀ token k, token ≠ "" → start.Under token k → k ≠ n ∧ s.Under token k := by
  obtain ⟨-, sessions, requests⟩ := handle_logout under route left
  refine ⟨by rw [sessions, AList.lookup_erase], ?_⟩
  rintro token k nonempty ⟨after, there, same⟩
  rw [requests, KeyedMap.lookup_insert] at there
  split at there
  · cases there
    exact absurd same.symm nonempty
  · next other => exact ⟨other, after, there, same⟩

/-- After a logout its session is found again only where another request that was under way with
it at the logout has saved it since. -/
theorem logout_undone {n : Nat} {r : RequestState} {header : String}
    (under : s.requests.lookup n = some r) (route : r.route = .logout header)
    (nonempty : r.session.token ≠ "")
    (left : s.step generate matching (.handle n false) = some (start, seen))
    (run : Run (step generate matching) start trace final)
    (ungiven : ∀ entry ∈ trace, ¬ entry.before.Gives r.session.token entry.action) :
    ∀ front entry back m asked values, trace = front ++ entry :: back →
      entry.action = .begin m asked r.session.token →
      entry.before.sessions.lookup r.session.token = some values →
      ∃ newer saved older k fresh, back = newer ++ saved :: older ∧
        saved.action = .finish k fresh false ∧ k ≠ n ∧ s.Under r.session.token k ∧
        ∀ entry ∈ older, ∀ route cookie, entry.action ≠ .begin k route cookie := by
  rintro front entry back m asked values rfl - found
  obtain ⟨gone, others⟩ := logout_gone under route left
  have ungiven' : ∀ entry ∈ back, ¬ entry.before.Gives r.session.token entry.action :=
    fun entry member => ungiven entry (List.mem_append_right _ (List.mem_cons_of_mem _ member))
  obtain ⟨newer, saved, older, k, fresh, split, ended, holder, same⟩ :=
    revived_by nonempty run.cut.1 ungiven' gone (by rw [found]; rfl)
  obtain ⟨other, before⟩ := others r.session.token k nonempty holder
  exact ⟨newer, saved, older, k, fresh, split, ended, other, before, same⟩

theorem logout_undone_sample : ∃ (s start final : AuthSystem String) (r : RequestState)
    (trace : Trace String) (entry : Entry (AuthSystem String) AuthAction AuthSeen)
    (back : Trace String) (values : SessionValues),
    s.requests.lookup 2 = some r ∧ r.session.token = "t0" ∧
      s.step sampleGenerate sampleMatching (.handle 2 false) = some (start, .replied .noContent) ∧
      Run (step sampleGenerate sampleMatching) start trace final ∧ trace = entry :: back ∧
      entry.action = .begin 4 .me "t0" ∧ entry.before.sessions.lookup "t0" = some values ∧
      ∃ newer saved older k fresh, back = newer ++ saved :: older ∧
        saved.action = .finish k fresh false ∧ k ≠ 2 ∧ s.Under "t0" k ∧
        ∀ entry ∈ older, ∀ route cookie, entry.action ≠ .begin k route cookie := by
  have executed : ((Run.replay (step sampleGenerate sampleMatching) [] empty
      [.createUser (Time.ofUnix 100) "ana" "" "secret",
        .begin 0 .csrf "", .draw 0 (some "c0"), .finish 0 "s0" false,
        .begin 1 (.login (some ("ana", "secret"))) "s0", .verify 1 false, .renew 1 "t0" false,
        .touch 1 (Time.ofUnix 101) false, .finish 1 "" false, .begin 3 (.other true "") "t0",
        .begin 2 (.logout "c0") "t0", .requireAuth 2, .checkCsrf 2]).bind fun first =>
      (step sampleGenerate sampleMatching first.2 (.handle 2 false)).bind fun left =>
        (Run.replay (step sampleGenerate sampleMatching) [] left.1
          [.finish 2 "" false, .requireAuth 3, .checkCsrf 3, .handle 3 false, .finish 3 "" false,
            .begin 4 .me "t0"]).bind fun made => made.1.head?.map fun entry =>
              ((first.2.requests.lookup 2).map fun r => (r.route, r.session.token), left.2,
                entry.action, (entry.before.sessions.lookup "t0").isSome,
                Run.checks (fun _ entry => decide (¬ entry.before.Gives "t0" entry.action))
                  made.1)) =
      some (some (.logout "c0", "t0"), .replied .noContent, .begin 4 .me "t0", true, true) := by
    decide +kernel
  obtain ⟨⟨first, s⟩, -, executed⟩ := Option.bind_eq_some_iff.mp executed
  obtain ⟨⟨start, seen⟩, left, executed⟩ := Option.bind_eq_some_iff.mp executed
  obtain ⟨⟨trace, final⟩, replayed, executed⟩ := Option.bind_eq_some_iff.mp executed
  obtain ⟨entry, latest, observed⟩ := Option.map_eq_some_iff.mp executed
  obtain ⟨back, rfl⟩ := List.head?_eq_some_iff.mp latest
  simp only [Prod.mk.injEq] at observed
  obtain ⟨there, rfl, asked, found, tested⟩ := observed
  obtain ⟨r, under, same⟩ := Option.map_eq_some_iff.mp there
  obtain ⟨route, token⟩ := Prod.mk.inj same
  obtain ⟨values, found⟩ := Option.isSome_iff_exists.mp found
  have run := Run.of_replay .start replayed
  refine ⟨s, start, final, r, entry :: back, entry, back, values, under, token, left, run, rfl,
    asked, found, ?_⟩
  rw [← token] at asked found tested ⊢
  refine logout_undone under route (by rw [token]; decide) left run ?_ [] entry back 4 .me values
    rfl asked found
  intro entry member
  obtain ⟨front, back, split⟩ := List.append_of_mem member
  exact of_decide_eq_true (Run.of_checks tested front entry back split)

end AuthSystem

end Mitigador.Api
