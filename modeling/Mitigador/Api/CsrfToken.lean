import Mitigador.Api.Revocation
import Mitigador.Api.AuthSteps

/-! Which header the CSRF check lets through: a token that was drawn, as long as a session bears
it. -/

namespace Mitigador.Api

open Go Lib Users

variable {Hash : Type*}

/-- The header that the check compares; safe methods have none. -/
def Route.compared : Route → Option String
  | .logout header | .other false header => some header
  | .login _ | .csrf | .me | .other true _ => none

theorem csrfAllows_compared {route : Route} {session : SessionData} {header : String}
    (compared : route.compared = some header) :
    csrfAllows route session = true ↔ header ≠ "" ∧ session.values.csrfToken = header := by
  have check : (session.values.csrfToken != "" && header == session.values.csrfToken) = true ↔
      header ≠ "" ∧ session.values.csrfToken = header := by
    simp only [Bool.and_eq_true, bne_iff_ne, beq_iff_eq]
    constructor
    · rintro ⟨nonempty, rfl⟩
      exact ⟨nonempty, rfl⟩
    · rintro ⟨nonempty, rfl⟩
      exact ⟨nonempty, rfl⟩
  cases route with
  | login | csrf | me => contradiction
  | logout sent =>
      cases compared
      exact check
  | other safe sent =>
      cases safe with
      | true => contradiction
      | false =>
          cases compared
          simpa [csrfAllows] using check

namespace AuthSystem

def Bears (s : AuthSystem Hash) (token : String) : Prop :=
  (∃ key values, s.sessions.lookup key = some values ∧ values.csrfToken = token) ∨
    ∃ n r, s.requests.lookup n = some r ∧ r.session.values.csrfToken = token

def Draws (action : AuthAction) (seen : AuthSeen) (token : String) : Prop :=
  ∃ n, action = .draw n (some token) ∧ seen = .replied (.token token)

variable {generate : String → Option Hash} {matching : Hash → String → Bool}
  {s next : AuthSystem Hash} {seen : AuthSeen}

theorem bears_load {sessions : KeyedMap String SessionValues} {cookie token : String}
    (nonempty : token ≠ "")
    (own : (SessionData.load sessions cookie).values.csrfToken = token) :
    ∃ values, sessions.lookup cookie = some values ∧ values.csrfToken = token := by
  unfold SessionData.load at own
  split at own
  · exact absurd own.symm nonempty
  · split at own
    · exact absurd own.symm nonempty
    · next values stored => exact ⟨values, stored, own⟩

theorem bears_step {action : AuthAction} {token : String} (nonempty : token ≠ "")
    (moved : s.step generate matching action = some (next, seen)) (bears : next.Bears token) :
    s.Bears token ∨ Draws action seen token := by
  rcases bears with ⟨key, values, stored, own⟩ | ⟨n, after, under, own⟩
  · rcases session_step moved stored with before | ⟨n, fresh, -, r, under, -, -, rfl⟩
    · exact .inl (.inl ⟨key, values, before, own⟩)
    · exact .inl (.inr ⟨n, r, under, own⟩)
  · rcases request_step moved under with before | ⟨route, cookie, -, -, rfl⟩ | ⟨r, before, advance⟩
    · exact .inl (.inr ⟨n, after, before, own⟩)
    · obtain ⟨values, stored, own⟩ := bears_load nonempty own
      exact .inl (.inl ⟨cookie, values, stored, own⟩)
    · cases advance with
      | drawn =>
          obtain rfl : _ = token := own
          exact .inr ⟨n, rfl, rfl⟩
      | destroyed => exact absurd own.symm nonempty
      | verified | renewed | admitted | allowed | answered => exact .inl (.inr ⟨n, r, before, own⟩)

def Passed (r : RequestState) : Prop :=
  r.session.values.userID ≠ 0 ∧ csrfAllows r.route r.session = true

/-- Who is past the first gate has a user, who is past the second one also the token. -/
structure Gated (s : AuthSystem Hash) : Prop where
  admitted : ∀ n r, s.requests.lookup n = some r → r.phase = .admitted →
    r.session.values.userID ≠ 0
  running : ∀ n r, s.requests.lookup n = some r → r.phase = .running → Passed r

theorem gated_step {action : AuthAction} (gated : s.Gated)
    (moved : s.step generate matching action = some (next, seen)) : next.Gated := by
  constructor
  · intro n after under phase
    rcases request_step moved under with before | ⟨_, _, -, -, rfl⟩ | ⟨r, before, advance⟩
    · exact gated.admitted n after before phase
    · contradiction
    · cases advance with
      | admitted _ _ known => exact known
      | verified | renewed | drawn | allowed | destroyed | answered => contradiction
  · intro n after under phase
    rcases request_step moved under with before | ⟨_, _, -, -, rfl⟩ | ⟨r, before, advance⟩
    · exact gated.running n after before phase
    · contradiction
    · cases advance with
      | allowed waiting allows => exact ⟨gated.admitted n r before waiting, allows⟩
      | verified | renewed | drawn | admitted | destroyed | answered => contradiction

variable {trace : List (Entry (AuthSystem Hash) AuthAction AuthSeen)} {final : AuthSystem Hash}

theorem gated_run (run : Run (step generate matching) empty trace final) : final.Gated := by
  apply run.invariant (fun _ _ _ => True) (fun _ s => s.Gated)
  · constructor <;> (intro n r impossible; contradiction)
  · intro _ s action next seen _ gated _ moved
    exact gated_step gated moved
  · intros
    trivial

theorem bears_run (run : Run (step generate matching) empty trace final) {token : String}
    (nonempty : token ≠ "") (bears : final.Bears token) :
    ∃ drawn ∈ trace, Draws drawn.action drawn.output token := by
  have unknown : ¬ (empty : AuthSystem Hash).Bears token := by
    rintro (⟨_, _, impossible, -⟩ | ⟨_, _, impossible, -⟩) <;> contradiction
  rcases run.first_time (P := fun s => s.Bears token) unknown with
    ⟨never, -⟩ | ⟨front, drawn, back, _, rfl, -, -, before, moved, after⟩
  · exact absurd bears never
  · rcases bears_step nonempty moved after with already | draws
    · exact absurd already before
    · exact ⟨drawn, List.mem_append_right _ List.mem_cons_self, draws⟩

/-- Behind `requireAuth`, a handler for a method that changes something runs for a user only, and
for the token that an earlier request drew. -/
theorem handled_drawn (run : Run (step generate matching) empty trace final) :
    ∀ front entry back n failed r header, trace = front ++ entry :: back →
      entry.action = .handle n failed → entry.before.requests.lookup n = some r →
      r.route.compared = some header →
      r.session.values.userID ≠ 0 ∧ header ≠ "" ∧ r.session.values.csrfToken = header ∧
        ∃ drawn ∈ back, Draws drawn.action drawn.output header := by
  rintro front entry back n failed r header rfl handled under compared
  obtain ⟨past, next, moved, -⟩ := run.cut
  have running : r.phase = .running := by
    rw [handled, step, under] at moved
    simp only [Option.bind_some, handle] at moved
    split at moved
    · assumption
    · contradiction
  obtain ⟨known, allows⟩ := (gated_run past).running n r under running
  obtain ⟨nonempty, same⟩ := (csrfAllows_compared compared).mp allows
  exact ⟨known, nonempty, same, bears_run past nonempty (.inr ⟨n, r, under, same⟩)⟩

theorem handled_drawn_sample : ∃ (trace : Trace String) (final : AuthSystem String),
    Run (step sampleGenerate sampleMatching) empty trace final ∧
      (∃ entry back, trace = entry :: back ∧ entry.action = .handle 2 false ∧
        ∃ r, entry.before.requests.lookup 2 = some r ∧ r.route = .logout "c0") ∧
      ∀ front entry back n failed r header, trace = front ++ entry :: back →
        entry.action = .handle n failed → entry.before.requests.lookup n = some r →
        r.route.compared = some header →
        r.session.values.userID ≠ 0 ∧ header ≠ "" ∧ r.session.values.csrfToken = header ∧
          ∃ drawn ∈ back, Draws drawn.action drawn.output header := by
  have executed : (Run.replay (step sampleGenerate sampleMatching) [] empty
      [.createUser (Time.ofUnix 100) "ana" "" "secret",
        .begin 0 .csrf "", .draw 0 (some "c0"), .finish 0 "s0" false,
        .begin 1 (.login (some ("ana", "secret"))) "s0", .verify 1 false, .renew 1 "t0" false,
        .touch 1 (Time.ofUnix 101) false, .finish 1 "" false,
        .begin 2 (.logout "c0") "t0", .requireAuth 2, .checkCsrf 2, .handle 2 false]).map
      (fun made : Trace String × AuthSystem String => made.1.head?.map fun entry =>
        (entry.action, (entry.before.requests.lookup 2).map RequestState.route)) =
      some (some (.handle 2 false, some (.logout "c0"))) := by
    decide +kernel
  obtain ⟨⟨trace, final⟩, replayed, observed⟩ := Option.map_eq_some_iff.mp executed
  obtain ⟨entry, latest, seen⟩ := Option.map_eq_some_iff.mp observed
  obtain ⟨back, rfl⟩ := List.head?_eq_some_iff.mp latest
  obtain ⟨handled, under⟩ := Prod.mk.inj seen
  have run : Run (step sampleGenerate sampleMatching) empty (entry :: back) final :=
    Run.of_replay .start replayed
  exact ⟨entry :: back, final, run, ⟨entry, back, rfl, handled, Option.map_eq_some_iff.mp under⟩,
    handled_drawn run⟩

end AuthSystem

end Mitigador.Api
