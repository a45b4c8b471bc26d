import Mitigador.Api.CsrfToken

/-! A page and the token that it caches (web/src/api/client.ts), beside the server and everybody
else's requests. `clearCSRF` is exported and never called, so only a reload forgets the token. -/

namespace Mitigador.Web

open Go Lib Users Api

variable {Hash : Type*}

/-- The module variable of a page, the requests of `ensureCSRF` under way and their replies, and
the headers of the calls that are about to send. -/
structure ApiClient where
  csrfToken : Option String
  fetching : List Nat
  replies : List (Nat × String)
  headers : List String
  deriving DecidableEq, Repr

namespace ApiClient

def loaded : ApiClient := ⟨none, [], [], []⟩

/-- The test `if (csrfToken)`. -/
def cached (c : ApiClient) : Option String := c.csrfToken.filter (· != "")

def hear (action : AuthAction) (seen : AuthSeen) (c : ApiClient) : ApiClient :=
  match action, seen with
  | .draw n _, .replied (.token token) =>
      if n ∈ c.fetching then
        { c with fetching := c.fetching.erase n, replies := c.replies ++ [(n, token)] }
      else c
  | _, _ => c

end ApiClient

structure ClientSystem (Hash : Type*) where
  server : AuthSystem Hash
  client : ApiClient

/-- A step of the server, which anybody's requests may take, or a step of the page: a call of `api`
for an unsafe method with a token or without one, the reply of `ensureCSRF`, the request of the
call, and a reload. -/
inductive ClientAction
  | server (action : AuthAction)
  | call
  | fetch (n : Nat) (cookie : String)
  | receive (n : Nat) (token : String)
  | send (n : Nat) (route : Route) (cookie header : String)
  | reload
  deriving DecidableEq

namespace ClientSystem

variable (generate : String → Option Hash) (matching : Hash → String → Bool)

def request (n : Nat) (route : Route) (cookie : String) (client : ApiClient)
    (s : ClientSystem Hash) : Option (ClientSystem Hash × AuthSeen) :=
  (s.server.step generate matching (.begin n route cookie)).map fun moved =>
    (⟨moved.1, client⟩, moved.2)

def step (s : ClientSystem Hash) : ClientAction → Option (ClientSystem Hash × AuthSeen)
  | .server action =>
      (s.server.step generate matching action).map fun moved =>
        (⟨moved.1, s.client.hear action moved.2⟩, moved.2)
  | .call =>
      s.client.cached.map fun token =>
        (⟨s.server, { s.client with headers := s.client.headers ++ [token] }⟩, .nothing)
  | .fetch n cookie =>
      if s.client.cached = none then
        s.request generate matching n .csrf cookie
          { s.client with fetching := s.client.fetching ++ [n] }
      else none
  | .receive n token =>
      if (n, token) ∈ s.client.replies then
        some (⟨s.server, { s.client with
          csrfToken := some token
          replies := s.client.replies.erase (n, token)
          headers := s.client.headers ++ [token] }⟩, .nothing)
      else none
  | .send n route cookie header =>
      if header ∈ s.client.headers ∧ ∀ sent ∈ route.compared, sent = header then
        s.request generate matching n route cookie
          { s.client with headers := s.client.headers.erase header }
      else none
  | .reload => some (⟨s.server, .loaded⟩, .nothing)

end ClientSystem

structure ApiClient.Settled (c : ApiClient) (token : String) : Prop where
  cached : c.csrfToken = some token
  nonempty : token ≠ ""
  fetching : c.fetching = []
  replies : c.replies = []
  headers : ∀ header ∈ c.headers, header = token

namespace ClientSystem

structure Stranded (s : ClientSystem Hash) (token : String) : Prop where
  settled : s.client.Settled token
  unborne : ¬ s.server.Bears token

variable {generate : String → Option Hash} {matching : Hash → String → Bool}
  {s next : ClientSystem Hash} {seen : AuthSeen} {token : String}

theorem hear_settled {c : ApiClient} (settled : c.Settled token) (action : AuthAction)
    (seen : AuthSeen) : (c.hear action seen) = c := by
  unfold ApiClient.hear
  split
  · rw [if_neg (by rw [settled.fetching]; exact List.not_mem_nil)]
  · rfl

theorem cached_settled {c : ApiClient} (settled : c.Settled token) : c.cached = some token := by
  rw [ApiClient.cached, settled.cached]
  simp [settled.nonempty]

/-- The server does not draw the token anew, and the page is not loaded anew. -/
def Quiet (token : String) : ClientAction → Prop
  | .server (.draw _ random) => random ≠ some token
  | .reload => False
  | _ => True

instance (token : String) (action : ClientAction) : Decidable (Quiet token action) :=
  match action with
  | .server (.draw _ random) => inferInstanceAs (Decidable (random ≠ some token))
  | .reload => isFalse id
  | .server (.createUser ..) | .server (.deleteUser _) | .server (.expire _) | .server .restart
  | .server (.begin ..) | .server (.verify ..) | .server (.renew ..) | .server (.touch ..)
  | .server (.requireAuth _) | .server (.checkCsrf _) | .server (.handle ..)
  | .server (.finish ..) | .call | .fetch .. | .receive .. | .send .. => isTrue trivial

theorem unborne_step {action : AuthAction} {server after : AuthSystem Hash}
    (nonempty : token ≠ "") (unborne : ¬ server.Bears token)
    (quiet : ∀ n, action ≠ .draw n (some token))
    (moved : server.step generate matching action = some (after, seen)) : ¬ after.Bears token := by
  intro bears
  rcases AuthSystem.bears_step nonempty moved bears with already | ⟨n, drawn, -⟩
  · exact unborne already
  · exact quiet n drawn

theorem stranded_step {action : ClientAction} (stranded : s.Stranded token)
    (quiet : Quiet token action)
    (moved : s.step generate matching action = some (next, seen)) : next.Stranded token := by
  have settled := stranded.settled
  cases action with
  | server action =>
      obtain ⟨⟨after, told⟩, ran, same⟩ := Option.map_eq_some_iff.mp moved
      cases same
      refine ⟨?_, unborne_step settled.nonempty stranded.unborne ?_ ran⟩
      · rw [hear_settled settled]
        exact settled
      · rintro n rfl
        exact quiet rfl
  | call =>
      obtain ⟨held, cached, same⟩ := Option.map_eq_some_iff.mp moved
      rw [cached_settled settled] at cached
      cases cached
      cases same
      refine ⟨⟨settled.cached, settled.nonempty, settled.fetching, settled.replies, ?_⟩,
        stranded.unborne⟩
      intro header member
      rcases List.mem_append.mp member with old | fresh
      · exact settled.headers header old
      · exact List.mem_singleton.mp fresh
  | fetch n cookie =>
      rw [step, cached_settled settled] at moved
      contradiction
  | receive n other =>
      rw [step, settled.replies] at moved
      contradiction
  | send n route cookie header =>
      simp only [step] at moved
      split at moved
      · obtain ⟨⟨after, told⟩, begun, same⟩ := Option.map_eq_some_iff.mp moved
        cases same
        refine ⟨⟨settled.cached, settled.nonempty, settled.fetching, settled.replies, ?_⟩,
          unborne_step settled.nonempty stranded.unborne (by rintro _ impossible; contradiction)
            begun⟩
        intro sent member
        exact settled.headers sent (List.mem_of_mem_erase member)
      · contradiction
  | reload => exact absurd quiet id

theorem stranded_refused {n : Nat} {r : RequestState} (stranded : s.Stranded token)
    (under : s.server.requests.lookup n = some r) (compared : r.route.compared = some token)
    (moved : s.step generate matching (.server (.checkCsrf n)) = some (next, seen)) :
    seen = .replied (.error 403 "csrf_invalid") := by
  obtain ⟨⟨after, told⟩, ran, same⟩ := Option.map_eq_some_iff.mp moved
  cases same
  obtain ⟨_, there, check⟩ := Option.bind_eq_some_iff.mp ran
  cases under.symm.trans there
  unfold AuthSystem.checkCsrf at check
  split at check
  · rw [if_neg] at check
    · cases check
      rfl
    · rw [csrfAllows_compared compared]
      rintro ⟨-, own⟩
      exact stranded.unborne (.inr ⟨n, r, under, own⟩)
  · contradiction

/-- Where only the session of the logout bears the token, and only its own request. -/
structure Sole (s : ClientSystem Hash) (token : String) (n : Nat) (r : RequestState) : Prop where
  under : s.server.requests.lookup n = some r
  stored : ∀ key values, s.server.sessions.lookup key = some values →
    values.csrfToken = token → key = r.session.token
  alone : ∀ m other, s.server.requests.lookup m = some other →
    other.session.values.csrfToken = token → m = n

theorem sole_of_entries {n : Nat} {r : RequestState} (under : s.server.requests.lookup n = some r)
    (stored : ∀ entry ∈ s.server.sessions.entries, entry.2.csrfToken = token →
      entry.1 = r.session.token)
    (alone : ∀ entry ∈ s.server.requests.entries, entry.2.session.values.csrfToken = token →
      entry.1 = n) : s.Sole token n r where
  under := under
  stored key values found := stored ⟨key, values⟩ ((KeyedMap.mem_entries ..).mpr found)
  alone m other found := alone ⟨m, other⟩ ((KeyedMap.mem_entries ..).mpr found)

theorem stranded_of_logout {start : ClientSystem Hash} {n : Nat} {r : RequestState}
    {header : String} (settled : s.client.Settled token) (sole : s.Sole token n r)
    (route : r.route = .logout header)
    (left : s.step generate matching (.server (.handle n false)) = some (start, seen)) :
    start.Stranded token := by
  obtain ⟨⟨after, told⟩, ran, same⟩ := Option.map_eq_some_iff.mp left
  cases same
  obtain ⟨-, sessions, requests⟩ := AuthSystem.handle_logout sole.under route ran
  refine ⟨by rw [hear_settled settled]; exact settled, ?_⟩
  rintro (⟨key, values, stored, own⟩ | ⟨m, other, under, own⟩)
  · rw [sessions] at stored
    obtain rfl := sole.stored key values (KeyedMap.lookup_of_erase stored) own
    rw [AList.lookup_erase] at stored
    contradiction
  · rw [requests, KeyedMap.lookup_insert] at under
    split at under
    · cases under
      exact settled.nonempty own.symm
    · next different => exact different (sole.alone m other under own)

/-- After a logout with no `ensureCSRF` under way a page keeps the token that the logout took from
the server: every unsafe request that it sends until the next reload carries that token, and each
one behind the CSRF check is refused. A GET carries no token, and a login passes. -/
theorem logout_strands {start final : ClientSystem Hash} {n : Nat} {r : RequestState}
    {header : String} {trace : List (Entry (ClientSystem Hash) ClientAction AuthSeen)}
    (settled : s.client.Settled token) (sole : s.Sole token n r)
    (route : r.route = .logout header)
    (left : s.step generate matching (.server (.handle n false)) = some (start, seen))
    (run : Run (step generate matching) start trace final)
    (quiet : ∀ front entry back, trace = front ++ entry :: back → Quiet token entry.action) :
    final.client.csrfToken = some token ∧
      ∀ front entry back, trace = front ++ entry :: back →
        (∀ m asked cookie sent, entry.action = .send m asked cookie sent → sent = token) ∧
        ∀ m other, entry.action = .server (.checkCsrf m) →
          entry.before.server.requests.lookup m = some other →
          other.route.compared = some token →
          entry.output = .replied (.error 403 "csrf_invalid") := by
  have stranded {trace : List (Entry (ClientSystem Hash) ClientAction AuthSeen)}
      {final : ClientSystem Hash} (run : Run (step generate matching) start trace final)
      (quiet : ∀ front entry back, trace = front ++ entry :: back → Quiet token entry.action) :
      final.Stranded token := by
    apply run.invariant (fun _ _ action => Quiet token action) (fun _ s => s.Stranded token)
    · exact stranded_of_logout settled sole route left
    · intro _ s action next seen _ stranded guard moved
      exact stranded_step stranded guard moved
    · exact quiet
  refine ⟨(stranded run quiet).settled.cached, ?_⟩
  rintro front entry back rfl
  obtain ⟨past, next, moved, -⟩ := run.cut
  have earlier : back <:+ front ++ entry :: back :=
    (List.suffix_cons entry back).trans (List.suffix_append ..)
  have before := stranded past (Run.guarded_of_suffix earlier quiet)
  constructor
  · intro m asked cookie sent action
    rw [action] at moved
    simp only [step] at moved
    split at moved
    · next allowed => exact before.settled.headers sent allowed.1
    · contradiction
  · intro m other action under compared
    rw [action] at moved
    exact stranded_refused before under compared moved

theorem logout_strands_sample : ∃ (s start final : ClientSystem String) (r : RequestState)
    (trace : List (Entry (ClientSystem String) ClientAction AuthSeen)),
    s.server.requests.lookup 2 = some r ∧ r.route = .logout "c0" ∧
      s.step AuthSystem.sampleGenerate AuthSystem.sampleMatching (.server (.handle 2 false)) =
        some (start, .replied .noContent) ∧
      Run (step AuthSystem.sampleGenerate AuthSystem.sampleMatching) start trace final ∧
      (trace.head?.map fun entry => (entry.action, entry.output)) =
        some (.server (.checkCsrf 4), .replied (.error 403 "csrf_invalid")) ∧
      final.client.csrfToken = some "c0" ∧
      ∀ front entry back, trace = front ++ entry :: back →
        (∀ m asked cookie sent, entry.action = .send m asked cookie sent → sent = "c0") ∧
        ∀ m other, entry.action = .server (.checkCsrf m) →
          entry.before.server.requests.lookup m = some other →
          other.route.compared = some "c0" →
          entry.output = .replied (.error 403 "csrf_invalid") := by
  have executed : ((Run.replay (step AuthSystem.sampleGenerate AuthSystem.sampleMatching) []
      ⟨AuthSystem.empty, ApiClient.loaded⟩
      [.server (.createUser (Time.ofUnix 100) "ana" "" "secret"),
        .fetch 0 "", .server (.draw 0 (some "c0")), .server (.finish 0 "s0" false),
        .receive 0 "c0", .send 1 (.login (some ("ana", "secret"))) "s0" "c0",
        .server (.verify 1 false), .server (.renew 1 "t0" false),
        .server (.touch 1 (Time.ofUnix 101) false), .server (.finish 1 "" false), .call,
        .send 2 (.logout "c0") "t0" "c0", .server (.requireAuth 2),
        .server (.checkCsrf 2)]).bind fun first =>
      (step AuthSystem.sampleGenerate AuthSystem.sampleMatching first.2
        (.server (.handle 2 false))).bind fun left =>
        (Run.replay (step AuthSystem.sampleGenerate AuthSystem.sampleMatching) [] left.1
          [.server (.finish 2 "" false), .call,
            .send 3 (.login (some ("ana", "secret"))) "" "c0", .server (.verify 3 false),
            .server (.renew 3 "t1" false), .server (.touch 3 (Time.ofUnix 102) false),
            .server (.finish 3 "" false), .call, .send 4 (.logout "c0") "t1" "c0",
            .server (.requireAuth 4), .server (.checkCsrf 4)]).map fun made =>
              ((first.2.server.requests.lookup 2).map fun r => (r.route, r.session.token),
                first.2.client, left.2,
                decide (made.1.head?.map (fun entry => (entry.action, entry.output)) =
                    some (.server (.checkCsrf 4), .replied (.error 403 "csrf_invalid"))) &&
                  (first.2.server.sessions.entries.all (fun entry =>
                      entry.2.csrfToken = "c0" → entry.1 = "t0") &&
                    (first.2.server.requests.entries.all (fun entry =>
                        entry.2.session.values.csrfToken = "c0" → entry.1 = 2) &&
                      Run.checks (fun _ entry => decide (Quiet "c0" entry.action)) made.1)))) =
      some (some (.logout "c0", "t0"), ⟨some "c0", [], [], []⟩, .replied .noContent, true) := by
    decide +kernel
  obtain ⟨⟨first, s⟩, -, executed⟩ := Option.bind_eq_some_iff.mp executed
  obtain ⟨⟨start, seen⟩, left, executed⟩ := Option.bind_eq_some_iff.mp executed
  obtain ⟨⟨trace, final⟩, replayed, observed⟩ := Option.map_eq_some_iff.mp executed
  simp only [Prod.mk.injEq, Bool.and_eq_true, decide_eq_true_eq] at observed
  obtain ⟨there, client, rfl, latest, stored, alone, tested⟩ := observed
  obtain ⟨r, under, same⟩ := Option.map_eq_some_iff.mp there
  obtain ⟨route, named⟩ := Prod.mk.inj same
  have run := Run.of_replay .start replayed
  have settled : s.client.Settled "c0" := by
    rw [client]
    exact ⟨rfl, by decide, rfl, rfl, fun _ impossible => nomatch impossible⟩
  have sole : s.Sole "c0" 2 r := by
    apply sole_of_entries under
    · intro entry member
      rw [named]
      exact of_decide_eq_true (List.all_eq_true.mp stored entry member)
    · intro entry member
      exact of_decide_eq_true (List.all_eq_true.mp alone entry member)
  refine ⟨s, start, final, r, trace, under, route, left, run, latest, ?_⟩
  refine logout_strands settled sole route left run ?_
  intro front entry back split
  exact of_decide_eq_true (Run.of_checks tested front entry back split)

end ClientSystem

end Mitigador.Web
