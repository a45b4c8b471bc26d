import Mitigador.Lib.Run
import Mitigador.Users.Store

/-! Sessions and the requests that use them (internal/api/auth.go, middleware.go and csrf.go). The
session manager loads a copy of the session when a request begins and saves it when the request
ends; with its idle timeout every session that was found counts as modified. -/

namespace Mitigador.Api

open Go Lib Users

variable {Hash : Type*}

/-- The two keys of a session; a missing key reads as the zero value. -/
structure SessionValues where
  userID : Int
  csrfToken : String
  deriving DecidableEq, Repr

def SessionValues.empty : SessionValues := ⟨0, ""⟩

inductive SessionStatus
  | unmodified
  | modified
  | destroyed
  deriving DecidableEq, Repr

/-- The copy of a session in the context of a request; a new session has no token yet. -/
structure SessionData where
  token : String
  values : SessionValues
  status : SessionStatus
  deriving DecidableEq, Repr

/-- What a request asks for; `header` is its X-CSRF-Token. -/
inductive Route
  | login (body : Option (String × String))
  | csrf
  | logout (header : String)
  | me
  | other (safe : Bool) (header : String)
  deriving DecidableEq, Repr

inductive AuthPhase
  | loaded
  | verified (id : Int)
  | greeting (id : Int)
  | admitted
  | running
  | done
  deriving DecidableEq, Repr

structure RequestState where
  route : Route
  session : SessionData
  phase : AuthPhase
  deriving DecidableEq, Repr

structure AuthSystem (Hash : Type*) where
  users : UserTable Hash
  sessions : KeyedMap String SessionValues
  requests : KeyedMap Nat RequestState

inductive AuthReply
  | noContent
  | error (status : Nat) (text : String)
  | token (text : String)
  | me (id : Int) (username email : String) (lastLogin : Option Time)
  | served
  deriving DecidableEq

inductive AuthSeen
  | nothing
  | admitted (uid : Int)
  | replied (reply : AuthReply)
  deriving DecidableEq

/-- The commands of the operator, the end of a session by its expiry, a restart of the program,
and the parts of the request `n` between which others may run. -/
inductive AuthAction
  | createUser (now : Time) (username email plain : String)
  | deleteUser (username : String)
  | expire (token : String)
  | restart
  | begin (n : Nat) (route : Route) (cookie : String)
  | verify (n : Nat) (failed : Bool)
  | renew (n : Nat) (token : String) (failed : Bool)
  | touch (n : Nat) (now : Time) (failed : Bool)
  | draw (n : Nat) (random : Option String)
  | requireAuth (n : Nat)
  | checkCsrf (n : Nat)
  | handle (n : Nat) (failed : Bool)
  | finish (n : Nat) (token : String) (failed : Bool)
  deriving DecidableEq

namespace SessionData

def load (sessions : KeyedMap String SessionValues) (cookie : String) : SessionData :=
  if cookie = "" then ⟨"", .empty, .unmodified⟩
  else
    match sessions.lookup cookie with
    | none => ⟨"", .empty, .unmodified⟩
    | some values => ⟨cookie, values, .modified⟩

def putUserID (id : Int) (data : SessionData) : SessionData :=
  { data with values := { data.values with userID := id }, status := .modified }

def putCsrfToken (token : String) (data : SessionData) : SessionData :=
  { data with values := { data.values with csrfToken := token }, status := .modified }

end SessionData

def csrfAllows (route : Route) (session : SessionData) : Bool :=
  let check (header : String) :=
    session.values.csrfToken != "" && header == session.values.csrfToken
  match route with
  | .login _ | .csrf | .me => true
  | .logout header => check header
  | .other safe header => safe || check header

def Route.guarded : Route → Bool
  | login _ | csrf => false
  | logout _ | me | other _ _ => true

namespace AuthSystem

def empty : AuthSystem Hash := ⟨UserTable.empty, ∅, ∅⟩

def set (s : AuthSystem Hash) (n : Nat) (r : RequestState) : AuthSystem Hash :=
  { s with requests := s.requests.insert n r }

def reply (s : AuthSystem Hash) (n : Nat) (r : RequestState) (answer : AuthReply) :
    AuthSystem Hash × AuthSeen :=
  (s.set n { r with phase := .done }, .replied answer)

variable (generate : String → Option Hash) (matching : Hash → String → Bool)

/-- `handleLogin` up to the password check. -/
def verify (n : Nat) (failed : Bool) (r : RequestState) (s : AuthSystem Hash) :
    Option (AuthSystem Hash × AuthSeen) :=
  match r.route, r.phase with
  | .login none, .loaded => some (s.reply n r (.error 400 "bad_request"))
  | .login (some (username, plain)), .loaded =>
      if failed then some (s.reply n r (.error 401 "invalid_credentials"))
      else
        match Store.verifyPassword matching username plain s.users with
        | .error _ => some (s.reply n r (.error 401 "invalid_credentials"))
        | .ok (id, _) => some (s.set n { r with phase := .verified id }, .nothing)
  | _, _ => none

/-- `RenewToken` and `Put` of `handleLogin`. -/
def renew (n : Nat) (token : String) (failed : Bool) (r : RequestState) (s : AuthSystem Hash) :
    Option (AuthSystem Hash × AuthSeen) :=
  match r.phase with
  | .verified id =>
      if failed then some (s.reply n r (.error 500 "session_error"))
      else
        let dropped := { s with sessions := s.sessions.erase r.session.token }
        some (dropped.set n { r with
          session := { r.session with token := token }.putUserID id
          phase := .greeting id }, .nothing)
  | _ => none

/-- `UpdateLastLogin`, whose error is ignored, and the reply of `handleLogin`. -/
def touch (n : Nat) (now : Time) (failed : Bool) (r : RequestState) (s : AuthSystem Hash) :
    Option (AuthSystem Hash × AuthSeen) :=
  match r.phase with
  | .greeting id =>
      let users := if failed then s.users else Store.updateLastLogin now id s.users
      some (AuthSystem.reply { s with users := users } n r .noContent)
  | _ => none

def draw (n : Nat) (random : Option String) (r : RequestState) (s : AuthSystem Hash) :
    Option (AuthSystem Hash × AuthSeen) :=
  match r.route, r.phase with
  | .csrf, .loaded =>
      if r.session.values.csrfToken ≠ "" then
        some (s.reply n r (.token r.session.values.csrfToken))
      else
        match random with
        | none => some (s.reply n r (.error 500 "internal"))
        | some token =>
            some (s.reply n { r with session := r.session.putCsrfToken token } (.token token))
  | _, _ => none

def requireAuth (n : Nat) (r : RequestState) (s : AuthSystem Hash) :
    Option (AuthSystem Hash × AuthSeen) :=
  if r.route.guarded ∧ r.phase = .loaded then
    let uid := r.session.values.userID
    if uid = 0 then some (s.reply n r (.error 401 "not_authenticated"))
    else some (s.set n { r with phase := .admitted }, .admitted uid)
  else none

def checkCsrf (n : Nat) (r : RequestState) (s : AuthSystem Hash) :
    Option (AuthSystem Hash × AuthSeen) :=
  if r.phase = .admitted then
    if csrfAllows r.route r.session then some (s.set n { r with phase := .running }, .nothing)
    else some (s.reply n r (.error 403 "csrf_invalid"))
  else none

/-- `handleLogout`, which ignores an error, `handleMe`, and any other handler. -/
def handle (n : Nat) (failed : Bool) (r : RequestState) (s : AuthSystem Hash) :
    Option (AuthSystem Hash × AuthSeen) :=
  if r.phase = .running then
    match r.route with
    | .logout _ =>
        if failed then some (s.reply n r .noContent)
        else
          let dropped := { s with sessions := s.sessions.erase r.session.token }
          some (dropped.reply n { r with session := ⟨"", .empty, .destroyed⟩ } .noContent)
    | .me =>
        let uid := r.session.values.userID
        if uid = 0 then some (s.reply n r (.error 401 "not_authenticated"))
        else if failed then some (s.reply n r (.error 401 "not_authenticated"))
        else
          match Store.getByID uid s.users with
          | .error _ => some (s.reply n r (.error 401 "not_authenticated"))
          | .ok u => some (s.reply n r (.me uid u.username u.email u.lastLogin))
    | _ => some (s.reply n r .served)
  else none

/-- The commit of the session manager; a session without a token gets the given one. -/
def finish (n : Nat) (token : String) (failed : Bool) (r : RequestState) (s : AuthSystem Hash) :
    Option (AuthSystem Hash × AuthSeen) :=
  if r.phase = .done then
    let gone := { s with requests := s.requests.erase n }
    if r.session.status = .modified ∧ failed = false then
      let key := if r.session.token = "" then token else r.session.token
      some ({ gone with sessions := s.sessions.insert key r.session.values }, .nothing)
    else some (gone, .nothing)
  else none

def step (s : AuthSystem Hash) : AuthAction → Option (AuthSystem Hash × AuthSeen)
  | .createUser now username email plain =>
      some ({ s with users := (Store.create generate now username email plain s.users).1 },
        .nothing)
  | .deleteUser username =>
      some ({ s with users := (Store.delete username s.users).1 }, .nothing)
  | .expire token => some ({ s with sessions := s.sessions.erase token }, .nothing)
  | .restart => some ({ s with requests := ∅ }, .nothing)
  | .begin n route cookie =>
      if n ∈ s.requests then none
      else some (s.set n ⟨route, SessionData.load s.sessions cookie, .loaded⟩, .nothing)
  | .verify n failed => (s.requests.lookup n).bind fun r => s.verify matching n failed r
  | .renew n token failed => (s.requests.lookup n).bind fun r => s.renew n token failed r
  | .touch n now failed => (s.requests.lookup n).bind fun r => s.touch n now failed r
  | .draw n random => (s.requests.lookup n).bind fun r => s.draw n random r
  | .requireAuth n => (s.requests.lookup n).bind fun r => s.requireAuth n r
  | .checkCsrf n => (s.requests.lookup n).bind fun r => s.checkCsrf n r
  | .handle n failed => (s.requests.lookup n).bind fun r => s.handle n failed r
  | .finish n token failed => (s.requests.lookup n).bind fun r => s.finish n token failed r

end AuthSystem

end Mitigador.Api
