import Mitigador.Lib.Run
import Mitigador.Subscriber.RouterStore

/-! The handlers of /api/mikrotik/routers that write (internal/api/mikrotik.go). -/

namespace Mitigador.Api

open Go Lib Subscriber

structure DashRouterDTO where
  id : Int
  name : String
  url : String
  username : String
  hasPassword : Bool
  verifyTLS : Bool
  enabled : Bool
  createdAt : Time
  updatedAt : Time
  deriving DecidableEq

def toDTO (id : Int) (r : Router) : DashRouterDTO where
  id := id
  name := r.name
  url := r.url
  username := r.username
  hasPassword := r.password != ""
  verifyTLS := r.verifyTLS
  enabled := r.enabled
  createdAt := r.createdAt
  updatedAt := r.updatedAt

inductive RouterResponse
  | router (status : Nat) (dto : DashRouterDTO)
  | error (status : Nat) (error : String) (detail : Option String)
  | noContent
  deriving DecidableEq

structure CreateRouterReq where
  name : String
  url : String
  username : String
  password : String
  verifyTLS : Bool
  enabled : Option Bool

/-- The fields that the handler hands to the store are those of its request. -/
abbrev UpdateRouterReq := UpdateFields

namespace CreateRouterReq

/-- The text of the first condition that fails, empty where none does. -/
def validate (c : CreateRouterReq) : String :=
  if trimSpace c.name = "" then "name is required"
  else if trimSpace c.url = "" then "url is required"
  else if !hasPrefix c.url "http://" && !hasPrefix c.url "https://" then
    "url must start with http:// or https://"
  else if trimSpace c.username = "" then "username is required"
  else if c.password = "" then "password is required"
  else ""

def router (c : CreateRouterReq) : Router where
  name := trimSpace c.name
  url := trimRight (trimSpace c.url) "/"
  username := trimSpace c.username
  password := c.password
  verifyTLS := c.verifyTLS
  enabled := c.enabled.getD true
  createdAt := Time.zero
  updatedAt := Time.zero

end CreateRouterReq

def isUniqueViolation (text : String) : Bool :=
  contains text "SQLSTATE 23505" || contains text "unique constraint"

def writeFailure (failed : String) (err : StoreError) : RouterResponse :=
  if isUniqueViolation err.text then .error 409 "name_taken" none else .error 500 failed none

/-- `handleCreateMikrotikRouter`; a body that does not decode is `none`. -/
def handleCreateMikrotikRouter (fault : Fault) (now : Time) (body : Option CreateRouterReq)
    (t : RouterTable) : RouterTable × RouterResponse :=
  match body with
  | none => (t, .error 400 "invalid_json" none)
  | some req =>
      if req.validate ≠ "" then (t, .error 400 "invalid_param" (some req.validate))
      else
        match RouterStore.create fault now req.router t with
        | (next, .ok (id, row)) => (next, .router 201 (toDTO id row))
        | (next, .error err) => (next, writeFailure "create_failed" err)

/-- `handlePatchMikrotikRouter`; an id that does not parse is `none`. -/
def handlePatchMikrotikRouter (fault : Fault) (now : Time) (id : Option Int)
    (body : Option UpdateRouterReq) (t : RouterTable) : RouterTable × RouterResponse :=
  match id with
  | none => (t, .error 400 "invalid_id" none)
  | some id =>
      match body with
      | none => (t, .error 400 "invalid_json" none)
      | some req =>
          match RouterStore.update fault now id req t with
          | (next, .ok (id, row)) => (next, .router 200 (toDTO id row))
          | (next, .error .routerNotFound) => (next, .error 404 "not_found" none)
          | (next, .error err) => (next, writeFailure "update_failed" err)

/-- `handleDeleteMikrotikRouter`, where a taken name is not looked for. -/
def handleDeleteMikrotikRouter (fault : Fault) (id : Option Int) (t : RouterTable) :
    RouterTable × RouterResponse :=
  match id with
  | none => (t, .error 400 "invalid_id" none)
  | some id =>
      match RouterStore.delete fault id t with
      | (next, .ok ()) => (next, .noContent)
      | (next, .error .routerNotFound) => (next, .error 404 "not_found" none)
      | (next, .error (.wrapped _)) => (next, .error 500 "delete_failed" none)

inductive RouterRequest
  | post (body : Option CreateRouterReq)
  | patch (id : Option Int) (body : Option UpdateRouterReq)
  | delete (id : Option Int)

structure RouterCall where
  request : RouterRequest
  now : Time
  fault : Fault

def serveRouters (t : RouterTable) (call : RouterCall) : RouterTable × RouterResponse :=
  match call.request with
  | .post body => handleCreateMikrotikRouter call.fault call.now body t
  | .patch id body => handlePatchMikrotikRouter call.fault call.now id body t
  | .delete id => handleDeleteMikrotikRouter call.fault id t

end Mitigador.Api
