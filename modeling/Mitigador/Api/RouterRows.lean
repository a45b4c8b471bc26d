import Mitigador.Api.Mikrotik

/-! Which requests keep the rows of mikrotik_routers valid. -/

namespace Mitigador.Api

open Go Lib Subscriber

def schemes : List String := ["http://", "https://"]

/-- The runes after the scheme, where there is one. -/
def afterScheme (url : String) : Option (List Char) :=
  (schemes.find? fun scheme => hasPrefix url scheme).map fun scheme =>
    url.toList.drop scheme.toList.length

def hostPart (rest : List Char) : List Char :=
  rest.takeWhile fun r => !"/?#".toList.contains r

def HasHost (url : String) : Prop := ∃ rest ∈ afterScheme url, hostPart rest ≠ []

instance (url : String) : Decidable (HasHost url) :=
  decidable_of_iff ((afterScheme url).any fun rest => !(hostPart rest).isEmpty)
    (by simp [HasHost, Option.any_eq_true])

/-- A url that has a host and more than blanks behind its scheme. -/
def KeepsHost (url : String) : Prop :=
  ∃ rest ∈ afterScheme url, hostPart rest ≠ [] ∧ ∃ r ∈ rest, isSpace r = false

structure SoundFields (u : UpdateFields) : Prop where
  name : ∀ name ∈ u.name, trimSpace name ≠ ""
  url : ∀ url ∈ u.url, HasHost url
  username : ∀ username ∈ u.username, trimSpace username ≠ ""
  password : ∀ password ∈ u.password, password ≠ ""

/-! The url between the check and the table. -/

structure Inserts (fault : Fault) (req : CreateRouterReq) (t : RouterTable) : Prop where
  accepted : req.validate = ""
  applied : fault.applied = true
  storable : req.router.storable = true
  free : t.Free req.router.name t.next

structure Updates (fault : Fault) (id : Int) (u : UpdateFields) (t : RouterTable)
    (old : Router) : Prop where
  found : t.rows.lookup id = some old
  applied : fault.applied = true
  storable : u.storable = true
  free : t.Free (u.name.getD old.name) id

/-- What a call must bring so that the rows stay valid: a POST that adds a row has a url that
keeps its host, and the fields of a PATCH that changes one meet the conditions themselves. -/
def RouterCall.Keeps (t : RouterTable) (call : RouterCall) : Prop :=
  match call.request with
  | .post (some req) => Inserts call.fault req t → KeepsHost req.url
  | .patch (some id) (some u) => ∀ old, Updates call.fault id u t old → SoundFields u
  | _ => True

end Mitigador.Api
