import Mitigador.Go.Strings
import Mitigador.Go.Time
import Mitigador.Lib.KeyedMap
import Mitigador.Lib.Transaction

/-! The table mikrotik_routers (migration 0010) and the store over it
(internal/subscriber/router_store.go). -/

namespace Mitigador.Subscriber

open Go Lib

structure Router where
  name : String
  url : String
  username : String
  password : String
  verifyTLS : Bool
  enabled : Bool
  createdAt : Time
  updatedAt : Time
  deriving DecidableEq

structure UpdateFields where
  name : Option String
  url : Option String
  username : Option String
  password : Option String
  verifyTLS : Option Bool
  enabled : Option Bool

structure RouterTable where
  rows : KeyedMap Int Router
  next : Int
  below : ∀ id ∈ rows, id < next
  unique : ∀ id other first second, rows.lookup id = some first →
    rows.lookup other = some second → first.name = second.name → id = other

/-- What happens to a statement outside the table; each commits itself. -/
abbrev Fault := CommitFault String

inductive StoreError
  | routerNotFound
  | wrapped (text : String)
  deriving DecidableEq

def StoreError.text : StoreError → String
  | routerNotFound => "subscriber: router not found"
  | wrapped text => text

def duplicateName : String :=
  "ERROR: duplicate key value violates unique constraint \"mikrotik_routers_name_key\"" ++
    " (SQLSTATE 23505)"

def invalidByte : String :=
  "ERROR: invalid byte sequence for encoding \"UTF8\": 0x00 (SQLSTATE 22021)"

def storable (s : String) : Bool := !s.toList.contains '\x00'

def Router.storable (r : Router) : Bool :=
  [r.name, r.url, r.username, r.password].all Subscriber.storable

def UpdateFields.storable (u : UpdateFields) : Bool :=
  [u.name, u.url, u.username, u.password].all fun text => text.all Subscriber.storable

/-- The row after `COALESCE($n, column)` for each column. -/
def UpdateFields.apply (u : UpdateFields) (now : Time) (r : Router) : Router where
  name := u.name.getD r.name
  url := u.url.getD r.url
  username := u.username.getD r.username
  password := u.password.getD r.password
  verifyTLS := u.verifyTLS.getD r.verifyTLS
  enabled := u.enabled.getD r.enabled
  createdAt := r.createdAt
  updatedAt := now

namespace RouterTable

def empty : RouterTable where
  rows := ∅
  next := 1
  below _ impossible := absurd impossible (AList.notMem_empty _)
  unique _ _ _ _ impossible := by contradiction

def Free (t : RouterTable) (name : String) (self : Int) : Prop :=
  ∀ entry ∈ t.rows.entries, entry.2.name = name → entry.1 = self

instance (t : RouterTable) (name : String) (self : Int) : Decidable (t.Free name self) :=
  inferInstanceAs (Decidable (∀ entry ∈ _, _))

theorem free_iff (t : RouterTable) (name : String) (self : Int) :
    t.Free name self ↔ ∀ id r, t.rows.lookup id = some r → r.name = name → id = self := by
  constructor
  · intro free id r stored
    exact free ⟨id, r⟩ ((KeyedMap.mem_entries ..).mpr stored)
  · intro free entry member
    exact free entry.1 entry.2 ((KeyedMap.mem_entries ..).mp member)

def put (t : RouterTable) (id : Int) (r : Router) (free : t.Free r.name id) : RouterTable where
  rows := t.rows.insert id r
  next := max t.next (id + 1)
  below := by
    intro other member
    rw [AList.mem_insert] at member
    rcases member with rfl | old
    · omega
    · have earlier := t.below other old
      omega
  unique := by
    intro first second left right here there same
    rw [KeyedMap.lookup_insert] at here there
    rw [free_iff] at free
    split at here
    · next own =>
        cases here
        split at there
        · next also => rw [own, also]
        · next different => exact own.trans (free second right there same.symm).symm
    · next different =>
        split at there
        · next also =>
            cases there
            exact (free first left here same).trans also.symm
        · exact t.unique first second left right here there same

def erase (t : RouterTable) (id : Int) : RouterTable where
  rows := t.rows.erase id
  next := t.next
  below := by
    intro other member
    exact t.below other (AList.mem_erase.mp member).2
  unique := by
    intro first second left right here there same
    exact t.unique first second left right (KeyedMap.lookup_of_erase here)
      (KeyedMap.lookup_of_erase there) same

end RouterTable

namespace RouterStore

def settle {α : Type*} (fault : Fault) (context : String) (before after : RouterTable) (row : α) :
    RouterTable × Except StoreError α :=
  fault.settle (fun text => .wrapped (context ++ text)) before after row

theorem settle_fst {α : Type*} (fault : Fault) (context : String) (before after : RouterTable)
    (row : α) :
    (settle fault context before after row).1 = if fault.applied then after else before :=
  CommitFault.settle_fst ..

/-- `RouterStore.Create`; a value of the sequence is used up also where the name is taken. -/
def create (fault : Fault) (now : Time) (r : Router) (t : RouterTable) :
    RouterTable × Except StoreError (Int × Router) :=
  let row := { r with createdAt := now, updatedAt := now }
  if !r.storable then (t, .error (.wrapped ("mikrotik_routers: create: " ++ invalidByte)))
  else if free : t.Free r.name t.next then
    settle fault "mikrotik_routers: create: " t (t.put t.next row free) (t.next, row)
  else
    ({ t with
      next := t.next + 1
      below := fun id member => (t.below id member).trans (Int.lt_succ _) },
      .error (.wrapped ("mikrotik_routers: create: " ++ duplicateName)))

def update (fault : Fault) (now : Time) (id : Int) (u : UpdateFields) (t : RouterTable) :
    RouterTable × Except StoreError (Int × Router) :=
  if !u.storable then (t, .error (.wrapped ("mikrotik_routers: update: " ++ invalidByte)))
  else
    match t.rows.lookup id with
    | none =>
        match fault with
        | .none => (t, .error .routerNotFound)
        | .failed text _ => (t, .error (.wrapped ("mikrotik_routers: update: " ++ text)))
    | some old =>
        let row := u.apply now old
        if free : t.Free row.name id then
          settle fault "mikrotik_routers: update: " t (t.put id row free) (id, row)
        else (t, .error (.wrapped ("mikrotik_routers: update: " ++ duplicateName)))

def delete (fault : Fault) (id : Int) (t : RouterTable) :
    RouterTable × Except StoreError Unit :=
  if id ∈ t.rows then settle fault "mikrotik_routers: delete: " t (t.erase id) ()
  else
    match fault with
    | .none => (t, .error .routerNotFound)
    | .failed text _ => (t, .error (.wrapped ("mikrotik_routers: delete: " ++ text)))

end RouterStore

end Mitigador.Subscriber
