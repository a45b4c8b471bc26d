import Mitigador.Go.Time
import Mitigador.Lib.KeyedMap

/-! The users table (migration 0002) and the store over it (internal/user/store.go). The bcrypt
package is a parameter. -/

namespace Mitigador.Users

open Go Lib

variable {Hash : Type*}

structure User (Hash : Type*) where
  username : String
  passwordHash : Hash
  email : String
  createdAt : Time
  lastLogin : Option Time

/-- The rows by id; the sequence of the key never gives an id again. -/
structure UserTable (Hash : Type*) where
  rows : KeyedMap Int (User Hash)
  next : Int
  below : ∀ id ∈ rows, id < next
  unique : ∀ id other first second, rows.lookup id = some first →
    rows.lookup other = some second → first.username = second.username → id = other

inductive StoreError
  | notFound
  | alreadyExists
  | required
  | bcrypt
  | mismatched
  deriving DecidableEq, Repr

namespace UserTable

def empty : UserTable Hash where
  rows := ∅
  next := 1
  below _ impossible := absurd impossible (AList.notMem_empty _)
  unique _ _ _ _ impossible := by contradiction

def find (t : UserTable Hash) (username : String) : Option (Int × User Hash) :=
  (t.rows.entries.find? fun entry => entry.2.username = username).map fun entry =>
    (entry.1, entry.2)

theorem find_spec {t : UserTable Hash} {username : String} {id : Int} {u : User Hash}
    (found : t.find username = some (id, u)) :
    t.rows.lookup id = some u ∧ u.username = username := by
  obtain ⟨entry, first, same⟩ := Option.map_eq_some_iff.mp found
  cases same
  have named : entry.2.username = username := by simpa using List.find?_some first
  exact ⟨(KeyedMap.mem_entries ..).mp (List.mem_of_find?_eq_some first), named⟩

theorem find_eq_none {t : UserTable Hash} {username : String} (missing : t.find username = none)
    {id : Int} {u : User Hash} (stored : t.rows.lookup id = some u) : u.username ≠ username := by
  have every := List.find?_eq_none.mp (Option.map_eq_none_iff.mp missing)
  have other := every ⟨id, u⟩ ((KeyedMap.mem_entries ..).mpr stored)
  simpa using other

def insert (t : UserTable Hash) (u : User Hash) (free : t.find u.username = none) :
    UserTable Hash where
  rows := t.rows.insert t.next u
  next := t.next + 1
  below := by
    intro id member
    rw [AList.mem_insert] at member
    rcases member with rfl | old
    · exact Int.lt_succ _
    · exact (t.below id old).trans (Int.lt_succ _)
  unique := by
    intro id other first second here there same
    rw [KeyedMap.lookup_insert] at here there
    split at here
    · next own =>
        cases here
        split at there
        · next also => rw [own, also]
        · exact absurd same.symm (find_eq_none free there)
    · split at there
      · cases there
        exact absurd same (find_eq_none free here)
      · exact t.unique id other first second here there same

def sweep (t : UserTable Hash) (keep : Int → User Hash → Option (User Hash))
    (named : ∀ id u v, keep id u = some v → v.username = u.username) : UserTable Hash where
  rows := KeyedMap.sweep keep t.rows
  next := t.next
  below := by
    intro id member
    rw [← AList.lookup_isSome, KeyedMap.lookup_sweep] at member
    obtain ⟨v, kept⟩ := Option.isSome_iff_exists.mp member
    obtain ⟨u, stored, -⟩ := Option.bind_eq_some_iff.mp kept
    exact t.below id (AList.lookup_isSome.mp (by rw [stored]; rfl))
  unique := by
    intro id other first second here there same
    rw [KeyedMap.lookup_sweep] at here there
    obtain ⟨u, left, kept⟩ := Option.bind_eq_some_iff.mp here
    obtain ⟨v, right, also⟩ := Option.bind_eq_some_iff.mp there
    rw [named id u first kept, named other v second also] at same
    exact t.unique id other u v left right same

end UserTable

namespace Store

def create (generate : String → Option Hash) (now : Time) (username email plain : String)
    (t : UserTable Hash) : UserTable Hash × Except StoreError Int :=
  if username = "" ∨ plain = "" then (t, .error .required)
  else
    match generate plain with
    | none => (t, .error .bcrypt)
    | some hash =>
        let u : User Hash := ⟨username, hash, email, now, none⟩
        if free : t.find u.username = none then (t.insert u free, .ok t.next)
        else
          ({ t with
            next := t.next + 1
            below := fun id member => (t.below id member).trans (Int.lt_succ _) },
            .error .alreadyExists)

def getByID (id : Int) (t : UserTable Hash) : Except StoreError (User Hash) :=
  match t.rows.lookup id with
  | none => .error .notFound
  | some u => .ok u

def verifyPassword (matching : Hash → String → Bool) (username plain : String)
    (t : UserTable Hash) : Except StoreError (Int × User Hash) :=
  match t.find username with
  | none => .error .notFound
  | some (id, u) => if matching u.passwordHash plain then .ok (id, u) else .error .mismatched

def delete (username : String) (t : UserTable Hash) : UserTable Hash × Except StoreError Unit :=
  if t.find username = none then (t, .error .notFound)
  else
    (t.sweep (fun _ u => if u.username = username then none else some u) (by
      intro _ u v kept
      split at kept
      · contradiction
      · cases kept
        rfl), .ok ())

def updateLastLogin (now : Time) (id : Int) (t : UserTable Hash) : UserTable Hash :=
  t.sweep (fun other u => some (if other = id then { u with lastLogin := some now } else u)) (by
    intro other u v kept
    cases kept
    split <;> rfl)

theorem mem_create {generate : String → Option Hash} {now : Time} {username email plain : String}
    {t : UserTable Hash} {id : Int} (known : id ∈ t.rows) :
    id ∈ (create generate now username email plain t).1.rows := by
  unfold create
  split
  · exact known
  · split
    · exact known
    · dsimp only
      split
      · rw [UserTable.insert, AList.mem_insert]
        exact .inr known
      · exact known

theorem mem_updateLastLogin {now : Time} {id other : Int} {t : UserTable Hash} :
    other ∈ (updateLastLogin now id t).rows ↔ other ∈ t.rows := by
  rw [← AList.lookup_isSome, ← AList.lookup_isSome, updateLastLogin, UserTable.sweep,
    KeyedMap.lookup_sweep]
  cases t.rows.lookup other <;> rfl

theorem mem_delete {username : String} {t : UserTable Hash} {id : Int} {u : User Hash}
    (stored : t.rows.lookup id = some u) (other : u.username ≠ username) :
    id ∈ (delete username t).1.rows := by
  have known : id ∈ t.rows := AList.lookup_isSome.mp (by rw [stored]; rfl)
  unfold delete
  split
  · exact known
  · rw [← AList.lookup_isSome, UserTable.sweep, KeyedMap.lookup_sweep, stored,
      Option.bind_some, if_neg other]
    rfl

end Store

end Mitigador.Users
