import Mitigador.Go.Netip
import Mitigador.Go.Time
import Mitigador.Lib.KeyedMap

/-! The subscribers by address (internal/subscriber/store.go). -/

namespace Mitigador.Subscriber

open Go Lib

set_option linter.dupNamespace false in
structure Subscriber where
  ip : Addr
  username : String
  service : String
  router : String
  comment : String
  connectedSince : Time
  lastSeen : Time
  deriving DecidableEq

structure Store where
  m : KeyedMap Addr Subscriber

def Store.new : Store := ⟨∅⟩

def Store.lookup (s : Store) (ip : Addr) : Option Subscriber := s.m.lookup ip.unmap

def unmapKey (next : KeyedMap Addr Subscriber) (k : Addr) (v : Subscriber) :
    KeyedMap Addr Subscriber :=
  if k = k.unmap then next else (next.erase k).insert k.unmap { v with ip := k.unmap }

/-- `Store.Replace`. The order of the entries is that of a Go map: any. -/
def Store.replace (_ : Store) (next : KeyedMap Addr Subscriber) : Store :=
  ⟨next.entries.foldl (fun next entry => unmapKey next entry.1 entry.2) next⟩

theorem Store.replace_unmapped (s : Store) {next : KeyedMap Addr Subscriber}
    (unmapped : ∀ k v, next.lookup k = some v → k.unmap = k) : s.replace next = ⟨next⟩ := by
  have still : ∀ entries : List (Sigma fun _ : Addr => Subscriber),
      (∀ entry ∈ entries, entry.1.unmap = entry.1) →
        entries.foldl (fun next entry => unmapKey next entry.1 entry.2) next = next := by
    intro entries every
    induction entries with
    | nil => rfl
    | cons entry entries ih =>
        obtain ⟨first, rest⟩ := List.forall_mem_cons.mp every
        rw [List.foldl_cons, unmapKey, if_pos first.symm]
        exact ih rest
  rw [replace, still next.entries]
  intro entry member
  exact unmapped entry.1 entry.2 ((KeyedMap.mem_entries ..).mp member)

end Mitigador.Subscriber
