import Mathlib.Order.Lattice
import Mitigador.Flow.Record
import Mitigador.Lib.Ring

/-! The buffer of the most recent flow records (internal/flow/recent.go), and the history of
pushes that it stands for. Its mutex makes every call one step. -/

namespace Mitigador.Flow

open Go Lib

def Record.zero : Record where
  exporter := .invalid
  dstIP := .invalid
  srcIP := .invalid
  proto := 0
  bytes := 0
  packets := 0
  sampleRate := 0
  received := .zero

/-- The ring is never empty: `head` is an index of it. -/
structure RecentBuffer (capacity : Nat) where
  ring : Vector Record capacity
  head : Fin capacity
  full : Bool
  deriving DecidableEq

def clamp (capacity : Int) : Nat :=
  if capacity < 1 then 1 else capacity.toNat

theorem clamp_pos (capacity : Int) : 0 < clamp capacity := by
  rw [clamp]
  split <;> omega

theorem clamp_eq_max (capacity : Int) : clamp capacity = (max 1 capacity).toNat := by
  rw [clamp]
  split <;> omega

def newRecentBuffer (capacity : Int) : RecentBuffer (clamp capacity) where
  ring := Vector.replicate (clamp capacity) .zero
  head := ⟨0, clamp_pos capacity⟩
  full := false

namespace RecentBuffer

variable {capacity : Nat}

def push (b : RecentBuffer capacity) (r : Record) : RecentBuffer capacity where
  ring := b.ring.set b.head r
  head := Ring.next b.head
  full := b.full || decide (capacity ≤ b.head + 1)

def size (b : RecentBuffer capacity) : Nat :=
  if b.full then capacity else b.head

def snapshot (b : RecentBuffer capacity) (n : Int) : List Record :=
  let count := if n ≤ 0 ∨ b.size < n then b.size else n.toNat
  Ring.backwards b.ring (Ring.previous b.head) count

/-- The buffer after the pushes of `history`, which lists the newest first. -/
structure Represents (b : RecentBuffer capacity) (history : List Record) : Prop where
  filling : b.full = false → b.head.val = history.length
  wrapped : b.full = true → capacity ≤ history.length
  holds : Ring.Holds b.ring b.head history

theorem represents_new (capacity : Int) : Represents (newRecentBuffer capacity) [] where
  filling _ := rfl
  wrapped full := nomatch full
  holds := Ring.Holds.empty _ _

variable {b : RecentBuffer capacity} {history : List Record}

theorem Represents.size_eq (represents : b.Represents history) :
    b.size = min capacity history.length := by
  cases full : b.full with
  | true =>
      have wrapped := represents.wrapped full
      simp [size, full, wrapped]
  | false =>
      have filling := represents.filling full
      have bound := b.head.isLt
      rw [size, if_neg (by simp [full])]
      omega

theorem Represents.push (represents : b.Represents history) (r : Record) :
    (b.push r).Represents (r :: history) where
  filling still := by
    have parts : b.full = false ∧ b.head.val + 1 < capacity := by
      simpa [RecentBuffer.push] using still
    have filling := represents.filling parts.1
    rw [RecentBuffer.push, Ring.val_next, if_pos parts.2, filling, List.length_cons]
  wrapped full := by
    rw [List.length_cons]
    cases before : b.full with
    | true => exact Nat.le_succ_of_le (represents.wrapped before)
    | false =>
        have last : capacity ≤ b.head.val + 1 := by
          simpa [RecentBuffer.push, before] using full
        rwa [represents.filling before] at last
  holds := represents.holds.write r

theorem Represents.pushes (represents : b.Represents history) (records : List Record) :
    (records.foldl RecentBuffer.push b).Represents (records.reverse ++ history) := by
  induction records generalizing b history with
  | nil => exact represents
  | cons r records ih =>
      rw [List.reverse_cons, List.append_assoc]
      exact ih (represents.push r)

def limit (n : Int) (retained : Nat) : Nat :=
  if 0 < n then min n.toNat retained else retained

theorem Represents.snapshot (represents : b.Represents history) (n : Int) :
    b.snapshot n = history.take (limit n (min capacity history.length)) := by
  have count : (if n ≤ 0 ∨ b.size < n then b.size else n.toNat) = limit n b.size := by
    rw [limit]
    split <;> split <;> omega
  have within : limit n b.size ≤ b.size := by
    rw [limit]
    split <;> omega
  calc
    b.snapshot n = Ring.backwards b.ring (Ring.previous b.head) (limit n b.size) := by
      rw [RecentBuffer.snapshot, count]
    _ = history.take (limit n b.size) := represents.holds _ (represents.size_eq ▸ within)
    _ = history.take (limit n (min capacity history.length)) := by rw [represents.size_eq]

/-- Reading the buffer gives the last records pushed, newest first. -/
theorem snapshot_pushes (capacity : Int) (records : List Record) (n : Int) :
    (records.foldl push (newRecentBuffer capacity)).snapshot n =
      records.reverse.take (limit n (min (max 1 capacity).toNat records.length)) := by
  have represents := (represents_new capacity).pushes records
  rw [List.append_nil] at represents
  rw [represents.snapshot, List.length_reverse, clamp_eq_max]

end RecentBuffer

end Mitigador.Flow
