import Mathlib.Algebra.Order.Ring.Nat
import Mathlib.Tactic.Ring

/-! Numbers as bytes, the most significant one first. -/

namespace Mitigador.Lib.BigEndian

def bytes : Nat → Nat → List UInt8
  | 0, _ => []
  | n + 1, value => UInt8.ofNat (value / 256 ^ n) :: bytes n value

def value (bytes : List UInt8) : Nat := bytes.foldl (fun acc byte => acc * 256 + byte.toNat) 0

def read (n : Nat) (input : List UInt8) : Option (Nat × List UInt8) :=
  if n ≤ input.length then some (value (input.take n), input.drop n) else none

@[simp] theorem length_bytes (n v : Nat) : (bytes n v).length = n := by
  induction n with
  | zero => rfl
  | succ n ih => rw [bytes, List.length_cons, ih]

theorem foldl_value (input : List UInt8) (acc : Nat) :
    input.foldl (fun acc byte => acc * 256 + byte.toNat) acc =
      acc * 256 ^ input.length + value input := by
  induction input generalizing acc with
  | nil => simp [value]
  | cons byte rest ih =>
      rw [value, List.foldl_cons, List.foldl_cons, ih, ih, List.length_cons, pow_succ]
      ring

theorem value_bytes (n v : Nat) : value (bytes n v) = v % 256 ^ n := by
  induction n with
  | zero => simp [bytes, value, Nat.mod_one]
  | succ n ih =>
      have top : (UInt8.ofNat (v / 256 ^ n)).toNat = v / 256 ^ n % 256 := UInt8.toNat_ofNat'
      rw [bytes, value, List.foldl_cons, foldl_value, length_bytes, ih, Nat.mod_pow_succ, top]
      ring

theorem read_bytes {n v : Nat} (fits : v < 256 ^ n) (rest : List UInt8) :
    read n (bytes n v ++ rest) = some (v, rest) := by
  have long : n ≤ (bytes n v ++ rest).length := by simp
  rw [read, if_pos long, List.take_left' (length_bytes n v), List.drop_left' (length_bytes n v),
    value_bytes, Nat.mod_eq_of_lt fits]

end Mitigador.Lib.BigEndian
