import Mitigador.Go.Netip
import Mitigador.Lib.FirstMatch

/-! The table of address owners and its lookup (internal/netowner/owners.go). The table asks for
more specific prefixes before broader ones; where it keeps to that, the first match is the most
specific. -/

namespace Mitigador.Go.Prefix

def overlaps : Prefix → Prefix → Bool
  | v4 net length, v4 other count => (net ^^^ other) >>> (32 - min length.val count.val) == 0
  | v6 net length, v6 other count => (net ^^^ other) >>> (128 - min length.val count.val) == 0
  | _, _ => false

theorem shiftRight_zero_mono {width : Nat} {x : BitVec width} {count more : Nat}
    (zero : x >>> count = 0) (le : count ≤ more) : x >>> more = 0 := by
  obtain ⟨rest, rfl⟩ := Nat.exists_eq_add_of_le le
  rw [BitVec.shiftRight_add, zero]
  exact BitVec.zero_ushiftRight

theorem shiftRight_xor_zero {width : Nat} {x y z : BitVec width} {count : Nat}
    (left : (x ^^^ y) >>> count = 0) (right : (y ^^^ z) >>> count = 0) :
    (x ^^^ z) >>> count = 0 := by
  have through : x ^^^ z = (x ^^^ y) ^^^ (y ^^^ z) := by
    rw [BitVec.xor_assoc, ← BitVec.xor_assoc y y z, BitVec.xor_self, BitVec.zero_xor]
  calc
    (x ^^^ z) >>> count = (x ^^^ y) >>> count ^^^ (y ^^^ z) >>> count := by
      rw [through, BitVec.ushiftRight_xor_distrib]
    _ = 0 ^^^ 0 := by rw [left, right]
    _ = 0 := BitVec.xor_self

theorem overlaps_of_contains {first second : Prefix} {ip : Addr}
    (around : first.contains ip = true) (within : second.contains ip = true) :
    first.overlaps second = true := by
  cases first with
  | invalid => contradiction
  | v4 net length =>
      cases ip with
      | invalid | v6 => contradiction
      | v4 ip =>
          cases second with
          | invalid | v6 => contradiction
          | v4 other count =>
              simp only [contains, overlaps, beq_iff_eq] at around within ⊢
              rw [BitVec.xor_comm] at around
              exact shiftRight_xor_zero (shiftRight_zero_mono around (by omega))
                (shiftRight_zero_mono within (by omega))
  | v6 net length =>
      cases ip with
      | invalid | v4 => contradiction
      | v6 ip zone =>
          cases second with
          | invalid | v4 => contradiction
          | v6 other count =>
              simp only [contains, overlaps, Bool.and_eq_true, beq_iff_eq] at around within ⊢
              rw [BitVec.xor_comm] at around
              exact shiftRight_xor_zero (shiftRight_zero_mono around.2 (by omega))
                (shiftRight_zero_mono within.2 (by omega))

theorem contains_of_overlaps {first second : Prefix} {ip : Addr}
    (overlap : first.overlaps second = true) (shorter : first.bits ≤ second.bits)
    (within : second.contains ip = true) : first.contains ip = true := by
  cases first with
  | invalid => contradiction
  | v4 net length =>
      cases second with
      | invalid | v6 => contradiction
      | v4 other count =>
          cases ip with
          | invalid | v6 => contradiction
          | v4 ip =>
              have least : length.val ≤ count.val := Int.ofNat_le.mp shorter
              simp only [contains, overlaps, beq_iff_eq, min_eq_left least] at overlap within ⊢
              rw [BitVec.xor_comm] at overlap
              exact shiftRight_xor_zero (shiftRight_zero_mono within (by omega)) overlap
  | v6 net length =>
      cases second with
      | invalid | v4 => contradiction
      | v6 other count =>
          cases ip with
          | invalid | v4 => contradiction
          | v6 ip zone =>
              have least : length.val ≤ count.val := Int.ofNat_le.mp shorter
              simp only [contains, overlaps, Bool.and_eq_true, beq_iff_eq,
                min_eq_left least] at overlap within ⊢
              rw [BitVec.xor_comm] at overlap
              exact ⟨within.1,
                shiftRight_xor_zero (shiftRight_zero_mono within.2 (by omega)) overlap⟩

end Mitigador.Go.Prefix

namespace Mitigador.Netowner

open Go Lib

structure Entry where
  cidr : Prefix
  owner : String
  deriving DecidableEq

/-- `mustPrefix` of "a.b.c.d/length"; the table has no longer ones, for which it panics. -/
def cidr (a b c d length : Nat) : Prefix :=
  if inside : length < 33 then
    .v4 (BitVec.ofNat 32 (((a * 256 + b) * 256 + c) * 256 + d)) ⟨length, inside⟩
  else .invalid

def add (owner : String) (cidrs : List Prefix) : List Entry :=
  cidrs.map fun cidr => ⟨cidr, owner⟩

def owners : List Entry :=
  add "Cloudflare" [
    cidr 1 0 0 0 24, cidr 1 1 1 0 24, cidr 103 21 244 0 22, cidr 103 22 200 0 22,
    cidr 103 31 4 0 22, cidr 104 16 0 0 13, cidr 104 24 0 0 14, cidr 108 162 192 0 18,
    cidr 131 0 72 0 22, cidr 141 101 64 0 18, cidr 162 158 0 0 15, cidr 172 64 0 0 13,
    cidr 173 245 48 0 20, cidr 188 114 96 0 20, cidr 190 93 240 0 20, cidr 197 234 240 0 22,
    cidr 198 41 128 0 17] ++
  add "Google" [
    cidr 8 8 4 0 24, cidr 8 8 8 0 24, cidr 34 0 0 0 8, cidr 35 184 0 0 13, cidr 35 192 0 0 14,
    cidr 35 196 0 0 15, cidr 35 198 0 0 16, cidr 64 18 0 0 20, cidr 64 233 160 0 19,
    cidr 66 102 0 0 20, cidr 66 249 64 0 19, cidr 72 14 192 0 18, cidr 74 125 0 0 16,
    cidr 108 177 0 0 17, cidr 142 250 0 0 15, cidr 172 217 0 0 16, cidr 172 253 0 0 16,
    cidr 173 194 0 0 16, cidr 209 85 128 0 17, cidr 216 58 192 0 19, cidr 216 239 32 0 19] ++
  add "Amazon AWS" [
    cidr 3 0 0 0 9, cidr 3 128 0 0 9, cidr 13 32 0 0 15, cidr 13 224 0 0 14,
    cidr 15 177 0 0 16, cidr 18 32 0 0 11, cidr 18 64 0 0 10, cidr 34 192 0 0 10,
    cidr 34 224 0 0 12, cidr 35 71 64 0 22, cidr 35 182 0 0 16, cidr 52 0 0 0 8,
    cidr 54 144 0 0 12, cidr 54 160 0 0 11, cidr 54 192 0 0 12, cidr 54 208 0 0 13,
    cidr 54 220 0 0 15, cidr 99 78 0 0 18, cidr 99 86 0 0 16, cidr 205 251 192 0 18] ++
  add "Microsoft" [
    cidr 13 64 0 0 11, cidr 13 96 0 0 13, cidr 13 104 0 0 14, cidr 20 0 0 0 8,
    cidr 23 96 0 0 13, cidr 40 64 0 0 10, cidr 51 4 0 0 15, cidr 51 8 0 0 16,
    cidr 51 10 0 0 15, cidr 52 96 0 0 12, cidr 52 112 0 0 14, cidr 104 40 0 0 13,
    cidr 104 146 0 0 15, cidr 104 208 0 0 13, cidr 131 107 0 0 16, cidr 137 116 0 0 15,
    cidr 168 61 0 0 16, cidr 168 62 0 0 15, cidr 191 232 0 0 13] ++
  add "Apple" [
    cidr 17 0 0 0 8] ++
  add "GitHub" [
    cidr 140 82 112 0 20, cidr 143 55 64 0 20, cidr 185 199 108 0 22, cidr 192 30 252 0 22] ++
  add "Fastly" [
    cidr 23 235 32 0 20, cidr 43 249 72 0 22, cidr 103 244 50 0 24, cidr 103 245 222 0 23,
    cidr 103 245 224 0 24, cidr 104 156 80 0 20, cidr 151 101 0 0 16, cidr 157 52 64 0 18,
    cidr 167 82 0 0 17, cidr 172 111 64 0 18, cidr 185 31 16 0 22, cidr 199 27 72 0 21,
    cidr 199 232 0 0 16] ++
  add "Akamai" [
    cidr 2 16 0 0 13, cidr 23 0 0 0 12, cidr 23 32 0 0 11, cidr 23 64 0 0 14,
    cidr 23 192 0 0 11, cidr 72 246 0 0 15, cidr 95 100 0 0 15, cidr 96 16 0 0 15,
    cidr 96 6 0 0 15, cidr 104 64 0 0 10, cidr 173 222 0 0 15, cidr 184 24 0 0 13,
    cidr 184 84 0 0 14] ++
  add "Meta" [
    cidr 31 13 24 0 21, cidr 31 13 64 0 18, cidr 66 220 144 0 20, cidr 66 220 152 0 21,
    cidr 69 63 176 0 20, cidr 69 171 224 0 19, cidr 74 119 76 0 22, cidr 103 4 96 0 22,
    cidr 129 134 0 0 16, cidr 157 240 0 0 16, cidr 173 252 64 0 19, cidr 179 60 192 0 22,
    cidr 185 60 216 0 22, cidr 199 201 64 0 22, cidr 204 15 20 0 22] ++
  add "Netflix" [
    cidr 23 246 0 0 18, cidr 37 77 184 0 21, cidr 45 57 0 0 17, cidr 64 120 128 0 17,
    cidr 66 197 128 0 17, cidr 108 175 32 0 20, cidr 185 2 220 0 22, cidr 185 9 188 0 22,
    cidr 192 173 64 0 18, cidr 198 38 96 0 19, cidr 198 45 48 0 20] ++
  add "Quad9" [
    cidr 9 9 9 0 24, cidr 149 112 112 0 24] ++
  add "OpenDNS" [
    cidr 208 67 220 0 24, cidr 208 67 222 0 24] ++
  add "X (Twitter)" [
    cidr 104 244 42 0 24, cidr 199 59 148 0 22] ++
  add "Twitch" [
    cidr 192 108 239 0 24, cidr 199 9 248 0 22]

def cidrLookup (ip : Addr) : String :=
  if !ip.isValid then ""
  else match owners.find? fun e => e.cidr.contains ip with
    | some e => e.owner
    | none => ""

/-- The owner of the longest prefix of the table around the address, or no owner. -/
def OwnerOf (ip : Addr) (owner : String) : Prop :=
  (∃ e ∈ owners, e.cidr.contains ip = true ∧ e.owner = owner ∧
      ∀ other ∈ owners, other.cidr.contains ip = true → other.cidr.bits ≤ e.cidr.bits) ∨
    ((∀ e ∈ owners, e.cidr.contains ip = false) ∧ owner = "")

/-- The blocks that a broader prefix of another owner stands before. -/
def misplaced : List Entry :=
  [⟨cidr 34 192 0 0 10, "Amazon AWS"⟩, ⟨cidr 52 96 0 0 12, "Microsoft"⟩,
    ⟨cidr 52 112 0 0 14, "Microsoft"⟩]

theorem nested : FirstMatch.Nested (fun (e : Entry) ip => e.cidr.contains ip)
    (fun e => e.cidr.bits) fun a b => a.cidr.overlaps b.cidr where
  meets := Prefix.overlaps_of_contains
  inside := Prefix.contains_of_overlaps

theorem ownerOf_cidrLookup_iff (ip : Addr) :
    OwnerOf ip (cidrLookup ip) ↔
      FirstMatch.MostSpecific (fun (e : Entry) ip => e.cidr.contains ip) (fun e => e.cidr.bits)
        Entry.owner owners ip
        (FirstMatch.first (fun (e : Entry) ip => e.cidr.contains ip) Entry.owner owners ip) := by
  cases found : owners.find? fun e => e.cidr.contains ip with
  | none =>
      have missed : ∀ e ∈ owners, e.cidr.contains ip = false := by
        intro e member
        exact Bool.eq_false_iff.mpr (List.find?_eq_none.mp found e member)
      rw [FirstMatch.first, found, cidrLookup, found, ite_self]
      exact ⟨fun _ => missed, fun _ => .inr ⟨missed, rfl⟩⟩
  | some e =>
      have around : e.cidr.contains ip = true := (List.find?_eq_some_iff_append.mp found).1
      have valid : ip.isValid = true := by
        cases ip with
        | invalid => cases cidr : e.cidr <;> simp [cidr, Prefix.contains] at around
        | v4 | v6 => rfl
      have answer : cidrLookup ip = e.owner := by
        simp [cidrLookup, valid, found]
      rw [FirstMatch.first, found, answer]
      constructor
      · rintro (specific | ⟨missed, -⟩)
        · exact specific
        · rw [missed e (List.mem_of_find?_eq_some found)] at around
          contradiction
      · exact .inl

theorem misplaced_shadowed : ∀ entry ∈ misplaced, entry ∈ owners ∧
    FirstMatch.shadowed (fun e => e.cidr.bits) Entry.owner
      (fun a b => a.cidr.overlaps b.cidr) owners entry = true := by
  decide +kernel

theorem owners_ordered : owners.Pairwise fun a b => a.cidr.overlaps b.cidr = true →
    a.cidr.bits < b.cidr.bits → a.owner ≠ b.owner →
      ∃ entry ∈ misplaced, entry.cidr.overlaps b.cidr = true ∧ entry.cidr.bits ≤ b.cidr.bits := by
  decide +kernel

/-- The first match is the most specific one exactly away from the misplaced blocks. -/
theorem cidrLookup_most_specific (ip : Addr) :
    OwnerOf ip (cidrLookup ip) ↔ ∀ entry ∈ misplaced, entry.cidr.contains ip = false :=
  (ownerOf_cidrLookup_iff ip).trans
    (FirstMatch.mostSpecific_iff nested misplaced_shadowed owners_ordered)

/-- 34.200.0.1 is Amazon's, and the table says Google. -/
theorem cidrLookup_not_most_specific :
    ¬ ∀ bits : BitVec 32, OwnerOf (.v4 bits) (cidrLookup (.v4 bits)) := by
  intro every
  have answer := (ownerOf_cidrLookup_iff _).mp (every 0x22c80001)
  obtain ⟨member, shadow⟩ := misplaced_shadowed ⟨cidr 34 192 0 0 10, "Amazon AWS"⟩ (by decide)
  exact FirstMatch.not_mostSpecific_of_shadowed nested shadow member (by decide) answer

end Mitigador.Netowner
