import Mathlib.Data.BitVec

/-! The address and prefix types of Go's `net/netip`, as far as the program uses them. -/

namespace Mitigador.Go

/-- `netip.Addr`; the zero value is `invalid`, and an IPv4-mapped address is a `v6`. -/
inductive Addr
  | invalid
  | v4 (bits : BitVec 32)
  | v6 (bits : BitVec 128) (zone : String)
  deriving DecidableEq, Repr

namespace Addr

/-- `Addr.As16`: IPv4 addresses are mapped, the zone is dropped. -/
def as16 : Addr → BitVec 128
  | invalid => 0
  | v4 bits => 0xffff00000000 ||| bits.setWidth 128
  | v6 bits _ => bits

def as16Bytes (ip : Addr) : List UInt8 :=
  (List.range 16).map fun index => UInt8.ofBitVec ((ip.as16 >>> (8 * (15 - index))).setWidth 8)

/-- `Addr.Unmap`: an IPv4-mapped IPv6 address becomes the IPv4 address, its zone is lost. -/
def unmap : Addr → Addr
  | v6 bits zone =>
      if bits >>> 32 = (0xffff : BitVec 128) then v4 (bits.setWidth 32) else v6 bits zone
  | ip => ip

theorem unmap_unmap (ip : Addr) : ip.unmap.unmap = ip.unmap := by
  cases ip with
  | invalid | v4 => rfl
  | v6 bits zone =>
      by_cases mapped : bits >>> 32 = (0xffff : BitVec 128)
      · rw [unmap, if_pos mapped]
        rfl
      · rw [unmap, if_neg mapped, unmap, if_neg mapped]

def isValid : Addr → Bool
  | invalid => false
  | _ => true

/-- `Addr.IsLoopback`: 127.0.0.0/8 and ::1, whatever the zone. -/
def isLoopback (ip : Addr) : Bool :=
  match ip.unmap with
  | v4 bits => bits >>> 24 == 127
  | v6 bits _ => bits == 1
  | invalid => false

/-- `Addr.IsLinkLocalUnicast`: 169.254.0.0/16 and fe80::/10. -/
def isLinkLocalUnicast (ip : Addr) : Bool :=
  match ip.unmap with
  | v4 bits => bits >>> 16 == 0xa9fe
  | v6 bits _ => bits >>> 118 == 0x3fa
  | invalid => false

/-- `Addr.IsPrivate`: the blocks of RFC 1918, and fc00::/7. -/
def isPrivate (ip : Addr) : Bool :=
  match ip.unmap with
  | v4 bits => bits >>> 24 == 10 || bits >>> 20 == 0xac1 || bits >>> 16 == 0xc0a8
  | v6 bits _ => bits >>> 121 == 0x7e
  | invalid => false

def groups (bits : BitVec 128) : List Nat :=
  (List.range 8).map fun index => ((bits >>> (16 * (7 - index))).setWidth 16).toNat

/-- The first longest run of at least two zero groups: where it starts and its length. -/
def zeroRun (groups : List Nat) : Option (Nat × Nat) :=
  let runs := (List.range 8).map fun start =>
    (start, ((groups.drop start).takeWhile (· == 0)).length)
  runs.foldl (fun best run =>
    if 2 ≤ run.2 ∧ (best.map (·.2)).getD 0 < run.2 then some run else best) none

def dotted (bits : BitVec 32) : String :=
  ".".intercalate ((List.range 4).map fun index =>
    toString ((bits >>> (8 * (3 - index))).setWidth 8).toNat)

def hexGroups (groups : List Nat) : String :=
  ":".intercalate (groups.map fun group => String.ofList (Nat.toDigits 16 group))

/-- `Addr.String`. -/
def text : Addr → String
  | invalid => "invalid IP"
  | v4 bits => dotted bits
  | v6 bits zone =>
      let suffix := if zone = "" then "" else "%" ++ zone
      if bits >>> 32 = (0xffff : BitVec 128) then "::ffff:" ++ dotted (bits.setWidth 32) ++ suffix
      else match zeroRun (groups bits) with
        | none => hexGroups (groups bits) ++ suffix
        | some (start, length) => hexGroups ((groups bits).take start) ++ "::" ++
            hexGroups ((groups bits).drop (start + length)) ++ suffix

end Addr

/-- `netip.Prefix`: the length never exceeds the width of the address. -/
inductive Prefix
  | invalid
  | v4 (net : BitVec 32) (length : Fin 33)
  | v6 (net : BitVec 128) (length : Fin 129)
  deriving DecidableEq, Repr

namespace Prefix

/-- `Prefix.Bits`, which is -1 for the zero prefix. -/
def bits : Prefix → Int
  | invalid => -1
  | v4 _ length => length.val
  | v6 _ length => length.val

/-- `Prefix.Contains`: families are never mixed and an address with a zone is in no prefix. -/
def contains : Prefix → Addr → Bool
  | v4 net length, .v4 ip => (ip ^^^ net) >>> (32 - length.val) == 0
  | v6 net length, .v6 ip zone => zone == "" && (ip ^^^ net) >>> (128 - length.val) == 0
  | _, _ => false

theorem bits_nonneg_of_contains {cidr : Prefix} {ip : Addr} (inside : cidr.contains ip = true) :
    0 ≤ cidr.bits := by
  cases cidr with
  | invalid => simp [contains] at inside
  | v4 net length => exact Int.natCast_nonneg _
  | v6 net length => exact Int.natCast_nonneg _

end Prefix

end Mitigador.Go
