import Mathlib.Data.Nat.Notation
import Mathlib.Tactic.Ring
import Mitigador.Go.Time

/-! The uptime of a session as RouterOS prints it, and the start that the poller computes from
it (internal/subscriber/mikrotik.go). -/

namespace Mitigador.Subscriber

open Go

/-- The two 64-bit accumulators of `subtractUptime`. -/
structure Elapsed where
  d : Int64
  num : Int64
  deriving DecidableEq

namespace Elapsed

def close (state : Elapsed) (passed : Int64) : Elapsed where
  d := state.d + passed
  num := 0

/-- One character of the loop; `none` is its return of the zero time. -/
def read (state : Elapsed) (c : Char) : Option Elapsed :=
  if c.isDigit then
    some { state with num := state.num * 10 + Int64.ofNat (c.toNat - '0'.toNat) }
  else if c = 'w' then some (state.close (state.num * 7 * 24 * Int64.ofInt hour))
  else if c = 'd' then some (state.close (state.num * 24 * Int64.ofInt hour))
  else if c = 'h' then some (state.close (state.num * Int64.ofInt hour))
  else if c = 'm' then some (state.close (state.num * Int64.ofInt minute))
  else if c = 's' then some (state.close (state.num * Int64.ofInt second))
  else none

end Elapsed

def subtractUptime (now : Time) (uptime : String) : Time :=
  if uptime = "" then .zero
  else match uptime.toList.foldlM Elapsed.read ⟨0, 0⟩ with
    | none => .zero
    | some state => if state.d = 0 then .zero else now.add (-state.d).toInt

def unitSeconds : Char → Nat
  | 'w' => 604800
  | 'd' => 86400
  | 'h' => 3600
  | 'm' => 60
  | 's' => 1
  | _ => 0

def unitLetters : List Char := ['w', 'd', 'h', 'm', 's']

/-- A text that prints counts of units in decimal; a count of zero may be omitted. -/
inductive Printed : List (Char × Nat) → List Char → Prop
  | nil : Printed [] []
  | omitted {units text} (letter : Char) :
      Printed units text → Printed ((letter, 0) :: units) text
  | shown {units text} (letter : Char) (count : Nat) :
      Printed units text →
      Printed ((letter, count) :: units) (Nat.toDigits 10 count ++ letter :: text)

def totalSeconds (units : List (Char × Nat)) : Nat :=
  (units.map fun unit => unit.2 * unitSeconds unit.1).sum

def Elapsed.ofNat (d num : Nat) : Elapsed := ⟨Int64.ofNat d, Int64.ofNat num⟩

theorem read_digit (d num : Nat) {c : Char} (digit : c.isDigit = true) :
    (Elapsed.ofNat d num).read c = some (.ofNat d (10 * num + (c.toNat - '0'.toNat))) := by
  rw [Elapsed.read, if_pos digit, Elapsed.ofNat, Elapsed.ofNat, Int64.ofNat_add, Int64.ofNat_mul,
    Int64.mul_comm]
  rfl

theorem read_digits {digits : List Char} (every : ∀ c ∈ digits, c.isDigit = true) (d num : Nat)
    (rest : List Char) :
    (digits ++ rest).foldlM Elapsed.read (.ofNat d num) =
      rest.foldlM Elapsed.read (.ofNat d (Nat.ofDigitChars 10 digits num)) := by
  induction digits generalizing num with
  | nil => rw [List.nil_append, Nat.ofDigitChars_nil]
  | cons c digits ih =>
      rw [List.forall_mem_cons] at every
      rw [List.cons_append, List.foldlM_cons, read_digit d num every.1, Nat.ofDigitChars_cons]
      exact ih every.2 _

theorem read_letter (d num : Nat) {c : Char} (letter : c ∈ unitLetters) :
    (Elapsed.ofNat d num).read c = some (.ofNat (d + num * unitSeconds c * 1000000000) 0) := by
  have closed (factor : Int64) (length : Nat) (same : factor = Int64.ofNat length) :
      (Elapsed.ofNat d num).close (Int64.ofNat num * factor) = .ofNat (d + num * length) 0 := by
    rw [Elapsed.close, Elapsed.ofNat, Elapsed.ofNat, Int64.ofNat_add, Int64.ofNat_mul, same]
    rfl
  simp only [unitLetters, List.mem_cons, List.not_mem_nil, or_false] at letter
  rw [Nat.mul_assoc]
  rcases letter with rfl | rfl | rfl | rfl | rfl
  · rw [← closed (7 * 24 * Int64.ofInt hour) _ (by decide), ← Int64.mul_assoc, ← Int64.mul_assoc]
    rfl
  · rw [← closed (24 * Int64.ofInt hour) _ (by decide), ← Int64.mul_assoc]
    rfl
  · rw [← closed (Int64.ofInt hour) _ (by decide)]
    rfl
  · rw [← closed (Int64.ofInt minute) _ (by decide)]
    rfl
  · rw [← closed (Int64.ofInt second) _ (by decide)]
    rfl

theorem read_printed {units : List (Char × Nat)} {text : List Char} (printed : Printed units text)
    (known : ∀ unit ∈ units, unit.1 ∈ unitLetters) (d : Nat) :
    text.foldlM Elapsed.read (.ofNat d 0) =
      some (.ofNat (d + totalSeconds units * 1000000000) 0) := by
  induction printed generalizing d with
  | nil => simp [totalSeconds]
  | omitted letter _ ih =>
      rw [ih (List.forall_mem_cons.mp known).2]
      simp [totalSeconds]
  | @shown units text letter count _ ih =>
      rw [List.forall_mem_cons] at known
      rw [read_digits (fun c member => Nat.isDigit_of_mem_toDigits (by decide) (by decide) member),
        Nat.ofDigitChars_ten_toDigits, List.foldlM_cons, read_letter d count known.1]
      have total : totalSeconds ((letter, count) :: units) =
          count * unitSeconds letter + totalSeconds units := List.sum_cons
      have nanos : d + totalSeconds ((letter, count) :: units) * 1000000000 =
          d + count * unitSeconds letter * 1000000000 + totalSeconds units * 1000000000 := by
        rw [total, Nat.add_mul, Nat.add_assoc]
      rw [nanos]
      exact ih known.2 _

theorem read_other (state : Elapsed) {c : Char} (notDigit : c.isDigit = false)
    (notUnit : c ∉ unitLetters) : state.read c = none := by
  simp only [unitLetters, List.mem_cons, List.not_mem_nil, or_false, not_or] at notUnit
  obtain ⟨w, d, h, m, s⟩ := notUnit
  simp [Elapsed.read, notDigit, w, d, h, m, s]

theorem read_stops {text : List Char} {c : Char} (member : c ∈ text)
    (notDigit : c.isDigit = false) (notUnit : c ∉ unitLetters) (state : Elapsed) :
    text.foldlM Elapsed.read state = none := by
  induction text generalizing state with
  | nil => exact absurd member List.not_mem_nil
  | cons first rest ih =>
      rw [List.foldlM_cons]
      rcases List.mem_cons.mp member with rfl | later
      · rw [read_other state notDigit notUnit]
        rfl
      · cases state.read first with
        | none => rfl
        | some next => exact ih later next

theorem subtractUptime_of_read {text : String} {nanos : Nat} (positive : 0 < nanos)
    (fits : nanos < 2 ^ 63)
    (reads : text.toList.foldlM Elapsed.read ⟨0, 0⟩ = some (.ofNat nanos 0)) (now : Time) :
    subtractUptime now text = now.add (-nanos) := by
  have value : (Int64.ofNat nanos).toInt = nanos := Int64.toInt_ofNat_of_lt fits
  have negated : (-Int64.ofNat nanos).toInt = -nanos := by
    rw [← Int64.ofInt_eq_ofNat, ← Int64.ofInt_neg]
    exact Int64.toInt_ofInt_of_le (by omega) (by omega)
  have nonzero : Int64.ofNat nanos ≠ 0 := by
    intro zero
    rw [zero] at value
    have : (0 : Int64).toInt = 0 := rfl
    omega
  have present : text ≠ "" := by
    rintro rfl
    exact nonzero (congrArg Elapsed.d (Option.some.inj reads)).symm
  rw [subtractUptime, if_neg present, reads]
  simp only [Elapsed.ofNat, if_neg nonzero, negated]

def uptimeUnits (w d h m s : Nat) : List (Char × Nat) :=
  [('w', w), ('d', d), ('h', h), ('m', m), ('s', s)]

/-- Reading inverts printing, and a text that nobody prints gives the zero time. -/
theorem subtractUptime_printed (now : Time) :
    (∀ (w d h m s total : Nat) (text : String),
      total = 604800 * w + 86400 * d + 3600 * h + 60 * m + s → 0 < total →
      total * 1000000000 < 2 ^ 63 → Printed (uptimeUnits w d h m s) text.toList →
      subtractUptime now text = now.add (-(total * second))) ∧
    ∀ text : String, (∃ c ∈ text.toList, c.isDigit = false ∧ c ∉ unitLetters) →
      subtractUptime now text = .zero := by
  constructor
  · intro w d h m s total text sum positive fits printed
    have seconds : totalSeconds (uptimeUnits w d h m s) = total := by
      simp only [totalSeconds, uptimeUnits, unitSeconds, List.map_cons, List.map_nil,
        List.sum_cons, List.sum_nil]
      omega
    have known : ∀ unit ∈ uptimeUnits w d h m s, unit.1 ∈ unitLetters := by
      simp [uptimeUnits, unitLetters]
    have reads := read_printed printed known 0
    rw [seconds, Nat.zero_add] at reads
    rw [subtractUptime_of_read (by omega) fits reads now]
    simp [second]
  · rintro text ⟨c, member, notDigit, notUnit⟩
    rw [subtractUptime, read_stops member notDigit notUnit]
    split <;> rfl

theorem subtractUptime_printed_sample :
    subtractUptime (.ofUnix 1700000000) "1w0d3h5s" =
        (Time.ofUnix 1700000000).add (-(615605 * second)) ∧
      subtractUptime (.ofUnix 1700000000) "never" = .zero := by
  have both := subtractUptime_printed (.ofUnix 1700000000)
  constructor
  · exact both.1 1 0 3 0 5 615605 "1w0d3h5s" rfl (by decide) (by decide)
      (.shown 'w' 1 (.shown 'd' 0 (.shown 'h' 3 (.omitted 'm' (.shown 's' 5 .nil)))))
  · exact both.2 "never" ⟨'n', by decide, by decide, by decide⟩

end Mitigador.Subscriber
