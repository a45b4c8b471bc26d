import Mathlib.Tactic.Linarith

/-! Go's `time.Time` read as one clock: nanoseconds since the zero time, which is the first
instant of year 1. -/

namespace Mitigador.Go

abbrev Duration := Int

def second : Duration := 1000000000
def minute : Duration := 60 * second
def hour : Duration := 60 * minute

def minDuration : Duration := -2 ^ 63
def maxDuration : Duration := 2 ^ 63 - 1

structure Time where
  ns : Int
  deriving DecidableEq, Repr

namespace Time

def zero : Time := ⟨0⟩

/-- Seconds from year 1 to 1970. -/
def unixToInternal : Int := 62135596800

def unix (t : Time) : Int := t.ns / second - unixToInternal

/-- `time.Unix(sec, 0)`. -/
def ofUnix (sec : Int) : Time := ⟨(sec + unixToInternal) * second⟩

def add (t : Time) (d : Duration) : Time := ⟨t.ns + d⟩

/-- `Time.Sub` saturates at the ends of `Duration`. -/
def sub (t u : Time) : Duration := max minDuration (min maxDuration (t.ns - u.ns))

def after (t u : Time) : Bool := u.ns < t.ns

def before (t u : Time) : Bool := t.ns < u.ns

@[simp] theorem unix_ofUnix (sec : Int) : (ofUnix sec).unix = sec := by
  simp [unix, ofUnix, second]

end Time

end Mitigador.Go
