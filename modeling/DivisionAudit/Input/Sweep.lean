import DivisionAudit.Input.Walk
import DivisionAudit.Traced

/-!
# Sweeps over magnitudes

A sweep takes samples between two words of one sign, evenly by the logarithm of their magnitude,
from the smaller magnitude upwards. The logarithms are rounded, so a sample is clamped between the
magnitudes of the bounds; the least word has the magnitude `2 ^ 63`.

* `Sweep.make`: refuses a zero bound, bounds of two signs and a sweep without samples.
* `Sweep.Arithmetic`: the real operations that a sweep is computed with.
* `Sweep.valueAt`: a sample, over any arithmetic.
-/

namespace DivisionAudit

structure Sweep where
  start : Int64
  stop : Int64
  count : UInt64
  start_ne_zero : start ≠ 0
  stop_ne_zero : stop ≠ 0
  same_sign : start < 0 ↔ stop < 0
  count_ne_zero : count ≠ 0
deriving DecidableEq

namespace Sweep

/-! ## Bounds -/

/-- Refuses the bounds for a flaw. -/
def reject (start stop : Int64) (count : UInt64) (flaw : RangeFlaw) : Attempt Sweep :=
  .refuse none
    ("rejected magnitude range [" ++ toString start.toInt ++ ", " ++ toString stop.toInt
      ++ "] with " ++ toString count.toNat ++ " samples: " ++ flaw.reason)
    "DivisionAudit.Sweep.make" (.invalidRange start stop (some count) flaw.reason)

def make (start stop : Int64) (count : UInt64) : Attempt Sweep :=
  if hZero : start = 0 ∨ stop = 0 then reject start stop count .zeroBound
  else if hSign : ¬(start < 0 ↔ stop < 0) then reject start stop count .crossesZero
  else if hCount : count = 0 then reject start stop count .noSamples
  else pure ⟨start, stop, count, fun h => hZero (.inl h), fun h => hZero (.inr h),
    Decidable.not_not.mp hSign, hCount⟩

/-- A sweep over all positive words. -/
def positive (count : UInt64) : Attempt Sweep := make 1 Int64.maxValue count

/-- A sweep over all negative words. -/
def negative (count : UInt64) : Attempt Sweep := make Int64.minValue (-1) count

def isNegative (s : Sweep) : Bool := s.start < 0

/-- The distance of a word from zero; `2 ^ 63` for the least word. -/
def magnitude (n : Int64) : UInt64 := n.abs.toUInt64

def low (s : Sweep) : UInt64 := min (magnitude s.start) (magnitude s.stop)

def high (s : Sweep) : UInt64 := max (magnitude s.start) (magnitude s.stop)

/-! ## Samples -/

/-- The operations on reals that a sweep is computed with. -/
structure Arithmetic (R : Type) where
  ofWord : UInt64 → R
  log : R → R
  exp : R → R
  add : R → R → R
  sub : R → R → R
  mul : R → R → R
  div : R → R → R
  /-- Truncates, to the nearest word when there is none. -/
  toWord : R → UInt64

/-- The arithmetic of doubles. -/
def Arithmetic.double : Arithmetic Float where
  ofWord := UInt64.toFloat
  log := Float.log
  exp := Float.exp
  add := (· + ·)
  sub := (· - ·)
  mul := (· * ·)
  div := (· / ·)
  toWord := Float.toUInt64

variable {R : Type}

/-- The word of a magnitude at a part `i / count` of the way between two logarithms. -/
def between (A : Arithmetic R) (logLow logHigh : R) (count : UInt64) (i : Nat) : UInt64 :=
  let part := A.div (A.ofWord (UInt64.ofNat i)) (A.ofWord count)
  A.toWord (A.exp (A.add logLow (A.mul part (A.sub logHigh logLow))))

/-- A magnitude kept between those of the bounds. -/
def clamp (s : Sweep) (m : UInt64) : UInt64 := max s.low (min s.high m)

/-- The word of a magnitude on the sweep's side of zero. -/
def signed (s : Sweep) (m : UInt64) : Int64 := if s.isNegative then -m.toInt64 else m.toInt64

/-- The sample at a position, from the logarithms of the bounds' magnitudes. -/
def sample (A : Arithmetic R) (s : Sweep) (logLow logHigh : R) (i : Nat) : Int64 :=
  s.signed (s.clamp (between A logLow logHigh s.count i))

/-- The sample at a position. -/
def valueAt (A : Arithmetic R) (s : Sweep) (i : Nat) : Int64 :=
  s.sample A (A.log (A.ofWord s.low)) (A.log (A.ofWord s.high)) i

/-- The walk over the samples; the logarithms are taken once. -/
def walkOver (A : Arithmetic R) (s : Sweep) : Walk Int64 :=
  let logLow := A.log (A.ofWord s.low)
  let logHigh := A.log (A.ofWord s.high)
  .ofSize s.count.toNat fun i => s.sample A logLow logHigh i

theorem value_walkOver (A : Arithmetic R) (s : Sweep) : (s.walkOver A).value = s.valueAt A := rfl

def walk (s : Sweep) : Walk Int64 := s.walkOver .double

/-! ## Texts -/

def json (s : Sweep) : Json := .object [
  ("start", .ofWord s.start),
  ("end", .ofWord s.stop),
  ("count", .ofNat s.count.toNat)]

def diagnostic (s : Sweep) : Diagnostic := .record "MagnitudeRange" [
  ("start", .word s.start),
  ("end", .word s.stop),
  ("count", .unsigned s.count)]

end Sweep

end DivisionAudit
