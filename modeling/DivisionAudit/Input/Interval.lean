import DivisionAudit.Input.Walk
import DivisionAudit.Traced

/-!
# Intervals of words

An interval is scanned word by word from its low end to its high end, both included; it may be the
whole range of words, whose number `2 ^ 64` is the only one that `Interval.length` cannot give.

* `Interval.make`: refuses a low end above the high end.
* `Interval.centered`: all words up to a distance from zero.
-/

namespace DivisionAudit

structure Interval where
  low : Int64
  high : Int64
  low_le_high : low ≤ high
deriving DecidableEq

namespace Interval

def make (low high : Int64) : Attempt Interval :=
  if h : low ≤ high then pure ⟨low, high, h⟩
  else
    .refuse none
      ("rejected dense range [" ++ toString low.toInt ++ ", " ++ toString high.toInt ++ "]: "
        ++ RangeFlaw.lowAboveHigh.reason)
      "DivisionAudit.Interval.make" (.invalidRange low high none RangeFlaw.lowAboveHigh.reason)

/-- The negation of a word, held at the greatest word for the least one. -/
def saturatingNeg (n : Int64) : Int64 := if n = Int64.minValue then Int64.maxValue else -n

def centered (radius : Int64) : Attempt Interval := make (saturatingNeg radius) radius

/-- The number of words of the interval. -/
def size (i : Interval) : Nat := (i.high.toInt - i.low.toInt + 1).toNat

/-- The distance between two words. -/
def distance (m n : Int64) : UInt64 :=
  if m < n then n.toUInt64 - m.toUInt64 else m.toUInt64 - n.toUInt64

/-- The sum of two numbers, held at the greatest word. -/
def saturatingAdd (m n : UInt64) : UInt64 :=
  if m + n < m then UInt64.ofNat (UInt64.size - 1) else m + n

/-- The number of words as a word; the greatest word stands for `2 ^ 64` too. -/
def length (i : Interval) : UInt64 := saturatingAdd (distance i.high i.low) 1

/-- The word at a distance from the low end. -/
def value (i : Interval) (n : Nat) : Int64 := i.low + Int64.ofNat n

def walk (i : Interval) : Walk Int64 := .ofSize i.size i.value

def json (i : Interval) : Json := .object [("low", .ofWord i.low), ("high", .ofWord i.high)]

def diagnostic (i : Interval) : Diagnostic :=
  .record "DenseRange" [("low", .word i.low), ("high", .word i.high)]

end Interval

end DivisionAudit
