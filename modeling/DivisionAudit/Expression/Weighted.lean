/-!
# The weighted division expression over words

For divisors `p` and their negations `-p` the expression sums truncating quotients and
remainders, all modulo `2 ^ 64`:

* `a` and `b` sum `n / p` and `n % p`;
* `c` and `d` start from the quotient and the remainder by the least word and sum `n / (-p)` and
  `n % (-p)`;
* the value is `a + b + (c + d) * 3 / 7`, whose division is the one place where a wrapped sum is
  told from an exact one.

A divisor that is not positive is refused by `evaluate`; `weighted` itself is total.
-/

namespace DivisionAudit.Expression

/-- The four running sums. -/
structure Sums where
  quotients : Int64
  remainders : Int64
  mirroredQuotients : Int64
  mirroredRemainders : Int64
deriving DecidableEq

namespace Sums

/-- The sums before the first divisor. -/
def start (n : Int64) : Sums := ⟨0, 0, n / Int64.minValue, n % Int64.minValue⟩

/-- The sums after one more divisor. -/
def add (n : Int64) (s : Sums) (p : Int64) : Sums where
  quotients := s.quotients + n / p
  remainders := s.remainders + n % p
  mirroredQuotients := s.mirroredQuotients + n / -p
  mirroredRemainders := s.mirroredRemainders + n % -p

/-- The mirrored sums weigh three sevenths. -/
def total (s : Sums) : Int64 :=
  s.quotients + s.remainders + (s.mirroredQuotients + s.mirroredRemainders) * 3 / 7

end Sums

/-- The sums over a list of divisors. -/
def sums (divisors : List Int64) (n : Int64) : Sums := divisors.foldl (Sums.add n) (Sums.start n)

/-- The expression over a list of divisors, taken to be positive. -/
def weighted (divisors : List Int64) (n : Int64) : Int64 := (sums divisors n).total

/-! ## Refused divisors -/

/-- Why an expression has no value. -/
inductive Undefined
  | nonPositiveDivisor
deriving DecidableEq

def Undefined.message : Undefined → String
  | .nonPositiveDivisor => "divisors must be positive"

def allPositive (divisors : List Int64) : Bool := divisors.all (0 < ·)

/-- The expression, or its refusal when some divisor is not positive. -/
def evaluate (divisors : List Int64) (n : Int64) : Except Undefined Int64 :=
  if allPositive divisors then .ok (weighted divisors n) else .error .nonPositiveDivisor

theorem evaluate_eq_ok_iff {divisors : List Int64} {n v : Int64} :
    evaluate divisors n = .ok v ↔ (∀ p ∈ divisors, 0 < p) ∧ v = weighted divisors n := by
  have hall : allPositive divisors = true ↔ ∀ p ∈ divisors, 0 < p := by simp [allPositive]
  unfold evaluate
  split
  · next h => exact ⟨fun e => ⟨hall.mp h, by cases e; rfl⟩, fun e => by rw [e.2]⟩
  · next h => exact ⟨nofun, fun e => absurd (hall.mpr e.1) h⟩

/-! ## The divisors in use -/

/-- Powers of two. -/
def primaryDivisors : List Int64 := [1, 2, 4, 8, 1024, 131072, 1048576]

/-- Odd, even, prime and wide divisors, up to the greatest word. -/
def extendedDivisors : List Int64 :=
  [3, 7, 10, 1000, 65537, 1000000007, 4294967311, Int64.maxValue]

def primary (n : Int64) : Int64 := weighted primaryDivisors n

def extended (n : Int64) : Int64 := weighted extendedDivisors n

end DivisionAudit.Expression
