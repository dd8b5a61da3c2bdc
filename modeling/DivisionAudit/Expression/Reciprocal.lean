import DivisionAudit.Number.Binary64

/-!
# The weighted division expression over doubles

The quotients of a number by the divisors are added from left to right, each rounded; so are the
quotients by the negated divisors. The order is part of the value, for floating-point sums do not
reassociate.
-/

namespace DivisionAudit.Expression

/-- The divisors of the expression over doubles. -/
def doubleDivisors : List Binary64 :=
  [1.0, 2.0, 4.0, 8.0, 1024.0, 0.5, 0.0009765625, 3.0, 10.0]

/-- The sum of `x / (f d)` over the divisors `d`, from left to right; it starts from the first
quotient, not from zero, so that a sum of negative zeros stays negative. -/
def quotientSum (f : Binary64 → Binary64) (x : Binary64) : List Binary64 → Binary64
  | [] => 0.0
  | d :: ds => ds.foldl (fun sum p => sum + x / f p) (x / f d)

/-- The quotients plus three sevenths of the mirrored quotients. -/
def doubles (x : Binary64) : Binary64 :=
  quotientSum id x doubleDivisors + 3.0 * quotientSum Neg.neg x doubleDivisors / 7.0

/-- As `doubles`, with the division by seven done by its rounded reciprocal. -/
def doublesByReciprocal (x : Binary64) : Binary64 :=
  quotientSum id x doubleDivisors + 3.0 * quotientSum Neg.neg x doubleDivisors * (1.0 / 7.0)

end DivisionAudit.Expression
