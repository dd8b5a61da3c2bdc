import DivisionAudit.Proofs.Expression.Symmetry

/-!
# Sums of quotients of a number that is not negative

Where a number is not negative, the truncating quotients are the Euclidean ones, and each remainder
is the number less a multiple of its quotient. So the exact sums are linear in the number and its
quotients, which the divisors bound from both sides.

* `IsQuotient`: the two bounds.
* `exact_of_nonneg`: remainders less quotients, divisor by divisor.
-/

namespace DivisionAudit.Expression

/-- `q` is the quotient of `m` by `p`. -/
structure IsQuotient (m p q : Int) : Prop where
  mul_le : p * q ≤ m
  lt_add : m < p * q + p

theorem isQuotient_ediv (m : Int) {p : Int} (h : 0 < p) : IsQuotient m p (m / p) where
  mul_le := Int.mul_ediv_self_le (by omega)
  lt_add := Int.lt_mul_ediv_self_add h

theorem exact_of_nonneg {n : Int64} (h0 : 0 ≤ n.toInt) (divisors : List Int64) :
    exactRemainders divisors n - exactQuotients divisors n =
      ((divisors.map Int64.toInt).map fun p => n.toInt - (p + 1) * (n.toInt / p)).sum := by
  induction divisors with
  | nil => rfl
  | cons p ps ih =>
    have hRemainder : n.toInt.tmod p.toInt = n.toInt - p.toInt * (n.toInt / p.toInt) := by
      rw [Int.tmod_def, Int.tdiv_eq_ediv_of_nonneg h0]
    simp only [exactRemainders, exactQuotients, List.map_cons, List.sum_cons] at ih ⊢
    rw [hRemainder, Int.tdiv_eq_ediv_of_nonneg h0, ← ih, Int.add_mul, Int.one_mul]
    omega

end DivisionAudit.Expression
