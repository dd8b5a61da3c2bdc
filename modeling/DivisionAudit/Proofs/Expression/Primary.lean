import DivisionAudit.Proofs.Expression.Quotients
import Mathlib.Tactic.Linarith
import Mathlib.Tactic.Ring

/-!
# The primary expression on both sides of zero

Over the primary divisors the mirrored sums never come out as the least word. The quotients of a
number `m ≥ 0` add up to less than `2 * m`, and its remainders to less than the divisors do, so the
mirrored sums of a word lie above `-m` and below `2 ^ 21`, without a wrap. Hence the primary
expression changes its sign with every number but the least word.

* `mirrored_bounds_of_quotients`: the bounds.
* `mirrored_primary_ne_minValue`: the mirrored sums.
* `primary_neg`: the expression.
-/

namespace DivisionAudit.Expression

theorem primaryDivisors_pos : ∀ p ∈ primaryDivisors, 0 < p := pos_of_allPositive (by decide)

/-- The mirrored sums over the primary divisors, from the quotients of a number. -/
theorem mirrored_bounds_of_quotients {m q2 q4 q8 q1024 q131072 q1048576 : Int} (h0 : 0 ≤ m)
    (h2 : IsQuotient m 2 q2) (h4 : IsQuotient m 4 q4) (h8 : IsQuotient m 8 q8)
    (h1024 : IsQuotient m 1024 q1024) (h131072 : IsQuotient m 131072 q131072)
    (h1048576 : IsQuotient m 1048576 q1048576) :
    -m ≤ 6 * m - (3 * q2 + 5 * q4 + 9 * q8 + 1025 * q1024 + 131073 * q131072
      + 1048577 * q1048576) ∧
    6 * m - (3 * q2 + 5 * q4 + 9 * q8 + 1025 * q1024 + 131073 * q131072 + 1048577 * q1048576)
      < 2 ^ 21 := by
  obtain ⟨l2, u2⟩ := h2
  obtain ⟨l4, u4⟩ := h4
  obtain ⟨l8, u8⟩ := h8
  obtain ⟨l1024, u1024⟩ := h1024
  obtain ⟨l131072, u131072⟩ := h131072
  obtain ⟨l1048576, u1048576⟩ := h1048576
  constructor
  · linarith
  · linarith

theorem exact_primary {n : Int64} (h0 : 0 ≤ n.toInt) :
    exactRemainders primaryDivisors n - exactQuotients primaryDivisors n + n.toInt =
      6 * n.toInt - (3 * (n.toInt / 2) + 5 * (n.toInt / 4) + 9 * (n.toInt / 8)
        + 1025 * (n.toInt / 1024) + 131073 * (n.toInt / 131072)
        + 1048577 * (n.toInt / 1048576)) := by
  have hDivisors : primaryDivisors.map Int64.toInt = [1, 2, 4, 8, 1024, 131072, 1048576] := by
    decide
  rw [exact_of_nonneg h0, hDivisors]
  simp only [List.map_cons, List.map_nil, List.sum_cons, List.sum_nil, Int.ediv_one]
  ring

theorem mirrored_primary_of_nonneg {n : Int64} (h0 : 0 ≤ n.toInt) :
    (sums primaryDivisors n).mirrored ≠ Int64.minValue := by
  have hn : n ≠ Int64.minValue := by
    rintro rfl
    exact absurd h0 (by decide)
  have hu := n.toInt_lt
  obtain ⟨hLower, hUpper⟩ := mirrored_bounds_of_quotients h0 (isQuotient_ediv _ (by decide))
    (isQuotient_ediv _ (by decide)) (isQuotient_ediv _ (by decide))
    (isQuotient_ediv _ (by decide)) (isQuotient_ediv _ (by decide))
    (isQuotient_ediv _ (by decide))
  rw [← exact_primary h0] at hLower hUpper
  rw [mirrored_sums primaryDivisors_pos, leastTerms_of_ne hn]
  intro hLeast
  have hInt := congrArg Int64.toInt hLeast
  rw [Int64.toInt_ofInt_of_le (by omega) (by omega), Int64.toInt_minValue] at hInt
  omega

theorem mirrored_primary_ne_minValue {n : Int64} (h : n ≠ Int64.minValue) :
    (sums primaryDivisors n).mirrored ≠ Int64.minValue := by
  by_cases h0 : 0 ≤ n.toInt
  · exact mirrored_primary_of_nonneg h0
  · have hNeg : 0 ≤ (-n).toInt := by
      rw [toInt_neg_of_ne h]
      omega
    intro hLeast
    apply mirrored_primary_of_nonneg hNeg
    rw [mirrored_sums_neg primaryDivisors_pos h, hLeast]
    decide

/-- The primary expression changes its sign with every number but the least word. -/
theorem primary_neg {n : Int64} (h : n ≠ Int64.minValue) : primary (-n) = -primary n :=
  (weighted_neg_eq_iff primaryDivisors_pos h).mpr (mirrored_primary_ne_minValue h)

end DivisionAudit.Expression
