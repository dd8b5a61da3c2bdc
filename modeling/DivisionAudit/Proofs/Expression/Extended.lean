import DivisionAudit.Proofs.Expression.Quotients
import DivisionAudit.Subject
import Mathlib.Tactic.IntervalCases
import Mathlib.Tactic.Linarith
import Mathlib.Tactic.Ring

/-!
# The extended expression on both sides of zero

Over the extended divisors the mirrored sums come out as the least word at one number and at its
negation, `exceptional` and `-exceptional`, and nowhere else. There the expression fails to change
its sign; everywhere else, the least word apart, it does.

The mirrored sums of a number `m ≥ 0` are `9 * m` less a multiple of each quotient of `m`. That
`2 ^ 63` is met once is shown by fixing the quotients from the widest divisor down: the sum moves by
at least `m` when the quotients by the wide divisors are fixed, so each of them leaves the next one
at most two values, and in the end at most four numbers `m`.

* `eq_exceptional_of_quotients`: the search through the quotients.
* `mirrored_extended_eq_minValue_iff`: the two exceptions.
* `extended_neg_eq_iff`: the sign and the verdict on the mirrored reference, but for the exceptions.
-/

namespace DivisionAudit.Expression

/-- The number where the mirrored sums over the extended divisors wrap to the least word. -/
def exceptional : Int64 := 6482576060479519476

/-! ## Quotients -/

theorem eq_or_eq_of_le {q a b : Int} (ha : a ≤ q) (hb : q ≤ b) (h : b = a + 1) :
    q = a ∨ q = b := by
  omega

/-- A number whose mirrored sums are `2 ^ 63`. The quotients are fixed from the widest divisor down;
in every case but one no number is left in the end. -/
theorem eq_exceptional_of_quotients {m q3 q7 q10 q1000 q65537 qNear qFar : Int}
    (h3 : IsQuotient m 3 q3) (h7 : IsQuotient m 7 q7) (h10 : IsQuotient m 10 q10)
    (h1000 : IsQuotient m 1000 q1000) (h65537 : IsQuotient m 65537 q65537)
    (hNear : IsQuotient m 1000000007 qNear) (hFar : IsQuotient m 4294967311 qFar)
    (h : 9 * m - (4 * q3 + 8 * q7 + 11 * q10 + 1001 * q1000 + 65538 * q65537 + 1000000008 * qNear
      + 4294967312 * qFar) = 2 ^ 63) :
    m = 6482576060479519476 := by
  obtain ⟨l3, u3⟩ := h3
  obtain ⟨l7, u7⟩ := h7
  obtain ⟨l10, u10⟩ := h10
  obtain ⟨l1000, u1000⟩ := h1000
  obtain ⟨l65537, u65537⟩ := h65537
  obtain ⟨lNear, uNear⟩ := hNear
  obtain ⟨lFar, uFar⟩ := hFar
  have hFar : qFar = 1509342350 ∨ qFar = 1509342351 :=
    eq_or_eq_of_le (by linarith) (by linarith) rfl
  rcases hFar with rfl | rfl
  · have hNear : qNear = 6482576012 ∨ qNear = 6482576013 :=
      eq_or_eq_of_le (by linarith) (by linarith) rfl
    rcases hNear with rfl | rfl
    · obtain rfl : q65537 = 98914751336622 := le_antisymm (by linarith) (by linarith)
      obtain rfl : q1000 = 6482576058348235 := le_antisymm (by linarith) (by linarith)
      have hl : 6482576058348235488 ≤ m := by linarith
      have hu : m ≤ 6482576058348235491 := by linarith
      interval_cases m <;> omega
    · obtain rfl : q65537 = 98914751341080 := le_antisymm (by linarith) (by linarith)
      obtain rfl : q1000 = 6482576058640395 := le_antisymm (by linarith) (by linarith)
      have hl : 6482576058640395559 ≤ m := by linarith
      have hu : m ≤ 6482576058640395561 := by linarith
      interval_cases m <;> omega
  · have hNear : qNear = 6482576014 ∨ qNear = 6482576015 :=
      eq_or_eq_of_le (by linarith) (by linarith) rfl
    rcases hNear with rfl | rfl
    · have h65537 : q65537 = 98914751364684 ∨ q65537 = 98914751364685 :=
        eq_or_eq_of_le (by linarith) (by linarith) rfl
      rcases h65537 with rfl | rfl
      · obtain rfl : q1000 = 6482576060187359 := le_antisymm (by linarith) (by linarith)
        have hl : 6482576060187359404 ≤ m := by linarith
        have hu : m ≤ 6482576060187359406 := by linarith
        interval_cases m <;> omega
      · obtain rfl : q1000 = 6482576060187374 := le_antisymm (by linarith) (by linarith)
        have hl : 6482576060187374256 ≤ m := by linarith
        have hu : m ≤ 6482576060187374258 := by linarith
        interval_cases m <;> omega
    · have h65537 : q65537 = 98914751369142 ∨ q65537 = 98914751369143 :=
        eq_or_eq_of_le (by linarith) (by linarith) rfl
      rcases h65537 with rfl | rfl
      · -- the one case with a number left: of the four, the third
        obtain rfl : q1000 = 6482576060479519 := le_antisymm (by linarith) (by linarith)
        have hl : 6482576060479519474 ≤ m := by linarith
        have hu : m ≤ 6482576060479519477 := by linarith
        interval_cases m <;> omega
      · obtain rfl : q1000 = 6482576060479534 := le_antisymm (by linarith) (by linarith)
        have hl : 6482576060479534326 ≤ m := by linarith
        have hu : m ≤ 6482576060479534328 := by linarith
        interval_cases m <;> omega

/-- A number of the words whose mirrored sums wrap to the least word: exactly, they are `2 ^ 63`,
for they stay between zero and three times that. -/
theorem eq_exceptional_of_bmod {m q3 q7 q10 q1000 q65537 qNear qFar qTop : Int}
    (h3 : IsQuotient m 3 q3) (h7 : IsQuotient m 7 q7) (h10 : IsQuotient m 10 q10)
    (h1000 : IsQuotient m 1000 q1000) (h65537 : IsQuotient m 65537 q65537)
    (hNear : IsQuotient m 1000000007 qNear) (hFar : IsQuotient m 4294967311 qFar)
    (hTop : IsQuotient m 9223372036854775807 qTop) (h0 : 0 ≤ m) (hm : m < 2 ^ 63)
    (h : (9 * m - (4 * q3 + 8 * q7 + 11 * q10 + 1001 * q1000 + 65538 * q65537 + 1000000008 * qNear
      + 4294967312 * qFar) - 2 ^ 63 * qTop).bmod (2 ^ 64) = -2 ^ 63) :
    m = 6482576060479519476 := by
  have hExact := Int.bmod_add_bdiv (9 * m - (4 * q3 + 8 * q7 + 11 * q10 + 1001 * q1000
    + 65538 * q65537 + 1000000008 * qNear + 4294967312 * qFar) - 2 ^ 63 * qTop) (2 ^ 64)
  rw [h] at hExact
  generalize Int.bdiv _ _ = k at hExact
  push_cast at hExact
  have hTop : qTop = 0 ∨ qTop = 1 ∧ m = 9223372036854775807 := by
    have := hTop.mul_le
    have := hTop.lt_add
    omega
  have ⟨l3, u3⟩ := h3
  have ⟨l7, u7⟩ := h7
  have ⟨l10, u10⟩ := h10
  have ⟨l1000, u1000⟩ := h1000
  have ⟨l65537, u65537⟩ := h65537
  have ⟨lNear, uNear⟩ := hNear
  have ⟨lFar, uFar⟩ := hFar
  rcases hTop with rfl | ⟨rfl, rfl⟩
  · obtain rfl : k = 1 := le_antisymm (by linarith) (by linarith)
    exact eq_exceptional_of_quotients h3 h7 h10 h1000 h65537 hNear hFar (by linarith)
  · -- at the greatest word the exact sum stays below `2 ^ 63`
    have hk : k < 1 := by linarith
    have hk' : 0 < k := by linarith
    omega

/-! ## Mirrored sums -/

theorem extendedDivisors_pos : ∀ p ∈ extendedDivisors, 0 < p := pos_of_allPositive (by decide)

/-- Each remainder is the number less a multiple of its quotient. -/
theorem exact_extended {n : Int64} (h0 : 0 ≤ n.toInt) (h : n ≠ Int64.minValue) :
    exactRemainders extendedDivisors n - exactQuotients extendedDivisors n + leastTerms n =
      9 * n.toInt - (4 * (n.toInt / 3) + 8 * (n.toInt / 7) + 11 * (n.toInt / 10)
        + 1001 * (n.toInt / 1000) + 65538 * (n.toInt / 65537) + 1000000008 * (n.toInt / 1000000007)
        + 4294967312 * (n.toInt / 4294967311)) - 2 ^ 63 * (n.toInt / 9223372036854775807) := by
  have hDivisors : extendedDivisors.map Int64.toInt =
      [3, 7, 10, 1000, 65537, 1000000007, 4294967311, 9223372036854775807] := by decide
  rw [exact_of_nonneg h0, hDivisors, leastTerms_of_ne h]
  simp only [List.map_cons, List.map_nil, List.sum_cons, List.sum_nil]
  ring

theorem mirrored_extended_of_nonneg {n : Int64} (h0 : 0 ≤ n.toInt)
    (h : (sums extendedDivisors n).mirrored = Int64.minValue) : n = exceptional := by
  have hn : n ≠ Int64.minValue := by
    rintro rfl
    exact absurd h0 (by decide)
  have hu := n.toInt_lt
  rw [mirrored_sums extendedDivisors_pos, exact_extended h0 hn,
    Int64.ofInt_eq_iff_bmod_eq_toInt, Int64.toInt_minValue] at h
  have hInt : n.toInt = 6482576060479519476 := by
    refine eq_exceptional_of_bmod ?_ ?_ ?_ ?_ ?_ ?_ ?_ ?_ h0 hu h
    all_goals exact isQuotient_ediv _ (by decide)
  exact Int64.toInt_inj.mp hInt

theorem mirrored_extended_eq_minValue_iff {n : Int64} :
    (sums extendedDivisors n).mirrored = Int64.minValue ↔ n = exceptional ∨ n = -exceptional := by
  constructor
  · intro h
    by_cases h0 : 0 ≤ n.toInt
    · exact .inl (mirrored_extended_of_nonneg h0 h)
    · have hn : n ≠ Int64.minValue := by
        rintro rfl
        exact absurd h (by decide)
      have hNeg : -n = exceptional := by
        apply mirrored_extended_of_nonneg
        · rw [toInt_neg_of_ne hn]
          omega
        · rw [mirrored_sums_neg extendedDivisors_pos hn, h]
          decide
      exact .inr (by rw [← hNeg, Int64.neg_neg])
  · rintro (rfl | rfl) <;> decide

/-! ## The expression -/

theorem passes_compare_mirrored_iff {n : Int64} (h : n ≠ Int64.minValue) :
    (Outcome.compare Operation.extended n (mirrored extended n)).passes = true ↔
      extended (-n) = -extended n := by
  rw [Outcome.passes_compare, mirrored, if_neg h]
  simp only [Domain.agree, Operation.extended, beq_iff_eq]
  constructor
  · intro e
    rw [← e, Int64.neg_neg]
  · intro e
    rw [e, Int64.neg_neg]

/-- The extended expression changes its sign with every number but the least word and the two
exceptions, and the reference asked on the other side of zero passes everywhere but at those two. -/
theorem extended_neg_eq_iff (n : Int64) :
    (n ≠ Int64.minValue →
      (extended (-n) = -extended n ↔ n ≠ exceptional ∧ n ≠ -exceptional)) ∧
    ((Outcome.compare Operation.extended n (mirrored extended n)).passes = true ↔
      n ≠ exceptional ∧ n ≠ -exceptional) := by
  have hOdd (h : n ≠ Int64.minValue) :
      extended (-n) = -extended n ↔ n ≠ exceptional ∧ n ≠ -exceptional := by
    rw [extended, extended, weighted_neg_eq_iff extendedDivisors_pos h, Ne,
      mirrored_extended_eq_minValue_iff, not_or]
  refine ⟨hOdd, ?_⟩
  by_cases h : n = Int64.minValue
  · subst h
    decide
  · rw [passes_compare_mirrored_iff h, hOdd h]

/-- A neighbour of an exception is none. -/
theorem extended_neg_eq_beside_exceptional :
    (6482576060479519475 : Int64) ≠ Int64.minValue ∧
    extended (-6482576060479519475) = -extended 6482576060479519475 :=
  ⟨by decide, ((extended_neg_eq_iff 6482576060479519475).1 (by decide)).mpr (by decide)⟩

theorem extended_neg_ne_at_exceptional :
    (6482576060479519476 : Int64) ≠ Int64.minValue ∧
    extended (-6482576060479519476) ≠ -extended 6482576060479519476 ∧
    (Outcome.compare Operation.extended 6482576060479519476
      (mirrored extended 6482576060479519476)).passes = false := by
  decide

end DivisionAudit.Expression
