import DivisionAudit.Proofs.Expression.Exact
import Mathlib.Algebra.BigOperators.Group.List.Basic

/-!
# The expression on both sides of zero

Quotients, remainders and their exact sums change their sign with the number, and so do the mirrored
sums together. Their weighing does as well, with one exception: the least word is its own negation,
and its seventh is not. So the expression is odd exactly where the mirrored sums do not come out as
the least word.

* `mirrored_sums_neg`: the mirrored sums change their sign.
* `neg_div_seven`: so does a seventh of a word other than the least one.
* `weighted_neg_eq_iff`: where the expression changes its sign.
* `evaluate_opposites`: what the values at a number and at its opposite leave over.
-/

namespace DivisionAudit.Expression

/-! ## Exact sums -/

theorem exactQuotients_neg (divisors : List Int64) {n : Int64} (h : n ≠ Int64.minValue) :
    exactQuotients divisors (-n) = -exactQuotients divisors n := by
  unfold exactQuotients
  rw [List.sum_neg, List.map_map]
  simp only [toInt_neg_of_ne h, Int.neg_tdiv, Function.comp_def]

theorem exactRemainders_neg (divisors : List Int64) {n : Int64} (h : n ≠ Int64.minValue) :
    exactRemainders divisors (-n) = -exactRemainders divisors n := by
  unfold exactRemainders
  rw [List.sum_neg, List.map_map]
  simp only [toInt_neg_of_ne h, Int.neg_tmod, Function.comp_def]

theorem neg_ne_minValue {n : Int64} (h : n ≠ Int64.minValue) : -n ≠ Int64.minValue := by
  intro e
  have hn : n = -Int64.minValue := by rw [← e, Int64.neg_neg]
  exact h (hn.trans (by decide))

theorem leastTerms_of_ne {n : Int64} (h : n ≠ Int64.minValue) : leastTerms n = n.toInt := if_neg h

theorem leastTerms_neg {n : Int64} (h : n ≠ Int64.minValue) : leastTerms (-n) = -leastTerms n := by
  rw [leastTerms_of_ne h, leastTerms_of_ne (neg_ne_minValue h), toInt_neg_of_ne h]

/-! ## Mirrored sums -/

variable {divisors : List Int64} {n : Int64}

theorem mirrored_sums (hd : ∀ p ∈ divisors, 0 < p) (n : Int64) :
    (sums divisors n).mirrored =
      Int64.ofInt (exactRemainders divisors n - exactQuotients divisors n + leastTerms n) := by
  rw [sums_eq_ofExact n hd, Sums.mirrored_ofExact]

theorem mirrored_sums_neg (hd : ∀ p ∈ divisors, 0 < p) (h : n ≠ Int64.minValue) :
    (sums divisors (-n)).mirrored = -(sums divisors n).mirrored := by
  rw [mirrored_sums hd, mirrored_sums hd, exactRemainders_neg divisors h,
    exactQuotients_neg divisors h, leastTerms_neg h, ← Int64.ofInt_neg]
  congr 1
  omega

theorem weighted_eq (hd : ∀ p ∈ divisors, 0 < p) (n : Int64) :
    weighted divisors n = Int64.ofInt (exactQuotients divisors n + exactRemainders divisors n) +
      (sums divisors n).mirrored * 3 / 7 := by
  rw [weighted, Sums.total_eq, Int64.ofInt_add]
  simp only [sums_eq_ofExact n hd, Sums.ofExact]

/-! ## Weighing -/

theorem neg_div_seven {w : Int64} (h : w ≠ Int64.minValue) : -w / 7 = -(w / 7) := by
  rw [div_eq_ofInt, div_eq_ofInt, toInt_neg_of_ne h, Int.neg_tdiv, Int64.ofInt_neg]

/-- Three is invertible among the words. -/
theorem mul_three_eq_minValue_iff {w : Int64} : w * 3 = Int64.minValue ↔ w = Int64.minValue := by
  constructor
  · intro h
    have hInverse : w * 3 * -6148914691236517205 = w := by
      rw [Int64.mul_assoc]
      exact Int64.mul_one w
    rw [← hInverse, h]
    decide
  · rintro rfl
    decide

/-- The weighed sum of a mirrored sum and of its negation cancel, but for the least word. -/
theorem weigh_neg_eq_iff {w : Int64} : -w * 3 / 7 = -(w * 3 / 7) ↔ w ≠ Int64.minValue := by
  constructor
  · rintro h rfl
    exact absurd h (by decide)
  · intro h
    rw [Int64.neg_mul, neg_div_seven (mt mul_three_eq_minValue_iff.mp h)]

/-- The expression changes its sign with the number exactly where the mirrored sums are not the
least word. -/
theorem weighted_neg_eq_iff (hd : ∀ p ∈ divisors, 0 < p) (h : n ≠ Int64.minValue) :
    weighted divisors (-n) = -weighted divisors n ↔
      (sums divisors n).mirrored ≠ Int64.minValue := by
  rw [weighted_eq hd, weighted_eq hd, mirrored_sums_neg hd h, exactQuotients_neg divisors h,
    exactRemainders_neg divisors h, ← Int.neg_add, Int64.ofInt_neg, Int64.neg_add,
    Int64.sub_eq_add_neg, Int64.add_right_inj, weigh_neg_eq_iff]

/-- The values at a number and at its opposite leave over what the weighing does. -/
theorem weighted_add_weighted_neg (hd : ∀ p ∈ divisors, 0 < p) (h : n ≠ Int64.minValue) :
    weighted divisors n + weighted divisors (-n) =
      (sums divisors n).mirrored * 3 / 7 + -(sums divisors n).mirrored * 3 / 7 := by
  rw [weighted_eq hd n, weighted_eq hd (-n), mirrored_sums_neg hd h, exactQuotients_neg divisors h,
    exactRemainders_neg divisors h, ← Int.neg_add, Int64.ofInt_neg]
  generalize Int64.ofInt _ = direct
  generalize (sums divisors n).mirrored * 3 / 7 = weighed
  generalize -(sums divisors n).mirrored * 3 / 7 = weighedOpposite
  grind

/-- Over positive divisors the values at a number other than the least word and at its opposite are
opposite exactly where the mirrored sums are not the least word. Where they are, the two values
leave over two sevenths of it. -/
theorem evaluate_opposites (divisors : List Int64) (hd : ∀ p ∈ divisors, 0 < p) (n : Int64)
    (hn : n ≠ Int64.minValue) :
    ∃ v w, evaluate divisors n = .ok v ∧ evaluate divisors (-n) = .ok w ∧
      (w = -v ↔ (sums divisors n).mirrored ≠ Int64.minValue) ∧
      ((sums divisors n).mirrored = Int64.minValue → v + w = 2 * (Int64.minValue / 7)) := by
  refine ⟨weighted divisors n, weighted divisors (-n), evaluate_eq_ok_iff.mpr ⟨hd, rfl⟩,
    evaluate_eq_ok_iff.mpr ⟨hd, rfl⟩, weighted_neg_eq_iff hd hn, ?_⟩
  intro hLeast
  rw [weighted_add_weighted_neg hd hn, hLeast]
  decide

/-- The mirrored sums of this number are the least word. -/
theorem evaluate_opposites_least :
    allPositive extendedDivisors = true ∧ (6482576060479519476 : Int64) ≠ Int64.minValue ∧
      (sums extendedDivisors 6482576060479519476).mirrored = Int64.minValue ∧
      ∃ v w, evaluate extendedDivisors 6482576060479519476 = .ok v ∧
        evaluate extendedDivisors (-6482576060479519476) = .ok w ∧ w ≠ -v ∧
        v + w = 2 * (Int64.minValue / 7) := by
  have hLeast : (sums extendedDivisors 6482576060479519476).mirrored = Int64.minValue := by decide
  obtain ⟨v, w, hv, hw, hOdd, hSum⟩ := evaluate_opposites extendedDivisors
    (pos_of_allPositive (by decide)) 6482576060479519476 (by decide)
  have hne : w ≠ -v := fun e => hOdd.mp e hLeast
  exact ⟨by decide, by decide, hLeast, v, w, hv, hw, hne, hSum hLeast⟩

end DivisionAudit.Expression
