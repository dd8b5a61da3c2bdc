import DivisionAudit.Proofs.Decimal.Value
import Mathlib.Algebra.Order.Field.Power
import Mathlib.Tactic.Linarith
import Mathlib.Tactic.NormNum

/-!
# The decimals that round to a magnitude

The comparisons of the search, over natural numbers, are those of rational numbers with the ends of
an interval around the magnitude. Every decimal the search gives lies in it. The intervals of two
magnitudes among the doubles have no number in common: neighbours meet in an end at most, which
belongs to the one with the even significand only.

* `readsBack_iff`: what the search compares.
* `contains_shortest`: what it finds.
* `Canonical.eq_of_contains`: a number rounds to one magnitude.
-/

namespace DivisionAudit

namespace Magnitude

/-! ## The interval -/

section Interval

variable (m : Magnitude)

/-- A quarter of the last bit. -/
def quarter : ℚ := 2 ^ (m.exponent - 2)

theorem quarter_pos : 0 < m.quarter := zpow_pos (by norm_num) _

/-- The number rounds to the magnitude; an end of the interval does when the significand is
even. -/
def Contains (q : ℚ) : Prop :=
  if m.significand % 2 = 0 then m.lower * m.quarter ≤ q ∧ q ≤ m.upper * m.quarter
  else m.lower * m.quarter < q ∧ q < m.upper * m.quarter

variable {m} {q : ℚ} (h : m.Contains q)
include h

theorem Contains.lower_le : m.lower * m.quarter ≤ q := by
  unfold Contains at h
  split at h
  · exact h.1
  · exact h.1.le

theorem Contains.le_upper : q ≤ m.upper * m.quarter := by
  unfold Contains at h
  split at h
  · exact h.2
  · exact h.2.le

theorem Contains.even_of_le_lower (hEnd : q ≤ m.lower * m.quarter) : m.significand % 2 = 0 := by
  by_contra hOdd
  rw [Contains, if_neg hOdd] at h
  exact absurd h.1 (not_lt.mpr hEnd)

theorem Contains.even_of_upper_le (hEnd : m.upper * m.quarter ≤ q) : m.significand % 2 = 0 := by
  by_contra hOdd
  rw [Contains, if_neg hOdd] at h
  exact absurd h.2 (not_lt.mpr hEnd)

end Interval

theorem lower_le_center (m : Magnitude) : m.lower ≤ m.center := Nat.sub_le _ _

theorem lower_lt_center {m : Magnitude} (h : 0 < m.significand) : m.lower < m.center := by
  unfold lower center
  split
  · omega
  · omega

theorem center_lt_upper (m : Magnitude) : m.center < m.upper := Nat.lt_add_of_pos_right (by decide)

/-- The magnitude itself rounds to it. -/
theorem contains_center (m : Magnitude) : m.Contains (m.center * m.quarter) := by
  have hQuarter := m.quarter_pos
  have hUpper : (m.center : ℚ) < m.upper := Nat.cast_lt.mpr m.center_lt_upper
  unfold Contains
  split
  · have hLower : (m.lower : ℚ) ≤ m.center := Nat.cast_le.mpr m.lower_le_center
    exact ⟨mul_le_mul_of_nonneg_right hLower hQuarter.le,
      mul_le_mul_of_nonneg_right hUpper.le hQuarter.le⟩
  · next hOdd =>
    have hLower : (m.lower : ℚ) < m.center := Nat.cast_lt.mpr (lower_lt_center (by omega))
    exact ⟨mul_lt_mul_of_pos_right hLower hQuarter, mul_lt_mul_of_pos_right hUpper hQuarter⟩

/-- Of two significands with one exponent the smaller one's interval ends where the other begins at
the latest, and only does if the two follow each other, so that one of them is odd. -/
theorem Contains.significand_le {m n : Magnitude} {q : ℚ} (h : m.Contains q) (h' : n.Contains q)
    (hExponent : m.exponent = n.exponent) : n.significand ≤ m.significand := by
  by_contra hLt
  have hQuarter : m.quarter = n.quarter := by rw [quarter, quarter, hExponent]
  have hEnds : m.upper ≤ n.lower := by
    unfold upper lower center
    split
    · omega
    · omega
  have hEndsCast : (m.upper : ℚ) * m.quarter ≤ n.lower * n.quarter := by
    rw [hQuarter]
    exact mul_le_mul_of_nonneg_right (Nat.cast_le.mpr hEnds) n.quarter_pos.le
  have hEven := h.even_of_upper_le (hEndsCast.trans h'.lower_le)
  have hEven' := h'.even_of_le_lower (h.le_upper.trans hEndsCast)
  have hMeet : n.lower ≤ m.upper := by
    have hCast := h'.lower_le.trans h.le_upper
    rw [hQuarter] at hCast
    exact Nat.cast_le.mp (le_of_mul_le_mul_right hCast n.quarter_pos)
  unfold upper lower center at hMeet
  split at hMeet
  · omega
  · omega

/-! ## Exact comparisons -/

/-- The part of a power that the natural numbers of a comparison lack is on its other side. -/
theorem cast_pow_toNat {b : ℕ} (hb : b ≠ 0) (k : ℤ) :
    ((Nat.pow b k.toNat : ℕ) : ℚ) = (b : ℚ) ^ k * (Nat.pow b (-k).toNat : ℕ) := by
  have hCast : (b : ℚ) ≠ 0 := Nat.cast_ne_zero.mpr hb
  have hPow (n : ℕ) : ((Nat.pow b n : ℕ) : ℚ) = (b : ℚ) ^ (n : ℤ) := by
    rw [zpow_natCast]
    exact Nat.cast_pow b n
  rw [hPow, hPow, ← zpow_add₀ hCast]
  congr 1
  omega

section Compare

variable (m : Magnitude) (k : ℤ)

/-- What a step of the grid and a quarter are both multiplied with. -/
def commonScale : ℚ := (Nat.pow 2 (2 - m.exponent).toNat : ℕ) * (Nat.pow 10 (-k).toNat : ℕ)

theorem commonScale_pos : 0 < m.commonScale k := by
  unfold commonScale
  have hTwo : 0 < Nat.pow 2 (2 - m.exponent).toNat := Nat.pow_pos (by decide)
  have hTen : 0 < Nat.pow 10 (-k).toNat := Nat.pow_pos (by decide)
  exact mul_pos (Nat.cast_pos.mpr hTwo) (Nat.cast_pos.mpr hTen)

theorem quarterScale_eq : (m.quarterScale k : ℚ) = m.quarter * m.commonScale k := by
  rw [quarterScale, Nat.cast_mul, cast_pow_toNat two_ne_zero, neg_sub, quarter, commonScale,
    mul_assoc]
  rfl

theorem gridScale_eq : (m.gridScale k : ℚ) = 10 ^ k * m.commonScale k := by
  rw [gridScale, Nat.cast_mul, cast_pow_toNat (by decide), commonScale, mul_assoc]
  rw [mul_comm (((Nat.pow 10 (-k).toNat : ℕ) : ℚ))]
  rfl

variable (u c : ℕ)

theorem le_step_iff : u * m.quarterScale k ≤ c * m.gridScale k ↔
    (u : ℚ) * m.quarter ≤ c * 10 ^ k := by
  rw [← Nat.cast_le (α := ℚ), Nat.cast_mul, Nat.cast_mul, quarterScale_eq, gridScale_eq,
    ← mul_assoc, ← mul_assoc]
  exact mul_le_mul_iff_left₀ (m.commonScale_pos k)

theorem step_le_iff : c * m.gridScale k ≤ u * m.quarterScale k ↔
    (c : ℚ) * 10 ^ k ≤ u * m.quarter := by
  rw [← Nat.cast_le (α := ℚ), Nat.cast_mul, Nat.cast_mul, quarterScale_eq, gridScale_eq,
    ← mul_assoc, ← mul_assoc]
  exact mul_le_mul_iff_left₀ (m.commonScale_pos k)

end Compare

theorem readsBack_iff {m : Magnitude} {k : ℤ} {c : ℕ} :
    m.readsBack k c = true ↔ m.Contains (Decimal.value ⟨c, k⟩) := by
  unfold readsBack Contains Decimal.value
  dsimp only
  split
  · rw [decide_eq_true_iff, le_step_iff, step_le_iff]
  · rw [decide_eq_true_iff, ← not_le, ← not_le, le_step_iff, step_le_iff, not_le, not_le]

/-! ## What the search finds -/

theorem Tie.choose_eq (tie : Tie) (c : ℕ) : tie.choose c = c ∨ tie.choose c = c + 1 := by
  cases tie with
  | up => exact .inr rfl
  | even => exact ite_eq_or_eq _ _ _

theorem readsBack_of_nearest? {tie : Tie} {m : Magnitude} {k : ℤ} {c : ℕ}
    (h : m.nearest? tie k = some c) : m.readsBack k c = true := by
  unfold nearest? at h
  dsimp only at h
  split at h
  · next hc hc' =>
    have hTie := Tie.choose_eq tie (m.center * m.quarterScale k / m.gridScale k)
    rw [Option.some.injEq] at h
    subst h
    split
    · exact hc
    split
    · exact hc'
    rcases hTie with hTie | hTie
    · rwa [hTie]
    · rwa [hTie]
  · next hc hc' => rwa [← Option.some.inj h]
  · next hc hc' => rwa [← Option.some.inj h]
  · cases h

theorem center_mul_quarter (m : Magnitude) :
    (m.center : ℚ) * m.quarter = m.significand * 2 ^ m.exponent := by
  have hFour : (2 : ℚ) ^ m.exponent = 4 * 2 ^ (m.exponent - 2) := by
    rw [zpow_sub₀ two_ne_zero]
    norm_num
    ring
  rw [center, quarter, hFour, Nat.cast_mul, Nat.cast_ofNat]
  ring

theorem value_exact (m : Magnitude) : m.exact.value = m.center * m.quarter := by
  rw [center_mul_quarter]
  unfold exact
  split
  · next h =>
    have hNone : (-m.exponent).toNat = 0 := Int.toNat_eq_zero.mpr (by omega)
    rw [Decimal.value, Nat.cast_mul, cast_pow_toNat two_ne_zero, hNone]
    norm_num
  · next h =>
    have hNone : (- -m.exponent).toNat = 0 := Int.toNat_eq_zero.mpr (by omega)
    have hTen : (10 : ℚ) ^ m.exponent = 5 ^ m.exponent * 2 ^ m.exponent := by
      rw [← mul_zpow]
      norm_num
    have hFive : (5 : ℚ) ^ (-m.exponent) * 5 ^ m.exponent = 1 := by
      rw [← zpow_add₀ (by norm_num), Int.add_left_neg, zpow_zero]
    rw [Decimal.value, Nat.cast_mul, cast_pow_toNat (by decide), hNone]
    calc (m.significand : ℚ) * (((5 : ℕ) : ℚ) ^ (-m.exponent) * ((Nat.pow 5 0 : ℕ) : ℚ))
          * 10 ^ m.exponent
        = m.significand * (5 ^ (-m.exponent) * 5 ^ m.exponent) * 2 ^ m.exponent := by
          rw [hTen]
          push_cast
          ring
      _ = m.significand * 2 ^ m.exponent := by rw [hFive, mul_one]

theorem contains_search (tie : Tie) (m : Magnitude) (grids : ℕ) (k : ℤ) :
    m.Contains (m.search tie grids k).value := by
  induction grids generalizing k with
  | zero =>
    rw [search, value_exact]
    exact m.contains_center
  | succ grids ih =>
    rw [search]
    split
    · next c h => exact readsBack_iff.mp (readsBack_of_nearest? h)
    · exact ih (k - 1)

theorem contains_shortest (tie : Tie) (m : Magnitude) : m.Contains (m.shortest tie).value :=
  contains_search tie m 24 m.coarsestGrid

/-! ## Magnitudes among the doubles -/

/-- The magnitude of a double: 53 bits, the first of them set unless the exponent is the least, and
a narrow gap below the powers of two with a smaller exponent under them. -/
structure Canonical (m : Magnitude) : Prop where
  significand_lt : m.significand < 2 ^ 53
  le_exponent : -1074 ≤ m.exponent
  le_significand : -1074 < m.exponent → 2 ^ 52 ≤ m.significand
  narrowBelow_iff : m.narrowBelow = true ↔ m.significand = 2 ^ 52 ∧ -1074 < m.exponent

namespace Canonical

variable {m n : Magnitude} {q : ℚ}

/-- Below a power of two the gap is half as wide, or the significand is greater. -/
theorem le_lower (hm : m.Canonical) (h : -1074 < m.exponent) : 2 ^ 54 ≤ m.lower + 1 := by
  have hFirst := hm.le_significand h
  unfold lower center
  split
  · omega
  · next hNarrow =>
    have hne : m.significand ≠ 2 ^ 52 := fun e => hNarrow (hm.narrowBelow_iff.mpr ⟨e, h⟩)
    omega

variable (hm : m.Canonical) (hn : n.Canonical) (h : m.Contains q) (h' : n.Contains q)
include hm hn h h'

/-- An interval with a smaller exponent ends where the other begins at the latest, and only does
with the greatest significand, which is odd. -/
theorem exponent_le : n.exponent ≤ m.exponent := by
  by_contra hLt
  have hLower : (2 ^ 54 : ℚ) ≤ n.lower + 1 := by
    have hNat := hn.le_lower (by have := hm.le_exponent; omega)
    exact_mod_cast hNat
  have hQuarter : 2 * m.quarter ≤ n.quarter := by
    rw [quarter, ← zpow_one_add₀ two_ne_zero]
    exact zpow_le_zpow_right₀ one_le_two (by omega)
  have hPos := m.quarter_pos
  have hBegin : (2 ^ 55 - 2) * m.quarter ≤ q := by
    calc (2 ^ 55 - 2) * m.quarter = (2 ^ 54 - 1) * (2 * m.quarter) := by ring
      _ ≤ n.lower * n.quarter := by gcongr; linarith
      _ ≤ q := h'.lower_le
  have hUpper : (m.upper : ℚ) + 2 ≤ 2 ^ 55 := by
    have hNat : m.upper + 2 ≤ 2 ^ 55 := by
      have := hm.significand_lt
      unfold upper center
      omega
    exact_mod_cast hNat
  have hEven := h.even_of_upper_le
    (le_trans (mul_le_mul_of_nonneg_right (by linarith) m.quarter_pos.le) hBegin)
  have hLast : 2 ^ 55 ≤ m.upper + 2 := by
    have hCast : (2 ^ 55 - 2 : ℚ) ≤ m.upper :=
      le_of_mul_le_mul_right (hBegin.trans h.le_upper) m.quarter_pos
    have hSum : (2 ^ 55 : ℚ) ≤ m.upper + 2 := by linarith
    exact_mod_cast hSum
  have hLess := hm.significand_lt
  unfold upper center at hLast
  omega

/-- A number rounds to one magnitude. -/
theorem eq_of_contains : m = n := by
  have hExponent : m.exponent = n.exponent :=
    le_antisymm (exponent_le hn hm h' h) (exponent_le hm hn h h')
  have hSignificand : m.significand = n.significand :=
    le_antisymm (h'.significand_le h hExponent.symm) (h.significand_le h' hExponent)
  have hNarrow : m.narrowBelow = n.narrowBelow := by
    rw [Bool.eq_iff_iff, hm.narrowBelow_iff, hn.narrowBelow_iff, hExponent, hSignificand]
  cases m
  cases n
  exact (mk.injEq ..).mpr ⟨hSignificand, hExponent, hNarrow⟩

end Canonical

end Magnitude

end DivisionAudit
