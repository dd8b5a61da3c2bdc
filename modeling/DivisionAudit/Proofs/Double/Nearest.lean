import Mathlib.Algebra.Order.Floor.Ring
import Mathlib.Algebra.Order.Field.Power
import Mathlib.Data.Int.Log
import Mathlib.Data.Rat.Floor
import Mathlib.Tactic.Linarith
import Mathlib.Tactic.NormNum

/-!
# Rounding to the precision of doubles

A rational number is rounded on a grid whose unit is a power of two: the unit leaves 53 bits of the
number, but is never below `2 ^ (-1074)`. A tie goes to the even multiple. The unit grows with the
number, so rounding keeps the order within one unit, and across units by the power of two between
them, which lies on both grids. Numbers beyond the greatest double are cut off at `2 ^ 1024`, where
the infinities are placed.

* `nearestEven`: the nearest integer, a half to the even one.
* `rounded`, `rounded_mono`: rounding on the grid keeps the order.
* `cut`, `clip`: the bound of all doubles, and a number cut off at it.
-/

namespace DivisionAudit.Double

/-! ## The nearest integer -/

/-- The nearest integer, a half to the even one. -/
def nearestEven (q : ℚ) : ℤ :=
  if Int.fract q < 1 / 2 then ⌊q⌋
  else if 1 / 2 < Int.fract q then ⌊q⌋ + 1
  else ⌊q⌋ + ⌊q⌋ % 2

theorem floor_le_nearestEven (q : ℚ) : ⌊q⌋ ≤ nearestEven q := by
  unfold nearestEven
  split
  · exact le_rfl
  · split
    · omega
    · omega

theorem nearestEven_le_floor_add_one (q : ℚ) : nearestEven q ≤ ⌊q⌋ + 1 := by
  unfold nearestEven
  split
  · omega
  · split
    · exact le_rfl
    · omega

theorem nearestEven_intCast (n : ℤ) : nearestEven n = n := by
  have hFract : Int.fract (n : ℚ) < 1 / 2 := by
    rw [Int.fract_intCast]
    norm_num
  rw [nearestEven, if_pos hFract, Int.floor_intCast]

theorem nearestEven_mono {p q : ℚ} (h : p ≤ q) : nearestEven p ≤ nearestEven q := by
  rcases (Int.floor_mono h).lt_or_eq with hLt | hEq
  · have hp := nearestEven_le_floor_add_one p
    have hq := floor_le_nearestEven q
    omega
  · have hFract : Int.fract p ≤ Int.fract q := by
      unfold Int.fract
      rw [hEq]
      linarith
    unfold nearestEven
    rw [hEq]
    split
    · split
      · exact le_rfl
      · split
        · omega
        · omega
    · next hp =>
      have hq : ¬ Int.fract q < 1 / 2 := fun hq => hp (hFract.trans_lt hq)
      rw [if_neg hq]
      split
      · next hp' => rw [if_pos (hp'.trans_le hFract)]
      · split
        · omega
        · exact le_rfl

theorem nearestEven_le_of_le {q : ℚ} {n : ℤ} (h : q ≤ n) : nearestEven q ≤ n :=
  (nearestEven_mono h).trans_eq (nearestEven_intCast n)

theorem le_nearestEven_of_le {q : ℚ} {n : ℤ} (h : (n : ℚ) ≤ q) : n ≤ nearestEven q :=
  (nearestEven_intCast n).symm.trans_le (nearestEven_mono h)

/-! ## Rounding on the grid -/

/-- The exponent of the unit: a number keeps 53 bits, as far as the least unit lets it. -/
def unitExponent (q : ℚ) : ℤ := max (Int.log 2 q - 52) (-1074)

theorem unitExponent_mono {p q : ℚ} (hp : 0 < p) (h : p ≤ q) : unitExponent p ≤ unitExponent q :=
  max_le_max_right _ (Int.sub_le_sub_right (Int.log_mono_right hp h) 52)

theorem neg_1074_le_unitExponent (q : ℚ) : -1074 ≤ unitExponent q := le_max_right _ _

/-- A number that is not negative, rounded. -/
def roundedSize (q : ℚ) : ℚ := nearestEven (q / 2 ^ unitExponent q) * 2 ^ unitExponent q

/-- A number, rounded; opposite numbers are rounded alike. -/
def rounded (q : ℚ) : ℚ := if 0 ≤ q then roundedSize q else -roundedSize (-q)

section Grid

theorem two_zpow_pos (k : ℤ) : (0 : ℚ) < 2 ^ k := zpow_pos (by norm_num) k

theorem zpow_eq_mul {k e : ℤ} (h : e ≤ k) :
    (2 : ℚ) ^ k = ((2 ^ (k - e).toNat : ℤ) : ℚ) * 2 ^ e := by
  have hNat : ((k - e).toNat : ℤ) = k - e := Int.toNat_of_nonneg (by omega)
  rw [Int.cast_pow, Int.cast_ofNat, ← zpow_natCast, hNat, ← zpow_add₀ (by norm_num)]
  congr 1
  omega

variable {p q : ℚ} {k : ℤ}

/-- A power of two on the grid of a number bounds the rounded number if it bounds the number. -/
theorem roundedSize_le_zpow (hUnit : unitExponent q ≤ k) (h : q ≤ 2 ^ k) :
    roundedSize q ≤ 2 ^ k := by
  have hDiv : q / 2 ^ unitExponent q ≤ ((2 ^ (k - unitExponent q).toNat : ℤ) : ℚ) := by
    rw [div_le_iff₀ (two_zpow_pos _), ← zpow_eq_mul hUnit]
    exact h
  rw [zpow_eq_mul hUnit, roundedSize]
  have hCast : (nearestEven (q / 2 ^ unitExponent q) : ℚ) ≤ (2 ^ (k - unitExponent q).toNat : ℤ) :=
    Int.cast_le.mpr (nearestEven_le_of_le hDiv)
  exact mul_le_mul_of_nonneg_right hCast (two_zpow_pos _).le

theorem zpow_le_roundedSize (hUnit : unitExponent q ≤ k) (h : 2 ^ k ≤ q) :
    2 ^ k ≤ roundedSize q := by
  have hDiv : ((2 ^ (k - unitExponent q).toNat : ℤ) : ℚ) ≤ q / 2 ^ unitExponent q := by
    rw [le_div_iff₀ (two_zpow_pos _), ← zpow_eq_mul hUnit]
    exact h
  rw [zpow_eq_mul hUnit, roundedSize]
  have hCast : ((2 ^ (k - unitExponent q).toNat : ℤ) : ℚ) ≤ nearestEven (q / 2 ^ unitExponent q) :=
    Int.cast_le.mpr (le_nearestEven_of_le hDiv)
  exact mul_le_mul_of_nonneg_right hCast (two_zpow_pos _).le

theorem roundedSize_nonneg (h : 0 ≤ q) : 0 ≤ roundedSize q := by
  have hDiv : ((0 : ℤ) : ℚ) ≤ q / 2 ^ unitExponent q := by
    rw [Int.cast_zero]
    exact div_nonneg h (two_zpow_pos _).le
  exact mul_nonneg (Int.cast_nonneg (le_nearestEven_of_le hDiv)) (two_zpow_pos _).le

theorem roundedSize_zero : roundedSize 0 = 0 := by
  have hZero : nearestEven 0 = 0 := nearestEven_intCast 0
  rw [roundedSize, zero_div, hZero, Int.cast_zero, zero_mul]

theorem roundedSize_mono (hp : 0 ≤ p) (h : p ≤ q) : roundedSize p ≤ roundedSize q := by
  rcases hp.eq_or_lt with rfl | hPos
  · rw [roundedSize_zero]
    exact roundedSize_nonneg h
  rcases (unitExponent_mono hPos h).lt_or_eq with hLt | hEq
  · -- the greatest power of two up to the greater number lies between them and on both grids
    have hq : 0 < q := hPos.trans_le h
    have hUnit : unitExponent q = Int.log 2 q - 52 := by
      have hLow := neg_1074_le_unitExponent p
      unfold unitExponent at hLt ⊢
      omega
    have hLog : Int.log 2 p < Int.log 2 q := by
      have hLow : Int.log 2 p - 52 ≤ unitExponent p := le_max_left _ _
      omega
    have hBelow : p ≤ 2 ^ Int.log 2 q := by
      have hSucc := Int.lt_zpow_succ_log_self (b := 2) (by norm_num) p
      have hPow : (2 : ℚ) ^ (Int.log 2 p + 1) ≤ 2 ^ Int.log 2 q :=
        zpow_le_zpow_right₀ (by norm_num) hLog
      exact (hSucc.le.trans hPow)
    have hAbove : 2 ^ Int.log 2 q ≤ q := Int.zpow_log_le_self (b := 2) (by norm_num) hq
    calc roundedSize p ≤ 2 ^ Int.log 2 q := roundedSize_le_zpow (by omega) hBelow
      _ ≤ roundedSize q := zpow_le_roundedSize (by omega) hAbove
  · have hDiv : p / 2 ^ unitExponent q ≤ q / 2 ^ unitExponent q :=
      div_le_div_of_nonneg_right h (two_zpow_pos _).le
    rw [roundedSize, roundedSize, hEq]
    exact mul_le_mul_of_nonneg_right (Int.cast_le.mpr (nearestEven_mono hDiv)) (two_zpow_pos _).le

theorem roundedSize_zpow (h : -1074 ≤ k) : roundedSize (2 ^ k) = 2 ^ k := by
  have hLog : Int.log 2 ((2 : ℚ) ^ k) = k := Int.log_zpow (by norm_num) k
  have hUnit : unitExponent (2 ^ k) ≤ k := by
    unfold unitExponent
    rw [hLog]
    omega
  exact le_antisymm (roundedSize_le_zpow hUnit le_rfl) (zpow_le_roundedSize hUnit le_rfl)

theorem rounded_of_nonneg (h : 0 ≤ q) : rounded q = roundedSize q := if_pos h

theorem rounded_mono (h : p ≤ q) : rounded p ≤ rounded q := by
  unfold rounded
  split
  · next hp =>
    rw [if_pos (hp.trans h)]
    exact roundedSize_mono hp h
  · next hp =>
    have hp' : 0 ≤ -p := by linarith
    have hNeg := roundedSize_nonneg hp'
    split
    · next hq =>
      have hPos := roundedSize_nonneg hq
      linarith
    · next hq =>
      have hSizes : roundedSize (-q) ≤ roundedSize (-p) :=
        roundedSize_mono (by linarith) (by linarith)
      linarith

theorem rounded_nonneg (h : 0 ≤ q) : 0 ≤ rounded q := by
  rw [rounded_of_nonneg h]
  exact roundedSize_nonneg h

theorem rounded_zpow (h : -1074 ≤ k) : rounded (2 ^ k) = 2 ^ k := by
  rw [rounded_of_nonneg (two_zpow_pos k).le, roundedSize_zpow h]

theorem rounded_le_zpow (hk : -1074 ≤ k) (h : q ≤ 2 ^ k) : rounded q ≤ 2 ^ k :=
  (rounded_mono h).trans_eq (rounded_zpow hk)

end Grid

/-! ## The cut -/

/-- The least power of two beyond all doubles, the place of infinity. -/
def cut : ℚ := 2 ^ (1024 : ℤ)

theorem cut_pos : 0 < cut := two_zpow_pos 1024

/-- A number cut off on either side. -/
def clip (q : ℚ) : ℚ := max (-cut) (min cut q)

theorem clip_of_nonneg {q : ℚ} (h : 0 ≤ q) : clip q = min cut q := by
  have hMin : 0 ≤ min cut q := le_min cut_pos.le h
  exact max_eq_right (by linarith [cut_pos])

theorem clip_neg (q : ℚ) : clip (-q) = -clip q := by
  unfold clip
  rcases le_total cut q with hHigh | hHigh
  · rw [min_eq_left hHigh, min_eq_right (by linarith [cut_pos]), max_eq_left (by linarith),
      max_eq_right (by linarith [cut_pos])]
  · rw [min_eq_right hHigh]
    rcases le_total q (-cut) with hLow | hLow
    · rw [max_eq_left hLow, min_eq_left (by linarith), max_eq_right (by linarith [cut_pos]),
        neg_neg]
    · rw [max_eq_right hLow, min_eq_right (by linarith), max_eq_right (by linarith)]

theorem clip_mono {p q : ℚ} (h : p ≤ q) : clip p ≤ clip q :=
  max_le_max_left _ (min_le_min_left _ h)

end DivisionAudit.Double
