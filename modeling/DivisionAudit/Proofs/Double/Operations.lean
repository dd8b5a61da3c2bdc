import DivisionAudit.Proofs.Double.Unpacked
import Mathlib

/-!
# The arithmetic of doubles on numbers

On operands that are numbers, an operation gives the exact result, rounded. Numbers with the bits
that they have room for are not changed by rounding, so this holds too where an operation returns an
operand as it is.

* `value`: the number that is meant.
* `isRounded_add`, `isRounded_sub`, `isRounded_mul`, `isRounded_div`: the rounded results.
* `toNat_toUInt64`: truncation, by the place alone.
-/

namespace DivisionAudit.Double

open Float.Model (Format UnpackedFloat totalExponent)
open Float.Model.UnpackedFloat

/-- The number that is meant; zero for infinities and NaN. -/
def value : UnpackedFloat → ℚ
  | .notANumber => 0
  | .infinity _ => 0
  | .zero _ => 0
  | .finite s m e _ => factor s * (m * 2 ^ e)

variable {u v w : UnpackedFloat}

theorem level_of_isFinite (h : u.isFinite = true) : level u = (value u : ℚ) := by
  cases u with
  | infinity => cases h
  | notANumber => cases h
  | zero => rfl
  | finite => rfl

theorem unitExponent_canonical {m : ℕ} {e : ℤ} (hm : 0 < m) (hSize : m < 2 ^ 53)
    (hLeast : -1074 ≤ e) (hFull : 2 ^ 52 ≤ m ∨ e = -1074) : unitExponent (m * 2 ^ e) = e := by
  have hHigh : m.log2 < 53 := (Nat.log2_lt hm.ne').mpr hSize
  rw [unitExponent, log_eq hm (floor_size_div_unit e m)]
  rcases hFull with hFull | rfl
  · have hLow : 52 ≤ m.log2 := (Nat.le_log2 hm.ne').mpr hFull
    omega
  · omega

theorem rounded_value (h : Canonical u) : rounded (value u) = value u := by
  cases u with
  | finite s m e hm =>
    obtain ⟨hSize, hLeast, hFull⟩ := h
    rw [value, rounded_factor s (size_nonneg e m), roundedSize,
      unitExponent_canonical hm hSize hLeast hFull, size_div_unit, ← Int.cast_natCast,
      nearestEven_intCast]
  | infinity | notANumber | zero =>
    rw [value, rounded_of_nonneg le_rfl, roundedSize_zero]

theorem isRounded_value (h : Canonical u) (hFinite : u.isFinite = true) :
    IsRounded u (value u) := by
  refine ⟨h, ?_⟩
  rw [rounded_value h, level_of_isFinite hFinite]

/-! ## Sums -/

theorem apply_decreaseExponent (s : Sign) (m : ℕ) {e t : ℤ} (h : t ≤ e) :
    ((s.apply (decreaseExponent m e t).1 : ℤ) : ℚ) * 2 ^ t = factor s * (m * 2 ^ e) := by
  have hNat : ((e - t).toNat : ℤ) = e - t := Int.toNat_of_nonneg (by omega)
  have hExponent : (decreaseExponent m e t).2 = t := by
    unfold decreaseExponent
    dsimp only
    omega
  have hSame := decreaseExponent_eq m e t
  rw [hExponent] at hSame
  rw [← hSame]
  cases s with
  | negative =>
    rw [Sign.apply, factor, Int.cast_neg, Int.cast_natCast]
    ring
  | positive =>
    rw [Sign.apply, factor, Int.cast_natCast]
    ring

theorem isRounded_add (hu : Canonical u) (hv : Canonical v) (hFinite : u.isFinite = true)
    (hFinite' : v.isFinite = true) : IsRounded (add .binary64 u v) (value u + value v) := by
  cases u with
  | infinity => cases hFinite
  | notANumber => cases hFinite
  | zero s =>
    cases v with
    | infinity => cases hFinite'
    | notANumber => cases hFinite'
    | zero s' =>
      have hZero : ∃ z, add .binary64 (.zero s) (.zero s') = .zero z := by
        rw [add]
        split
        · exact ⟨_, rfl⟩
        · exact ⟨_, rfl⟩
      obtain ⟨z, hz⟩ := hZero
      rw [hz, value, value, add_zero]
      exact isRounded_zero z
    | finite s' m e hm =>
      have hZero : value (.zero s) = 0 := rfl
      rw [hZero, zero_add]
      exact isRounded_value hv rfl
  | finite s m e hm =>
    cases v with
    | infinity => cases hFinite'
    | notANumber => cases hFinite'
    | zero s' =>
      have hZero : value (.zero s') = 0 := rfl
      rw [hZero, add_zero]
      exact isRounded_value hu rfl
    | finite s' m' e' hm' =>
      rw [value, value, ← apply_decreaseExponent s m (min_le_left e e'),
        ← apply_decreaseExponent s' m' (min_le_right e e'), ← add_mul, ← Int.cast_add]
      exact isRounded_normalize _ _ _

theorem factor_neg (s : Sign) : factor (-s) = -factor s := by
  cases s with
  | negative => exact (neg_neg 1).symm
  | positive => rfl

theorem value_neg (u : UnpackedFloat) : value u.neg = -value u := by
  cases u with
  | finite s m e hm =>
    have hNeg : value (neg (.finite s m e hm)) = factor (-s) * (m * 2 ^ e) := rfl
    rw [hNeg, factor_neg, value, neg_mul]
  | infinity | notANumber | zero => exact neg_zero.symm

theorem canonical_neg (h : Canonical u) : Canonical u.neg := by
  cases u with
  | finite => exact h
  | infinity | notANumber | zero => trivial

theorem isFinite_neg (u : UnpackedFloat) : u.neg.isFinite = u.isFinite := by
  cases u with
  | infinity | notANumber | zero | finite => rfl

theorem apply_neg (s : Sign) (n : ℤ) : (-s).apply n = -s.apply n := by
  cases s with
  | negative => exact (Int.neg_neg n).symm
  | positive => rfl

/-- A difference is the sum with the negation. -/
theorem sub_eq_add (u v : UnpackedFloat) :
    sub .binary64 u v = add .binary64 u v.neg := by
  cases u with
  | notANumber => rfl
  | infinity | zero =>
    cases v with
    | infinity | notANumber | zero | finite => rfl
  | finite s m e hm =>
    cases v with
    | infinity | notANumber | zero => rfl
    | finite s' m' e' hm' =>
      dsimp only [sub]
      rw [Int.sub_eq_add_neg, ← apply_neg]
      rfl

theorem isRounded_sub (hu : Canonical u) (hv : Canonical v) (hFinite : u.isFinite = true)
    (hFinite' : v.isFinite = true) : IsRounded (sub .binary64 u v) (value u - value v) := by
  rw [sub_eq_add, sub_eq_add_neg, ← value_neg]
  exact isRounded_add hu (canonical_neg hv) hFinite ((isFinite_neg v).trans hFinite')

/-! ## Products -/

theorem factor_mul (s s' : Sign) : factor (s * s') = factor s * factor s' := by
  cases s with
  | negative =>
    cases s' with
    | negative => exact (by norm_num : (1 : ℚ) = -1 * -1)
    | positive => exact (mul_one (-1)).symm
  | positive =>
    cases s' with
    | negative => exact (one_mul (-1)).symm
    | positive => exact (one_mul 1).symm

/-- A product has the bits that its exponent has room for. -/
theorem exponent_mul_le {m m' : ℕ} {e e' : ℤ} (hm : 0 < m) (hm' : 0 < m')
    (hFull : 2 ^ 52 ≤ m ∨ e = -1074) (hFull' : 2 ^ 52 ≤ m' ∨ e' = -1074) :
    e + e' ≤ Format.binary64.targetExponent (totalExponent (m * m') (e + e')) := by
  rw [targetExponent_eq, totalExponent]
  by_cases hLarge : 2 ^ 52 ≤ m * m'
  · have hLog := (Nat.le_log2 (Nat.mul_pos hm hm').ne').mpr hLarge
    omega
  · have hLe : m ≤ m * m' := Nat.le_mul_of_pos_right m hm'
    have hLe' : m' ≤ m * m' := Nat.le_mul_of_pos_left m' hm
    omega

theorem isRounded_mul (hu : Canonical u) (hv : Canonical v) (hFinite : u.isFinite = true)
    (hFinite' : v.isFinite = true) : IsRounded (mul .binary64 u v) (value u * value v) := by
  cases u with
  | infinity => cases hFinite
  | notANumber => cases hFinite
  | zero s =>
    rw [value, zero_mul]
    cases v with
    | infinity => cases hFinite'
    | notANumber => cases hFinite'
    | zero | finite => exact isRounded_zero _
  | finite s m e hm =>
    cases v with
    | infinity => cases hFinite'
    | notANumber => cases hFinite'
    | zero s' =>
      have hZero : value (.zero s') = 0 := rfl
      rw [hZero, mul_zero]
      exact isRounded_zero _
    | finite s' m' e' hm' =>
      have hPos : (0 : ℚ) < m * 2 ^ e * (m' * 2 ^ e') := mul_pos (size_pos e hm) (size_pos e' hm')
      have hWhole : (m : ℚ) * 2 ^ e * (m' * 2 ^ e') / 2 ^ (e + e') = (m * m' : ℕ) := by
        rw [zpow_add₀ (by norm_num), Nat.cast_mul, mul_mul_mul_comm]
        exact mul_div_cancel_right₀ _ (mul_pos (two_zpow_pos e) (two_zpow_pos e')).ne'
      rw [value, value, mul_mul_mul_comm, ← factor_mul]
      exact isRounded_roundWithAccuracy (s * s') hPos
        (hWhole ▸ Represents.exact (m * m')) (exponent_mul_le hm hm' hu.2.2 hv.2.2)

/-! ## Quotients -/

theorem factor_div (s s' : Sign) : factor (s / s') = factor s / factor s' := by
  cases s with
  | negative =>
    cases s' with
    | negative => exact (by norm_num : (1 : ℚ) = -1 / -1)
    | positive => exact (div_one (-1)).symm
  | positive =>
    cases s' with
    | negative => exact (by norm_num : (-1 : ℚ) = 1 / -1)
    | positive => exact (div_one 1).symm

theorem floor_quotient (m n : ℕ) : ⌊(m : ℚ) / n⌋ = (m / n : ℕ) := Rat.floor_intCast_div_natCast m n

theorem fract_quotient (m : ℕ) {n : ℕ} (hn : 0 < n) :
    Int.fract ((m : ℚ) / n) = (m % n : ℕ) / n := by
  have hPos : (0 : ℚ) < n := Nat.cast_pos.mpr hn
  have hDiv : (m : ℚ) = n * (m / n : ℕ) + (m % n : ℕ) := by
    exact_mod_cast (Nat.div_add_mod m n).symm
  rw [Int.fract, floor_quotient, Int.cast_natCast, eq_div_iff hPos.ne', sub_mul,
    div_mul_cancel₀ _ hPos.ne']
  linarith

/-- Of a quotient rounding needs the whole quotient, and where the remainder is relative to half of
the divisor. -/
theorem represents_of_remainder {m n : ℕ} {accuracy : Accuracy} (hn : 0 < n)
    (hRound : (ExtendedMantissa.ofMantissaAndAccuracy (m / n) accuracy).roundBit = true ↔
      n ≤ 2 * (m % n))
    (hSticky : (ExtendedMantissa.ofMantissaAndAccuracy (m / n) accuracy).stickyBit = true ↔
      m % n ≠ 0 ∧ 2 * (m % n) ≠ n) :
    Represents (.ofMantissaAndAccuracy (m / n) accuracy) ((m : ℚ) / n) := by
  have hPos : (0 : ℚ) < n := Nat.cast_pos.mpr hn
  have hHalf : 1 / 2 ≤ ((m % n : ℕ) : ℚ) / n ↔ n ≤ 2 * (m % n) := by
    rw [div_le_div_iff₀ (by norm_num) hPos, one_mul, mul_comm _ (2 : ℚ)]
    exact_mod_cast Iff.rfl
  have hTie : ((m % n : ℕ) : ℚ) / n = 1 / 2 ↔ 2 * (m % n) = n := by
    rw [div_eq_div_iff hPos.ne' (by norm_num), one_mul, mul_comm _ (2 : ℚ)]
    exact_mod_cast Iff.rfl
  have hZero : ((m % n : ℕ) : ℚ) / n = 0 ↔ m % n = 0 := by
    rw [div_eq_zero_iff, or_iff_left hPos.ne']
    exact Nat.cast_eq_zero
  refine ⟨?_, ?_, ?_⟩
  · rw [mantissa_ofMantissaAndAccuracy, floor_quotient]
  · rw [hRound, fract_quotient m hn, hHalf]
  · rw [hSticky, fract_quotient m hn, Ne, Ne, Ne, Ne, hZero, hTie]

theorem represents_quotient (m : ℕ) {n : ℕ} (hn : 0 < n) :
    Represents (.ofMantissaAndAccuracy (m / n) (accuracyOfFraction (m % n) n)) ((m : ℚ) / n) := by
  unfold accuracyOfFraction
  split
  · exact represents_of_remainder hn (iff_of_false Bool.false_ne_true (by omega))
      (iff_of_false Bool.false_ne_true (by omega))
  · rcases lt_trichotomy (2 * (m % n)) n with hLt | hEq | hGt
    · rw [Nat.compare_eq_lt.mpr hLt]
      exact represents_of_remainder hn (iff_of_false Bool.false_ne_true (by omega))
        (iff_of_true rfl (by omega))
    · rw [Nat.compare_eq_eq.mpr hEq]
      exact represents_of_remainder hn (iff_of_true rfl (by omega))
        (iff_of_false Bool.false_ne_true (by omega))
    · rw [Nat.compare_eq_gt.mpr hGt]
      exact represents_of_remainder hn (iff_of_true rfl (by omega)) (iff_of_true rfl (by omega))

theorem log_sub_le_log_div {p q : ℚ} (hp : 0 < p) (hq : 0 < q) :
    Int.log 2 p - (Int.log 2 q + 1) ≤ Int.log 2 (p / q) := by
  have hNumerator := Int.zpow_log_le_self (b := 2) (by norm_num) hp
  have hDenominator := Int.lt_zpow_succ_log_self (b := 2) (by norm_num) q
  apply (Int.zpow_le_iff_le_log (by norm_num) (div_pos hp hq)).mp
  rw [Nat.cast_ofNat, zpow_sub₀ (by norm_num)]
  exact div_le_div₀ hp.le hNumerator hq hDenominator.le

/-- The dividend is shifted far enough that the whole quotient has the bits that its exponent has
room for. -/
theorem divCore_eq {m m' : ℕ} (e e' : ℤ) (hm : 0 < m) (hm' : 0 < m') : ∃ (n : ℕ) (t : ℤ),
    divCore .binary64 m e m' e' = (n / m', t, accuracyOfFraction (n % m') m') ∧
      (m * 2 ^ e / (m' * 2 ^ e') / 2 ^ t : ℚ) = n / m' ∧
        t ≤ Format.binary64.targetExponent (totalExponent (n / m') t) := by
  obtain ⟨t, ht⟩ : ∃ t, t = min (e - e')
    (Format.binary64.targetExponent (totalExponent m e - totalExponent m' e')) := ⟨_, rfl⟩
  have hNat : ((e - e' - t).toNat : ℤ) = e - e' - t := Int.toNat_of_nonneg (by omega)
  have hPos : (0 : ℚ) < m * 2 ^ e := size_pos e hm
  have hPos' : (0 : ℚ) < m' * 2 ^ e' := size_pos e' hm'
  have hQuotient : (m * 2 ^ e / (m' * 2 ^ e') / 2 ^ t : ℚ) =
      (m <<< (e - e' - t).toNat : ℕ) / m' := by
    have hPow : (2 : ℚ) ^ e = 2 ^ (e - e' - t).toNat * (2 ^ e' * 2 ^ t) := by
      rw [← zpow_natCast, hNat, ← zpow_add₀ (by norm_num), ← zpow_add₀ (by norm_num)]
      congr 1
      ring
    rw [Nat.shiftLeft_eq, Nat.cast_mul, Nat.cast_pow, Nat.cast_ofNat, hPow, div_div, ← mul_assoc,
      mul_assoc (m' : ℚ)]
    exact mul_div_mul_right _ _ (mul_pos (two_zpow_pos e') (two_zpow_pos t)).ne'
  refine ⟨m <<< (e - e' - t).toNat, t, ht ▸ rfl, hQuotient, ?_⟩
  -- the quotient has at least as many digits as the lengths of its operands promise
  have hLog := log_sub_le_log_div hPos hPos'
  rw [log_eq hm (floor_size_div_unit e m), log_eq hm' (floor_size_div_unit e' m')] at hLog
  have hFloor : ⌊(m * 2 ^ e / (m' * 2 ^ e') / 2 ^ t : ℚ)⌋ =
      (m <<< (e - e' - t).toNat / m' : ℕ) := by
    rw [hQuotient]
    exact Rat.floor_intCast_div_natCast (m <<< (e - e' - t).toNat : ℕ) m'
  have hTotal := log_lt_totalExponent (div_pos hPos hPos') hFloor
  rw [targetExponent_eq] at ht ⊢
  unfold totalExponent at ht hTotal ⊢
  omega

theorem isRounded_div (hFinite : u.isFinite = true) (hFinite' : v.isFinite = true)
    (hv : value v ≠ 0) : IsRounded (div .binary64 u v) (value u / value v) := by
  cases v with
  | infinity => cases hFinite'
  | notANumber => cases hFinite'
  | zero => exact absurd rfl hv
  | finite s' m' e' hm' =>
    cases u with
    | infinity => cases hFinite
    | notANumber => cases hFinite
    | zero s =>
      have hZero : value (.zero s) = 0 := rfl
      rw [hZero, zero_div]
      exact isRounded_zero _
    | finite s m e hm =>
      obtain ⟨n, t, hCore, hQuotient, hTarget⟩ := divCore_eq e e' hm hm'
      have hPos : (0 : ℚ) < m * 2 ^ e / (m' * 2 ^ e') :=
        div_pos (size_pos e hm) (size_pos e' hm')
      dsimp only [div]
      rw [hCore, value, value, mul_div_mul_comm, ← factor_div]
      exact isRounded_roundWithAccuracy (s / s') hPos
        (hQuotient ▸ represents_quotient n hm') hTarget

/-! ## Words -/

theorem isRounded_ofUInt64 (n : UInt64) : IsRounded (ofUInt64 .binary64 n) n.toNat := by
  have hNormalize := isRounded_normalize n.toNat 0 .positive
  rw [zpow_zero, mul_one, Int.cast_natCast] at hNormalize
  exact hNormalize

theorem roundToInt_eq (s : Sign) (m : ℕ) (e : ℤ) :
    roundToInt s m e = s.apply ⌊(m : ℚ) * 2 ^ e⌋ := by
  obtain ⟨m', hm'⟩ : ∃ m', m' = (decreaseExponent m e 0).1 := ⟨_, rfl⟩
  obtain ⟨e', he'⟩ : ∃ e', e' = (decreaseExponent m e 0).2 := ⟨_, rfl⟩
  have hLe : e' ≤ 0 := by
    rw [he', decreaseExponent]
    dsimp only
    omega
  have hWhole : (m : ℚ) * 2 ^ e / 2 ^ e' = m' := by
    rw [← decreaseExponent_eq m e 0, ← hm', ← he', size_div_unit]
  have hShifted := (represents_shifted (hWhole ▸ Represents.exact m') hLe).floor_eq
  rw [zpow_zero, div_one] at hShifted
  rw [hShifted, roundToInt]
  dsimp only
  rw [← hm', ← he', shiftToExponent_of_le _ hLe]

theorem toNat_ofNatClamp (n : ℕ) : (UInt64.ofNatClamp n).toNat = min n (2 ^ 64 - 1) := by
  have hSize : UInt64.size = 2 ^ 64 := rfl
  rcases Nat.lt_or_ge n UInt64.size with hLt | hGe
  · rw [UInt64.toNat_ofNatClamp_of_lt hLt]
    omega
  · rw [UInt64.toNat_ofNatClamp_of_le hGe]
    omega

theorem toNat_floor_of_nonpos {q : ℚ} (h : q ≤ 0) : ⌊q⌋.toNat = 0 :=
  Int.toNat_of_nonpos (Int.floor_nonpos h)

theorem lt_toNat_floor_cut : 2 ^ 64 - 1 < ⌊cut⌋.toNat := by
  have hPow : (2 : ℚ) ^ (64 : ℤ) ≤ cut := zpow_le_zpow_right₀ (by norm_num) (by norm_num)
  have hFloor : 2 ^ 64 ≤ ⌊cut⌋ := by
    apply Int.le_floor.mpr
    exact_mod_cast hPow
  omega

/-- Truncation to a word: a number below zero goes to zero and one above all words to the greatest
word. -/
theorem toNat_toUInt64 {q : ℚ} (h : level u = q) :
    u.toUInt64.toNat = min ⌊q⌋.toNat (2 ^ 64 - 1) := by
  rw [UnpackedFloat.toUInt64, toNat_ofNatClamp]
  cases u with
  | notANumber => exact absurd h.symm (WithBot.coe_ne_bot)
  | zero s =>
    have hZero : q = 0 := (WithBot.coe_injective h).symm
    rw [hZero, Int.floor_zero]
    rfl
  | infinity s =>
    have hCut : factor s * cut = q := WithBot.coe_injective h
    rw [← hCut]
    cases s with
    | positive =>
      rw [factor, one_mul, min_eq_right lt_toNat_floor_cut.le]
      rfl
    | negative =>
      rw [factor, neg_one_mul, toNat_floor_of_nonpos (by linarith [cut_pos])]
      rfl
  | finite s m e hm =>
    have hSize : factor s * (m * 2 ^ e) = q := WithBot.coe_injective h
    have hNonneg := size_nonneg e m
    have hInt : UnpackedFloat.toInt 0 (UInt64.size - 1) (.finite s m e hm) =
        s.apply ⌊(m : ℚ) * 2 ^ e⌋ := roundToInt_eq s m e
    rw [hInt, ← hSize]
    cases s with
    | positive => rw [factor, one_mul, Sign.apply]
    | negative =>
      have hFloor := Int.floor_nonneg.mpr hNonneg
      rw [factor, neg_one_mul, toNat_floor_of_nonpos (neg_nonpos.mpr hNonneg), Sign.apply,
        Int.toNat_of_nonpos (by omega)]

theorem toUInt64_mono (h : level u ≤ level v) : u.toUInt64 ≤ v.toUInt64 := by
  rw [UInt64.le_iff_toNat_le]
  cases hu : level u with
  | bot =>
    cases u with
    | notANumber => exact Nat.zero_le _
    | infinity | zero | finite => exact absurd hu WithBot.coe_ne_bot
  | coe p =>
    cases hv : level v with
    | bot =>
      rw [hu, hv] at h
      exact absurd h (WithBot.not_coe_le_bot p)
    | coe q =>
      rw [hu, hv, WithBot.coe_le_coe] at h
      rw [toNat_toUInt64 hu, toNat_toUInt64 hv]
      exact min_le_min_right _ (Int.toNat_le_toNat (Int.floor_mono h))

end DivisionAudit.Double
