import DivisionAudit.Proofs.Double.Operations

/-!
# Doubles as they are stored

A number is stored with 52 bits of its mantissa, since the leading one is known unless the exponent
is the least, and with eleven bits for its exponent. A number whose exponent does not fit is stored
as an infinity, so storing cuts a place off at `2 ^ 1024`. The order of stored numbers is that of
their places: of two numbers of one sign, the one with the greater exponent is the greater, because
its mantissa has all of its bits.

* `Stored`: the numbers that are read back as they were stored.
* `unpack_pack`, `level_fit`: what is read back, and that storing cuts the place off.
* `compare_eq`: numbers are compared by their places.
-/

namespace DivisionAudit.Double

open Float.Model (Format UnpackedFloat totalExponent)
open Float.Model.UnpackedFloat

/-- A canonical number whose exponent fits. -/
def Stored : UnpackedFloat → Prop
  | .finite _ m e _ => m < 2 ^ 53 ∧ -1074 ≤ e ∧ (2 ^ 52 ≤ m ∨ e = -1074) ∧ e ≤ 971
  | _ => True

variable {u v : UnpackedFloat}

theorem Stored.canonical (h : Stored u) : Canonical u := by
  cases u with
  | finite => exact ⟨h.1, h.2.1, h.2.2.1⟩
  | infinity | notANumber | zero => trivial

/-! ## Reading back -/

theorem toNat_implicit (m : BitVec 52) : (1#1 ++ m).toNat = 2 ^ 52 + m.toNat := by
  rw [BitVec.toNat_append, ← Nat.shiftLeft_add_eq_or_of_lt m.isLt]
  rfl

theorem finite_eq_ofMantissa (s : Sign) {m m' : ℕ} {e e' : ℤ} (hm : 0 < m) (hMantissa : m = m')
    (hExponent : e = e') : UnpackedFloat.finite s m e hm = ofMantissa s m' e' := by
  rw [← hMantissa, ← hExponent, ofMantissa, dif_neg hm.ne']

/-- What is read back of the parts of a stored number. -/
theorem unpack_packComponents (s : Sign) {e : BitVec 11} {m : BitVec 52} (he : e ≠ -1#11) :
    unpack .binary64 (packComponents .binary64 s e m) =
      if e = 0#11 then ofMantissa s m.toNat (-1074)
      else ofMantissa s (2 ^ 52 + m.toNat) (e.toNat - 1075) := by
  unfold unpack
  dsimp only
  simp only [unpackExponent_packComponents, unpackMantissa_packComponents,
    unpackSign_packComponents, Sign.ofBitVec_toBitVec, if_neg he]
  split
  · next hExponent =>
    split
    · next hMantissa =>
      rw [hMantissa]
      rfl
    · exact finite_eq_ofMantissa s _ rfl (hExponent ▸ rfl)
  · exact finite_eq_ofMantissa s _ (toNat_implicit m) rfl

theorem unpack_packedInfinity (s : Sign) :
    unpack .binary64 (packedInfinity .binary64 s) = .infinity s := by
  have hMantissa : (0 : BitVec 52) = 0#52 := rfl
  rw [packedInfinity, unpack]
  dsimp only
  rw [unpackExponent_packComponents, if_pos rfl, unpackMantissa_packComponents, if_pos hMantissa,
    unpackSign_packComponents, Sign.ofBitVec_toBitVec]

theorem unpack_packedNaN : unpack .binary64 (packedNaN .binary64) = .notANumber := by
  have hMantissa : 1#52 <<< 51 ≠ 0#52 := by decide
  rw [packedNaN, unpack]
  dsimp only
  rw [unpackExponent_packComponents, if_pos rfl, unpackMantissa_packComponents, if_neg hMantissa]

/-- An exponent that does not fit is read back as an infinity. -/
def fit : UnpackedFloat → UnpackedFloat
  | .notANumber => .notANumber
  | .infinity s => .infinity s
  | .zero s => .zero s
  | .finite s m e hm => if 972 ≤ e then .infinity s else .finite s m e hm

section Pack

variable (s : Sign) {m : ℕ} {e : ℤ}

theorem pack_finite (hm : 0 < m) : pack .binary64 (.finite s m e hm) =
    if 2 ^ 11 ≤ (e + 1023 + 52).toNat + 1 then packedInfinity .binary64 s
    else if m.log2 + 1 = 53 then
      packComponents .binary64 s (BitVec.ofNat 11 (e + 1023 + 52).toNat) (BitVec.ofNat 52 m)
    else packComponents .binary64 s 0#11 (BitVec.ofNat 52 m) := rfl

/-- With all of its bits the mantissa is stored without the leading one. -/
theorem unpack_normal (hm : 0 < m) (hOne : 2 ^ 52 ≤ m) (hSize : m < 2 ^ 53) (hLeast : -1074 ≤ e)
    (hFits : e ≤ 971) :
    unpack .binary64 (packComponents .binary64 s (BitVec.ofNat 11 (e + 1023 + 52).toNat)
      (BitVec.ofNat 52 m)) = .finite s m e hm := by
  have hExponent : (BitVec.ofNat 11 (e + 1023 + 52).toNat).toNat = (e + 1023 + 52).toNat := by
    rw [BitVec.toNat_ofNat]
    omega
  have hMantissa : 2 ^ 52 + (BitVec.ofNat 52 m).toNat = m := by
    rw [BitVec.toNat_ofNat]
    omega
  have hNotAll : BitVec.ofNat 11 (e + 1023 + 52).toNat ≠ -1#11 := by
    intro hAll
    have hNat : (e + 1023 + 52).toNat = 2047 := hExponent.symm.trans (congrArg BitVec.toNat hAll)
    omega
  have hNotZero : BitVec.ofNat 11 (e + 1023 + 52).toNat ≠ 0#11 := by
    intro hZero
    have hNat : (e + 1023 + 52).toNat = 0 := hExponent.symm.trans (congrArg BitVec.toNat hZero)
    omega
  rw [unpack_packComponents s hNotAll, if_neg hNotZero, hExponent]
  exact (finite_eq_ofMantissa s hm hMantissa.symm (by omega)).symm

/-- At the least exponent the mantissa is stored as it is. -/
theorem unpack_subnormal (hm : 0 < m) (hSize : m < 2 ^ 52) :
    unpack .binary64 (packComponents .binary64 s 0#11 (BitVec.ofNat 52 m)) =
      .finite s m (-1074) hm := by
  have hMantissa : (BitVec.ofNat 52 m).toNat = m := by
    rw [BitVec.toNat_ofNat]
    omega
  rw [unpack_packComponents s (by decide), if_pos rfl]
  exact (finite_eq_ofMantissa s hm hMantissa.symm rfl).symm

end Pack

theorem unpack_pack (h : Canonical u) : unpack .binary64 (pack .binary64 u) = fit u := by
  cases u with
  | infinity s => exact unpack_packedInfinity s
  | notANumber => exact unpack_packedNaN
  | zero s => exact unpack_packComponents s (by decide)
  | finite s m e hm =>
    obtain ⟨hSize, hLeast, hFull⟩ := h
    rw [pack_finite, fit]
    by_cases hLarge : 972 ≤ e
    · rw [if_pos hLarge, if_pos (by omega)]
      exact unpack_packedInfinity s
    rw [if_neg hLarge, if_neg (by omega)]
    by_cases hOne : 2 ^ 52 ≤ m
    · have hLog : m.log2 = 52 := (Nat.log2_eq_iff hm.ne').mpr ⟨hOne, hSize⟩
      rw [if_pos (by omega)]
      exact unpack_normal s hm hOne hSize hLeast (by omega)
    · have hLog : m.log2 < 52 := (Nat.log2_lt hm.ne').mpr (not_le.mp hOne)
      obtain rfl : e = -1074 := hFull.resolve_left hOne
      rw [if_neg (by omega)]
      exact unpack_subnormal s hm (not_le.mp hOne)

/-! ## Places -/

section Sizes

variable {m m' : ℕ} {e e' k : ℤ}

theorem size_lt_zpow (hSize : m < 2 ^ 53) (hExponent : e + 53 ≤ k) : (m : ℚ) * 2 ^ e < 2 ^ k := by
  have hCast : (m : ℚ) < 2 ^ (53 : ℤ) := by exact_mod_cast hSize
  calc (m : ℚ) * 2 ^ e < 2 ^ (53 : ℤ) * 2 ^ e := mul_lt_mul_of_pos_right hCast (two_zpow_pos e)
    _ = 2 ^ (53 + e) := (zpow_add₀ (by norm_num) _ _).symm
    _ ≤ 2 ^ k := zpow_le_zpow_right₀ (by norm_num) (by omega)

theorem zpow_le_size (hFull : 2 ^ 52 ≤ m) (hExponent : k ≤ e + 52) : 2 ^ k ≤ (m : ℚ) * 2 ^ e := by
  have hCast : (2 : ℚ) ^ (52 : ℤ) ≤ m := by exact_mod_cast hFull
  calc (2 : ℚ) ^ k ≤ 2 ^ (52 + e) := zpow_le_zpow_right₀ (by norm_num) (by omega)
    _ = 2 ^ (52 : ℤ) * 2 ^ e := zpow_add₀ (by norm_num) _ _
    _ ≤ (m : ℚ) * 2 ^ e := mul_le_mul_of_nonneg_right hCast (two_zpow_pos e).le

end Sizes

theorem clip_factor (s : Sign) {q : ℚ} (h : 0 ≤ q) :
    clip (factor s * q) = factor s * min cut q := by
  cases s with
  | positive => rw [factor, one_mul, one_mul, clip_of_nonneg h]
  | negative => rw [factor, neg_one_mul, neg_one_mul, clip_neg, clip_of_nonneg h]

/-- Storing a number cuts its place off. -/
theorem level_fit (h : Canonical u) : level (fit u) = (level u).map clip := by
  cases u with
  | notANumber => rfl
  | infinity s =>
    rw [fit, level, WithBot.map_coe, clip_factor s cut_pos.le, min_self]
  | zero s =>
    rw [fit, level, WithBot.map_coe, clip_of_nonneg le_rfl, min_eq_right cut_pos.le]
  | finite s m e hm =>
    obtain ⟨hSize, hLeast, hFull⟩ := h
    have hNonneg := size_nonneg e m
    rw [fit, level, WithBot.map_coe, clip_factor s hNonneg]
    split
    · have hCut : cut ≤ m * 2 ^ e := zpow_le_size (hFull.resolve_right (by omega)) (by omega)
      rw [min_eq_left hCut, level]
    · have hCut : (m : ℚ) * 2 ^ e < cut := size_lt_zpow hSize (by omega)
      rw [min_eq_right hCut.le, level]

theorem IsRounded.level_fit {q : ℚ} (h : IsRounded u q) :
    level (fit u) = (clip (rounded q) : ℚ) := by
  rw [Double.level_fit h.canonical, h.level_eq, WithBot.map_coe]

theorem stored_unpack (b : BitVec 64) : Stored (unpack .binary64 b) := by
  obtain ⟨e, he⟩ : ∃ e : BitVec 11, @unpackExponent .binary64 b = e := ⟨_, rfl⟩
  obtain ⟨m, hm⟩ : ∃ m : BitVec 52, @unpackMantissa .binary64 b = m := ⟨_, rfl⟩
  have hExponent := e.isLt
  have hMantissa := m.isLt
  have hBias : ((Format.binary64.exponentBias : ℤ) + 52) = 1075 := rfl
  unfold unpack
  dsimp only
  simp only [he, hm]
  split
  · split
    · trivial
    · trivial
  · next hAll =>
    have hNotAll : e.toNat ≠ 2047 := fun h => hAll (BitVec.eq_of_toNat_eq h)
    split
    · next hZero =>
      have hNat : e.toNat = 0 := congrArg BitVec.toNat hZero
      split
      · trivial
      · exact ⟨by omega, by omega, .inr (by omega), by omega⟩
    · next hNotZero =>
      have hNat : e.toNat ≠ 0 := fun h => hNotZero (BitVec.eq_of_toNat_eq h)
      have hOne := toNat_implicit m
      exact ⟨by omega, by omega, .inl (by omega), by omega⟩

/-! ## Order -/

theorem compare_size {m m' : ℕ} {e e' : ℤ} (hSize : m < 2 ^ 53) (hSize' : m' < 2 ^ 53)
    (hLeast : -1074 ≤ e) (hLeast' : -1074 ≤ e') (hFull : 2 ^ 52 ≤ m ∨ e = -1074)
    (hFull' : 2 ^ 52 ≤ m' ∨ e' = -1074) :
    (compare e e').then (compare m m') = compare ((m : ℚ) * 2 ^ e) (m' * 2 ^ e') := by
  rcases lt_trichotomy e e' with hLt | rfl | hGt
  · have hSizes := (size_lt_zpow hSize le_rfl).trans_le
      (zpow_le_size (hFull'.resolve_right (by omega)) (by omega : e + 53 ≤ e' + 52))
    rw [compare_lt_iff_lt.mpr hLt, compare_lt_iff_lt.mpr hSizes]
    rfl
  · rw [compare_eq_iff_eq.mpr rfl]
    have hCast (n k : ℕ) : (n : ℚ) * 2 ^ e < k * 2 ^ e ↔ n < k :=
      (mul_lt_mul_iff_of_pos_right (two_zpow_pos e)).trans Nat.cast_lt
    rcases lt_trichotomy m m' with hLt | rfl | hGt
    · rw [compare_lt_iff_lt.mpr hLt, compare_lt_iff_lt.mpr ((hCast m m').mpr hLt)]
      rfl
    · rw [compare_eq_iff_eq.mpr rfl, compare_eq_iff_eq.mpr rfl]
      rfl
    · rw [compare_gt_iff_gt.mpr hGt, compare_gt_iff_gt.mpr ((hCast m' m).mpr hGt)]
      rfl
  · have hSizes := (size_lt_zpow hSize' le_rfl).trans_le
      (zpow_le_size (hFull.resolve_right (by omega)) (by omega : e' + 53 ≤ e + 52))
    rw [compare_gt_iff_gt.mpr hGt, compare_gt_iff_gt.mpr hSizes]
    rfl

theorem compare_neg (p q : ℚ) : compare (-p) (-q) = (compare p q).swap := by
  rcases lt_trichotomy p q with hLt | rfl | hGt
  · rw [compare_lt_iff_lt.mpr hLt, compare_gt_iff_gt.mpr (neg_lt_neg hLt)]
    rfl
  · rw [compare_eq_iff_eq.mpr rfl, compare_eq_iff_eq.mpr rfl]
    rfl
  · rw [compare_gt_iff_gt.mpr hGt, compare_lt_iff_lt.mpr (neg_lt_neg hGt)]
    rfl

theorem value_between (h : Stored u) : -cut < value u ∧ value u < cut := by
  cases u with
  | infinity | notANumber | zero => exact ⟨neg_lt_zero.mpr cut_pos, cut_pos⟩
  | finite s m e hm =>
    have hNonneg := size_nonneg e m
    have hExponent : e + 53 ≤ 1024 := by linarith [h.2.2.2]
    have hCut : (m : ℚ) * 2 ^ e < cut := size_lt_zpow h.1 hExponent
    rw [value]
    cases s with
    | negative =>
      rw [factor, neg_one_mul]
      exact ⟨neg_lt_neg hCut, by linarith⟩
    | positive =>
      rw [factor, one_mul]
      exact ⟨by linarith, hCut⟩

theorem value_negative {m : ℕ} (e : ℤ) (hm : 0 < m) : value (.finite .negative m e hm) < 0 := by
  rw [value, factor, neg_one_mul]
  exact neg_lt_zero.mpr (size_pos e hm)

theorem value_positive {m : ℕ} (e : ℤ) (hm : 0 < m) : 0 < value (.finite .positive m e hm) := by
  rw [value, factor, one_mul]
  exact size_pos e hm

/-- Numbers that are neither infinite nor NaN are compared as the numbers that are meant. -/
theorem compare_of_isFinite (hu : Stored u) (hv : Stored v) (hFinite : u.isFinite = true)
    (hFinite' : v.isFinite = true) : u.compare v = some (compare (value u) (value v)) := by
  cases u with
  | infinity => cases hFinite
  | notANumber => cases hFinite
  | zero s =>
    cases v with
    | infinity => cases hFinite'
    | notANumber => cases hFinite'
    | zero s' => exact congrArg some (compare_eq_iff_eq.mpr rfl).symm
    | finite s' m' e' hm' =>
      cases s' with
      | negative => exact congrArg some (compare_gt_iff_gt.mpr (value_negative e' hm')).symm
      | positive => exact congrArg some (compare_lt_iff_lt.mpr (value_positive e' hm')).symm
  | finite s m e hm =>
    cases v with
    | infinity => cases hFinite'
    | notANumber => cases hFinite'
    | zero s' =>
      cases s with
      | negative => exact congrArg some (compare_lt_iff_lt.mpr (value_negative e hm)).symm
      | positive => exact congrArg some (compare_gt_iff_gt.mpr (value_positive e hm)).symm
    | finite s' m' e' hm' =>
      have hSizes := compare_size hu.1 hv.1 hu.2.1 hv.2.1 hu.2.2.1 hv.2.2.1
      cases s with
      | negative =>
        cases s' with
        | negative =>
          rw [value, value, factor, neg_one_mul, neg_one_mul, compare_neg, ← hSizes]
          rfl
        | positive =>
          have hLt := (value_negative e hm).trans (value_positive e' hm')
          exact congrArg some (compare_lt_iff_lt.mpr hLt).symm
      | positive =>
        cases s' with
        | negative =>
          have hLt := (value_negative e' hm').trans (value_positive e hm)
          exact congrArg some (compare_gt_iff_gt.mpr hLt).symm
        | positive =>
          rw [value, value, factor, one_mul, one_mul, ← hSizes]
          rfl

/-- All numbers are compared as their places. -/
theorem compare_eq (hu : Stored u) (hv : Stored v) {p q : ℚ} (hp : level u = p) (hq : level v = q) :
    u.compare v = some (compare p q) := by
  have hBetween := value_between hu
  have hBetween' := value_between hv
  cases u with
  | notANumber => exact absurd hp.symm WithBot.coe_ne_bot
  | infinity s =>
    have hp' : factor s * cut = p := WithBot.coe_injective hp
    rw [← hp']
    cases v with
    | notANumber => exact absurd hq.symm WithBot.coe_ne_bot
    | infinity s' =>
      have hq' : factor s' * cut = q := WithBot.coe_injective hq
      have hLt : factor .negative * cut < factor .positive * cut := by
        rw [factor, factor]
        linarith [cut_pos]
      rw [← hq']
      cases s with
      | negative =>
        cases s' with
        | negative =>
          rw [compare_eq_iff_eq.mpr rfl]
          rfl
        | positive =>
          rw [compare_lt_iff_lt.mpr hLt]
          rfl
      | positive =>
        cases s' with
        | negative =>
          rw [compare_gt_iff_gt.mpr hLt]
          rfl
        | positive =>
          rw [compare_eq_iff_eq.mpr rfl]
          rfl
    | zero | finite =>
      rw [level_of_isFinite rfl] at hq
      rw [← WithBot.coe_injective hq]
      cases s with
      | negative =>
        rw [factor, neg_one_mul, compare_lt_iff_lt.mpr hBetween'.1]
        rfl
      | positive =>
        rw [factor, one_mul, compare_gt_iff_gt.mpr hBetween'.2]
        rfl
  | zero | finite =>
    rw [level_of_isFinite rfl] at hp
    rw [← WithBot.coe_injective hp]
    cases v with
    | notANumber => exact absurd hq.symm WithBot.coe_ne_bot
    | infinity s' =>
      have hq' : factor s' * cut = q := WithBot.coe_injective hq
      rw [← hq']
      cases s' with
      | negative =>
        rw [factor, neg_one_mul, compare_gt_iff_gt.mpr hBetween.1]
        rfl
      | positive =>
        rw [factor, one_mul, compare_lt_iff_lt.mpr hBetween.2]
        rfl
    | zero | finite =>
      rw [level_of_isFinite rfl] at hq
      rw [← WithBot.coe_injective hq]
      exact compare_of_isFinite hu hv rfl rfl

theorem level_eq_bot_iff : level u = ⊥ ↔ u.isNaN = true := by
  cases u with
  | notANumber => exact iff_of_true rfl rfl
  | infinity | zero | finite => exact iff_of_false WithBot.coe_ne_bot Bool.false_ne_true

theorem isLE_compare_iff (p q : ℚ) : (compare p q).isLE = true ↔ p ≤ q := by
  rw [← compare_le_iff_le, Ordering.isLE_iff_ne_gt]

theorem le_iff_level_le (hu : Stored u) (hv : Stored v) :
    u.isNaN = true ∨ u.le v = true ↔ level u ≤ level v := by
  rw [← level_eq_bot_iff]
  cases hp : level u with
  | bot => exact iff_of_true (.inl rfl) bot_le
  | coe p =>
    rw [or_iff_right WithBot.coe_ne_bot]
    cases hq : level v with
    | bot =>
      refine iff_of_false ?_ (WithBot.not_coe_le_bot p)
      have hNaN : v = .notANumber := by
        cases v with
        | notANumber => rfl
        | infinity | zero | finite => exact absurd hq WithBot.coe_ne_bot
      have hNone : u.compare .notANumber = none := by
        cases u with
        | infinity | notANumber | zero | finite => rfl
      rw [hNaN, UnpackedFloat.le, hNone]
      exact Bool.false_ne_true
    | coe q =>
      rw [UnpackedFloat.le, compare_eq hu hv hp hq, WithBot.coe_le_coe, Option.any_some,
        isLE_compare_iff]

end DivisionAudit.Double
