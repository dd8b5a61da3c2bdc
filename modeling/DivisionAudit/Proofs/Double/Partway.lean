import DivisionAudit.Proofs.Double.Stored

/-!
# A part of the way between two numbers

A part of the way from a start to an end is computed by a difference, a product and a sum, each of
them rounded and cut off. From a start that is a number to an end that is not below it, the
difference is not negative, and the product and the sum keep the order of the parts, infinities
included; an infinite difference makes the part zero NaN, which is below all others. From an
infinite start the sum is NaN for every part.

* `level_fit_add`, `level_fit_mul_mono`, `level_fit_sub`: the three operations by places.
* `level_partway_mono`: a greater part of the way leads to a place that is not below.
* `partway_eq_notANumber`: there is no way from an infinite start.
-/

namespace DivisionAudit.Double

open Float.Model (Format UnpackedFloat)
open Float.Model.UnpackedFloat

variable {t u v w : UnpackedFloat}

/-! ## Results that can be stored -/

theorem add_notANumber (u : UnpackedFloat) : add .binary64 u .notANumber = .notANumber := by
  cases u with
  | infinity | notANumber | zero | finite => rfl

theorem mul_notANumber (u : UnpackedFloat) : mul .binary64 u .notANumber = .notANumber := by
  cases u with
  | infinity | notANumber | zero | finite => rfl

theorem canonical_add (hu : Canonical u) (hv : Canonical v) : Canonical (add .binary64 u v) := by
  cases u with
  | notANumber => trivial
  | infinity s =>
    cases v with
    | infinity s' =>
      rw [add]
      split
      · trivial
      · trivial
    | notANumber | zero | finite => trivial
  | zero | finite =>
    cases v with
    | infinity | notANumber => trivial
    | zero | finite => exact (isRounded_add hu hv rfl rfl).canonical

theorem canonical_sub (hu : Canonical u) (hv : Canonical v) : Canonical (sub .binary64 u v) := by
  rw [sub_eq_add]
  exact canonical_add hu (canonical_neg hv)

theorem canonical_mul (hu : Canonical u) (hv : Canonical v) : Canonical (mul .binary64 u v) := by
  cases u with
  | notANumber => trivial
  | infinity s =>
    cases v with
    | infinity | notANumber | zero | finite => trivial
  | zero | finite =>
    cases v with
    | infinity | notANumber => trivial
    | zero | finite => exact (isRounded_mul hu hv rfl rfl).canonical

theorem stored_fit (h : Canonical u) : Stored (fit u) := by
  rw [← unpack_pack h]
  exact stored_unpack _

/-! ## Sums, products and differences by places -/

/-- A rounded sum with a place; infinities stay. -/
def shifted (p q : ℚ) : ℚ :=
  if q ≤ -cut then -cut else if cut ≤ q then cut else clip (rounded (p + q))

theorem shifted_mono (p : ℚ) : Monotone (shifted p) := by
  intro q r h
  have hLow (a : ℚ) : -cut ≤ clip a := le_max_left _ _
  have hHigh (a : ℚ) : clip a ≤ cut := max_le (by linarith [cut_pos]) (min_le_left _ _)
  unfold shifted
  split
  · split
    · exact le_rfl
    · split
      · linarith [cut_pos]
      · exact hLow _
  · next hq =>
    rw [if_neg (by linarith : ¬ r ≤ -cut)]
    split
    · next hq' => rw [if_pos (hq'.trans h)]
    · split
      · exact hHigh _
      · exact clip_mono (rounded_mono (by linarith))

theorem level_fit_add (hu : Stored u) (hv : Stored v) (hFinite : u.isFinite = true) :
    level (fit (add .binary64 u v)) = (level v).map (shifted (value u)) := by
  have hNumber (hFinite' : v.isFinite = true) :
      level (fit (add .binary64 u v)) = (level v).map (shifted (value u)) := by
    obtain ⟨hLow, hHigh⟩ := value_between hv
    rw [(isRounded_add hu.canonical hv.canonical hFinite hFinite').level_fit,
      level_of_isFinite hFinite', WithBot.map_coe, shifted, if_neg (not_le.mpr hLow),
      if_neg (not_le.mpr hHigh)]
  cases v with
  | zero | finite => exact hNumber rfl
  | notANumber =>
    rw [add_notANumber]
    rfl
  | infinity s =>
    have hSum : add .binary64 u (.infinity s) = .infinity s := by
      cases u with
      | infinity => cases hFinite
      | notANumber => cases hFinite
      | zero | finite => rfl
    rw [hSum, fit, level, WithBot.map_coe, shifted]
    cases s with
    | negative => rw [factor, neg_one_mul, if_pos le_rfl]
    | positive => rw [factor, one_mul, if_neg (by linarith [cut_pos]), if_pos le_rfl]

theorem mul_infinity (hFinite : u.isFinite = true) (hNonneg : 0 ≤ value u) :
    mul .binary64 u (.infinity .positive) =
      if value u = 0 then .notANumber else .infinity .positive := by
  cases u with
  | infinity => cases hFinite
  | notANumber => cases hFinite
  | zero s => rw [value, if_pos rfl, mul]
  | finite s m e hm =>
    cases s with
    | negative => exact absurd hNonneg (not_le.mpr (value_negative e hm))
    | positive =>
      rw [if_neg (value_positive e hm).ne', mul]
      rfl

/-- With a number that is not negative, a product keeps the order of the other factors. -/
theorem level_fit_mul_mono (ht : Stored t) (hu : Stored u) (hv : Stored v)
    (hFinite : t.isFinite = true) (hFinite' : u.isFinite = true) (hNonneg : 0 ≤ value t)
    (hLe : value t ≤ value u) (hLevel : level v = ⊥ ∨ 0 ≤ level v) :
    level (fit (mul .binary64 t v)) ≤ level (fit (mul .binary64 u v)) := by
  have hNumber (hFinite'' : v.isFinite = true) :
      level (fit (mul .binary64 t v)) ≤ level (fit (mul .binary64 u v)) := by
    have hProduct := isRounded_mul ht.canonical hv.canonical hFinite hFinite''
    have hProduct' := isRounded_mul hu.canonical hv.canonical hFinite' hFinite''
    rw [level_of_isFinite hFinite'', or_iff_right WithBot.coe_ne_bot] at hLevel
    have hFactor : 0 ≤ value v := WithBot.coe_le_coe.mp hLevel
    rw [hProduct.level_fit, hProduct'.level_fit, WithBot.coe_le_coe]
    exact clip_mono (rounded_mono (mul_le_mul_of_nonneg_right hLe hFactor))
  cases v with
  | zero | finite => exact hNumber rfl
  | notANumber =>
    rw [mul_notANumber]
    exact bot_le
  | infinity s =>
    cases s with
    | negative =>
      have hCut : 0 ≤ factor .negative * cut :=
        WithBot.coe_le_coe.mp (hLevel.resolve_left WithBot.coe_ne_bot)
      rw [factor] at hCut
      linarith [cut_pos]
    | positive =>
      rw [mul_infinity hFinite hNonneg, mul_infinity hFinite' (hNonneg.trans hLe)]
      split
      · exact bot_le
      · next hZero =>
        have hPos : 0 < value u := (lt_of_le_of_ne hNonneg (Ne.symm hZero)).trans_le hLe
        rw [if_neg hPos.ne']

theorem clip_rounded_nonneg {q : ℚ} (h : 0 ≤ q) : 0 ≤ clip (rounded q) := by
  rw [rounded_of_nonneg h, clip_of_nonneg (roundedSize_nonneg h)]
  exact le_min cut_pos.le (roundedSize_nonneg h)

/-- The difference to an end that is not below a number is not negative, if it is not NaN. -/
theorem level_fit_sub (hu : Stored u) (hv : Stored v) (hFinite : u.isFinite = true)
    (h : level u ≤ level v) :
    level (fit (sub .binary64 v u)) = ⊥ ∨ 0 ≤ level (fit (sub .binary64 v u)) := by
  have hNumber (hFinite' : v.isFinite = true) : 0 ≤ level (fit (sub .binary64 v u)) := by
    rw [level_of_isFinite hFinite, level_of_isFinite hFinite', WithBot.coe_le_coe] at h
    rw [(isRounded_sub hv.canonical hu.canonical hFinite' hFinite).level_fit]
    exact WithBot.coe_le_coe.mpr (clip_rounded_nonneg (by linarith))
  cases v with
  | notANumber => exact .inl rfl
  | zero | finite => exact .inr (hNumber rfl)
  | infinity s =>
    cases s with
    | negative =>
      rw [level_of_isFinite hFinite, level, WithBot.coe_le_coe, factor, neg_one_mul] at h
      linarith [(value_between hu).1]
    | positive =>
      have hDifference : sub .binary64 (.infinity .positive) u = .infinity .positive := by
        cases u with
        | infinity => cases hFinite
        | notANumber => cases hFinite
        | zero | finite => rfl
      right
      rw [hDifference, fit, level, factor, one_mul]
      exact WithBot.coe_le_coe.mpr cut_pos.le

/-! ## A part of the way -/

/-- The part of the way from a start to an end, computed as `start + part * (end - start)`. -/
def partway (u v t : UnpackedFloat) : UnpackedFloat :=
  fit (add .binary64 u (fit (mul .binary64 t (fit (sub .binary64 v u)))))

theorem level_partway_mono (hu : Stored u) (hv : Stored v) (ht : Stored t) (hw : Stored w)
    (hFinite : u.isFinite = true) (h : level u ≤ level v) (hPart : t.isFinite = true)
    (hPart' : w.isFinite = true) (hNonneg : 0 ≤ value t) (hLe : value t ≤ value w) :
    level (partway u v t) ≤ level (partway u v w) := by
  have hDifference := stored_fit (canonical_sub hv.canonical hu.canonical)
  have hProduct := stored_fit (canonical_mul ht.canonical hDifference.canonical)
  have hProduct' := stored_fit (canonical_mul hw.canonical hDifference.canonical)
  have hMono := level_fit_mul_mono ht hw hDifference hPart hPart' hNonneg hLe
    (level_fit_sub hu hv hFinite h)
  rw [partway, partway, level_fit_add hu hProduct hFinite, level_fit_add hu hProduct' hFinite]
  exact (shifted_mono (value u)).withBot_map hMono

theorem not_infinity_le (hv : Stored v) (hFinite : v.isFinite = true) :
    ¬ level (.infinity .positive) ≤ level v := by
  rw [level_of_isFinite hFinite, level, WithBot.coe_le_coe, factor, one_mul]
  exact not_le.mpr (value_between hv).2

/-- From a start that is infinite or NaN there is no way. -/
theorem partway_eq_notANumber (hv : Stored v) (hFinite : u.isFinite = false)
    (h : level u ≤ level v) (hPart : t.isFinite = true) (hNonneg : 0 ≤ value t) :
    partway u v t = .notANumber := by
  have hNaN (hDifference : sub .binary64 v u = .notANumber) : partway u v t = .notANumber := by
    rw [partway, hDifference, fit, mul_notANumber, fit, add_notANumber, fit]
  cases u with
  | zero => cases hFinite
  | finite => cases hFinite
  | notANumber => rfl
  | infinity s =>
    cases s with
    | positive =>
      cases v with
      | notANumber => exact hNaN rfl
      | infinity s' =>
        cases s' with
        | negative =>
          rw [level, level, WithBot.coe_le_coe, factor, factor] at h
          linarith [cut_pos]
        | positive => exact hNaN rfl
      | zero | finite => exact absurd h (not_infinity_le hv rfl)
    | negative =>
      have hInfinite (hDifference : sub .binary64 v (.infinity .negative) = .infinity .positive) :
          partway (.infinity .negative) v t = .notANumber := by
        rw [partway, hDifference, fit, mul_infinity hPart hNonneg]
        split
        · rfl
        · rfl
      cases v with
      | notANumber => exact hNaN rfl
      | infinity s' =>
        cases s' with
        | negative => exact hNaN rfl
        | positive => exact hInfinite rfl
      | zero | finite => exact hInfinite rfl

end DivisionAudit.Double
