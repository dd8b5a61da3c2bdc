import DivisionAudit.Proofs.Double.Partway

/-!
# Places of doubles

The place of a double decides its comparisons and its truncation to a word. Words become doubles in
their order, and the quotient of two words is a number from zero to `2 ^ 64`, which rises with the
dividend.

* `Below`: the order of doubles, with NaN below all others.
* `below_iff`: it is the order of places.
* `below_partway`: a greater part of the way leads to a double that is not below.
* `number_div`, `number_div_mono`: quotients of words.
-/

namespace DivisionAudit.Double

open Float.Model (UnpackedFloat)
open Float.Model.UnpackedFloat

/-! ## The order of doubles -/

/-- One double is not above another; NaN is below all of them. -/
def Below (x y : Float) : Prop := x.isNaN = true ∨ x ≤ y

instance : DecidableRel Below := fun x y => inferInstanceAs (Decidable (x.isNaN = true ∨ x ≤ y))

/-- The place of a double. -/
def place (x : Float) : WithBot ℚ := level x.toModel.unpack

/-- The number that a double means; zero for infinities and NaN. -/
def number (x : Float) : ℚ := value x.toModel.unpack

variable {x y s t : Float}

theorem stored (x : Float) : Stored x.toModel.unpack := stored_unpack x.toModel.toBits.toBitVec

theorem le_iff_unpack_le : x ≤ y ↔ x.toModel.unpack.le y.toModel.unpack = true :=
  decide_eq_true_iff (p := x.toModel ≤ y.toModel)

theorem below_iff : Below x y ↔ place x ≤ place y := by
  rw [Below, le_iff_unpack_le]
  exact le_iff_level_le (stored x) (stored y)

theorem Below.trans {z : Float} (h : Below x y) (h' : Below y z) : Below x z :=
  below_iff.mpr ((below_iff.mp h).trans (below_iff.mp h'))

theorem not_isNaN_of_le (h : x ≤ y) : x.isNaN ≠ true := by
  intro hNaN
  have hLe := le_iff_unpack_le.mp h
  have hUnpack : x.toModel.unpack.isNaN = true := hNaN
  cases hx : x.toModel.unpack with
  | infinity | zero | finite =>
    rw [hx] at hUnpack
    cases hUnpack
  | notANumber =>
    rw [hx] at hLe
    cases hLe

/-- A bound from below passes on to doubles that are not below. -/
theorem le_of_le_of_below {z : Float} (h : x ≤ y) (h' : Below y z) : x ≤ z :=
  (Below.trans (.inr h) h').resolve_left (not_isNaN_of_le h)

/-- Truncation to a word keeps the order. -/
theorem toUInt64_le (h : Below x y) : x.toUInt64 ≤ y.toUInt64 := toUInt64_mono (below_iff.mp h)

theorem unpack_ofModel {u : UnpackedFloat} (h : Canonical u) :
    (Float.ofModel (.pack u)).toModel.unpack = fit u := unpack_pack h

theorem unpack_partway (x y t : Float) : (x + t * (y - x)).toModel.unpack =
    partway x.toModel.unpack y.toModel.unpack t.toModel.unpack := by
  have hDifference : (y - x).toModel.unpack =
      fit (sub .binary64 y.toModel.unpack x.toModel.unpack) :=
    unpack_ofModel (canonical_sub (stored y).canonical (stored x).canonical)
  have hProduct : (t * (y - x)).toModel.unpack =
      fit (mul .binary64 t.toModel.unpack (y - x).toModel.unpack) :=
    unpack_ofModel (canonical_mul (stored t).canonical (stored (y - x)).canonical)
  have hSum : (x + t * (y - x)).toModel.unpack =
      fit (add .binary64 x.toModel.unpack (t * (y - x)).toModel.unpack) :=
    unpack_ofModel (canonical_add (stored x).canonical (stored (t * (y - x))).canonical)
  rw [hSum, hProduct, hDifference, partway]

/-- A greater part of the way leads to a double that is not below. -/
theorem below_partway (h : Below x y) (hs : s.isFinite = true) (ht : t.isFinite = true)
    (hNonneg : 0 ≤ number s) (hLe : number s ≤ number t) :
    Below (x + s * (y - x)) (x + t * (y - x)) := by
  rw [below_iff] at h ⊢
  rw [place, place, unpack_partway, unpack_partway]
  cases hFinite : x.toModel.unpack.isFinite with
  | true =>
    exact level_partway_mono (stored x) (stored y) (stored s) (stored t) hFinite h hs ht hNonneg hLe
  | false =>
    rw [partway_eq_notANumber (stored y) hFinite h hs hNonneg]
    exact bot_le

/-! ## Quotients of words -/

theorem isFinite_of_level {u : UnpackedFloat} {q : ℚ} (h : level u = q) (hLow : -cut < q)
    (hHigh : q < cut) : u.isFinite = true := by
  cases u with
  | zero | finite => rfl
  | notANumber => exact absurd h.symm WithBot.coe_ne_bot
  | infinity s =>
    have hCut : factor s * cut = q := WithBot.coe_injective h
    cases s with
    | negative =>
      rw [factor] at hCut
      linarith
    | positive =>
      rw [factor] at hCut
      linarith

/-- A result between zero and `2 ^ 64` is stored as it is rounded. -/
theorem number_ofModel {u : UnpackedFloat} {q : ℚ} (h : IsRounded u q) (hNonneg : 0 ≤ q)
    (hHigh : q ≤ 2 ^ (64 : ℤ)) :
    (Float.ofModel (.pack u)).isFinite = true ∧ number (.ofModel (.pack u)) = rounded q := by
  have hNonneg' := rounded_nonneg hNonneg
  have hCut : rounded q < cut :=
    (rounded_le_zpow (by norm_num) hHigh).trans_lt (zpow_lt_zpow_right₀ (by norm_num) (by norm_num))
  have hLevel := h.level_fit
  rw [clip_of_nonneg hNonneg', min_eq_right hCut.le] at hLevel
  have hFinite := isFinite_of_level hLevel (by linarith [cut_pos]) hCut
  rw [← unpack_ofModel h.canonical] at hFinite hLevel
  rw [level_of_isFinite hFinite] at hLevel
  exact ⟨hFinite, WithBot.coe_injective hLevel⟩

theorem number_toFloat (n : UInt64) :
    n.toFloat.isFinite = true ∧ number n.toFloat = rounded n.toNat := by
  have hWord : (n.toNat : ℚ) ≤ 2 ^ (64 : ℤ) := by exact_mod_cast n.toNat_lt.le
  exact number_ofModel (isRounded_ofUInt64 n) (Nat.cast_nonneg _) hWord

theorem one_le_rounded {n : UInt64} (hn : n ≠ 0) : 1 ≤ rounded n.toNat := by
  have hOne : rounded 1 = 1 := rounded_zpow (k := 0) (by norm_num)
  have hWord : (1 : ℚ) ≤ n.toNat := by
    have hNat : n.toNat ≠ 0 := fun h => hn (UInt64.toNat_inj.mp h)
    exact_mod_cast Nat.one_le_iff_ne_zero.mpr hNat
  exact hOne.symm.trans_le (rounded_mono hWord)

/-- The quotient of two words as doubles. -/
theorem number_div (i : UInt64) {n : UInt64} (hn : n ≠ 0) :
    (i.toFloat / n.toFloat).isFinite = true ∧
      number (i.toFloat / n.toFloat) = rounded (rounded i.toNat / rounded n.toNat) := by
  obtain ⟨hFinite, hNumber⟩ := number_toFloat i
  obtain ⟨hFinite', hNumber'⟩ := number_toFloat n
  have hOne := one_le_rounded hn
  have hNonneg : 0 ≤ rounded i.toNat := rounded_nonneg (Nat.cast_nonneg _)
  have hWord : (i.toNat : ℚ) ≤ 2 ^ (64 : ℤ) := by exact_mod_cast i.toNat_lt.le
  have hLe : rounded i.toNat / rounded n.toNat ≤ 2 ^ (64 : ℤ) :=
    (div_le_self hNonneg hOne).trans (rounded_le_zpow (by norm_num) hWord)
  have hZero : value n.toFloat.toModel.unpack ≠ 0 := by
    have hPos : number n.toFloat ≠ 0 := by
      rw [hNumber']
      linarith
    exact hPos
  have hQuotient := isRounded_div hFinite hFinite' hZero
  rw [← number, ← number, hNumber, hNumber'] at hQuotient
  exact number_ofModel hQuotient (div_nonneg hNonneg (by linarith)) hLe

theorem number_div_mono {i j n : UInt64} (hn : n ≠ 0) (h : i ≤ j) :
    number (i.toFloat / n.toFloat) ≤ number (j.toFloat / n.toFloat) := by
  have hCast : (i.toNat : ℚ) ≤ j.toNat := Nat.cast_le.mpr h
  rw [(number_div i hn).2, (number_div j hn).2]
  exact rounded_mono (div_le_div_of_nonneg_right (rounded_mono hCast)
    (by linarith [one_le_rounded hn]))

theorem number_div_nonneg (i : UInt64) {n : UInt64} (hn : n ≠ 0) :
    0 ≤ number (i.toFloat / n.toFloat) := by
  rw [(number_div i hn).2]
  exact rounded_nonneg (div_nonneg (rounded_nonneg (Nat.cast_nonneg _))
    (by linarith [one_le_rounded hn]))

/-- Words are ordered as their doubles. -/
theorem below_toFloat {m n : UInt64} (h : m ≤ n) : Below m.toFloat n.toFloat := by
  obtain ⟨hFinite, hNumber⟩ := number_toFloat m
  obtain ⟨hFinite', hNumber'⟩ := number_toFloat n
  have hCast : (m.toNat : ℚ) ≤ n.toNat := Nat.cast_le.mpr h
  rw [below_iff, place, place, level_of_isFinite hFinite, level_of_isFinite hFinite', ← number,
    ← number, hNumber, hNumber', WithBot.coe_le_coe]
  exact rounded_mono hCast

end DivisionAudit.Double
