import DivisionAudit.Proofs.Decimal.Interval

/-!
# Doubles by their texts

A double is put together again from its sign and the magnitude its digits round to. So no two
finite doubles are written alike, in any layout whose exponents have the usual signs.

* `Binary64.eq_of_magnitude_eq`: sign and magnitude are all there is to a double.
* `Binary64.canonical_magnitude`: the magnitudes of finite doubles.
* `Layout.write_injective`: the texts of finite doubles.
-/

namespace DivisionAudit

namespace Binary64

variable {x y : Binary64}

/-! ## Fields -/

theorem toNat_exponentField (x : Binary64) :
    x.exponentField.toNat = x.bits.toNat / 2 ^ 52 % 2 ^ 11 := by
  rw [exponentField, UInt64.toNat_and, UInt64.toNat_shiftRight, Nat.shiftRight_eq_div_pow]
  exact Nat.and_two_pow_sub_one_eq_mod _ 11

theorem toNat_fractionField (x : Binary64) : x.fractionField.toNat = x.bits.toNat % 2 ^ 52 := by
  rw [fractionField, UInt64.toNat_and]
  exact Nat.and_two_pow_sub_one_eq_mod _ 52

theorem isNegative_eq (x : Binary64) : x.isNegative = decide (x.bits.toNat / 2 ^ 63 = 1) := by
  rw [isNegative, Bool.eq_iff_iff, beq_iff_eq, decide_eq_true_iff, ← UInt64.toNat_inj,
    UInt64.toNat_shiftRight, Nat.shiftRight_eq_div_pow]
  rfl

theorem eq_of_fields (hSign : x.isNegative = y.isNegative)
    (hExponent : x.exponentField.toNat = y.exponentField.toNat)
    (hFraction : x.fractionField.toNat = y.fractionField.toNat) : x = y := by
  rw [isNegative_eq, isNegative_eq, decide_eq_decide] at hSign
  rw [toNat_exponentField, toNat_exponentField] at hExponent
  rw [toNat_fractionField, toNat_fractionField] at hFraction
  have hx := x.bits.toNat_lt
  have hy := y.bits.toNat_lt
  have hBits : x.bits.toNat = y.bits.toNat := by omega
  cases x
  cases y
  exact congrArg mk (UInt64.toNat_inj.mp hBits)

/-! ## Magnitudes -/

theorem fractionField_lt (x : Binary64) : x.fractionField.toNat < 2 ^ 52 := by
  rw [toNat_fractionField]
  exact Nat.mod_lt _ (by decide)

theorem magnitude_of_subnormal (h : x.exponentField.toNat = 0) :
    x.magnitude = ⟨x.fractionField.toNat, -1074, false⟩ := if_pos h

theorem magnitude_of_normal (h : x.exponentField.toNat ≠ 0) :
    x.magnitude = ⟨2 ^ 52 + x.fractionField.toNat, (x.exponentField.toNat : Int) - 1075,
      x.fractionField.toNat == 0 && decide (1 < x.exponentField.toNat)⟩ := if_neg h

/-- Only a normal number has the hidden bit. -/
theorem eq_of_magnitude_eq (hSign : x.isNegative = y.isNegative)
    (h : x.magnitude = y.magnitude) : x = y := by
  have hx := x.fractionField_lt
  have hy := y.fractionField_lt
  have hFields : x.exponentField.toNat = y.exponentField.toNat ∧
      x.fractionField.toNat = y.fractionField.toNat := by
    by_cases hxLeast : x.exponentField.toNat = 0 <;> by_cases hyLeast : y.exponentField.toNat = 0
    · rw [magnitude_of_subnormal hxLeast, magnitude_of_subnormal hyLeast, Magnitude.mk.injEq] at h
      exact ⟨hxLeast.trans hyLeast.symm, h.1⟩
    · rw [magnitude_of_subnormal hxLeast, magnitude_of_normal hyLeast, Magnitude.mk.injEq] at h
      omega
    · rw [magnitude_of_normal hxLeast, magnitude_of_subnormal hyLeast, Magnitude.mk.injEq] at h
      omega
    · rw [magnitude_of_normal hxLeast, magnitude_of_normal hyLeast, Magnitude.mk.injEq] at h
      omega
  exact eq_of_fields hSign hFields.1 hFields.2

/-- It is so for infinities and NaNs too, with the exponent beyond those of the finite numbers. -/
theorem canonical_magnitude (x : Binary64) : x.magnitude.Canonical := by
  have hFraction := x.fractionField_lt
  by_cases hLeast : x.exponentField.toNat = 0
  · rw [magnitude_of_subnormal hLeast]
    exact ⟨by dsimp only; omega, le_refl _, fun h => absurd h (lt_irrefl _),
      fun h => absurd h Bool.false_ne_true, fun h => absurd h.2 (lt_irrefl _)⟩
  · rw [magnitude_of_normal hLeast]
    refine ⟨?_, ?_, fun _ => ?_, ?_⟩
    · dsimp only
      omega
    · dsimp only
      omega
    · dsimp only
      omega
    · simp only [Bool.and_eq_true, beq_iff_eq, decide_eq_true_eq]
      omega

end Binary64

namespace Layout

/-- The text without its sign. -/
def writeSize (l : Layout) (x : Binary64) : List Char :=
  if x.isZero then ['0', '.', '0'] else l.writeDecimal (x.magnitude.shortest l.tie)

theorem write_eq (l : Layout) (x : Binary64) :
    l.write x = (if x.isNegative then ['-'] else []) ++ l.writeSize x := rfl

theorem head?_writeSize (l : Layout) (x : Binary64) : (l.writeSize x).head? ≠ some '-' := by
  unfold writeSize
  split
  · decide
  unfold writeDecimal
  split
  · exact Decimal.head?_positional _
  · exact Decimal.head?_scientific _ _

variable {l : Layout} (hSign : Decimal.IsPlus l.exponentSign)
include hSign

theorem contains_writeSize (x : Binary64) :
    x.magnitude.Contains (readNumber (l.writeSize x)) := by
  unfold writeSize
  split
  · next hZero =>
    obtain ⟨hExponent, hFraction⟩ := (Bool.and_eq_true_iff).mp hZero
    rw [beq_iff_eq] at hExponent hFraction
    have hRead : readNumber ['0', '.', '0'] = (0 : ℕ) * Magnitude.quarter ⟨0, -1074, false⟩ := by
      rw [Nat.cast_zero, zero_mul]
      exact readNumber_zero
    rw [Binary64.magnitude_of_subnormal (by rw [hExponent]; rfl), hFraction, hRead]
    exact Magnitude.contains_center ⟨0, -1074, false⟩
  · rw [Decimal.readNumber_writeDecimal hSign]
    exact Magnitude.contains_shortest l.tie x.magnitude

/-- A text determines the sign, and a number that rounds to one magnitude. -/
theorem write_injective : Function.Injective l.write := by
  intro x y h
  have hParts : x.isNegative = y.isNegative ∧ l.writeSize x = l.writeSize y := by
    have hx := l.head?_writeSize x
    have hy := l.head?_writeSize y
    rw [write_eq, write_eq] at h
    cases hNegative : x.isNegative <;> cases hNegative' : y.isNegative
    · rw [hNegative, hNegative'] at h
      exact ⟨rfl, h⟩
    · rw [hNegative, hNegative'] at h
      exact absurd (congrArg List.head? h) hx
    · rw [hNegative, hNegative'] at h
      exact absurd (congrArg List.head? h).symm hy
    · rw [hNegative, hNegative'] at h
      exact ⟨rfl, List.cons_inj_right _ |>.mp h⟩
  have hContains := contains_writeSize hSign x
  rw [hParts.2] at hContains
  exact Binary64.eq_of_magnitude_eq hParts.1
    (x.canonical_magnitude.eq_of_contains y.canonical_magnitude hContains
      (contains_writeSize hSign y))

end Layout

end DivisionAudit
