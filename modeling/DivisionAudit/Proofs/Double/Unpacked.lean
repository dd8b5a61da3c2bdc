import DivisionAudit.Proofs.Double.Nearest

/-!
# The rounding of the arithmetic of doubles

The arithmetic of doubles keeps, of an exact result, a whole number of some unit, one bit for the
half below it and one for anything below that. Shifting loses nothing that rounding needs, so the
whole number that comes out is the nearest one on the grid of the result. It has at most one bit too
many, and then it is a power of two, whose last bit can go.

* `level`: the place of a number among the rational numbers, with NaN below all of them.
* `IsRounded`: what the arithmetic gives for an exact number.
* `Represents`: what a whole number with its two bits says of an exact result.
* `isRounded_roundWithAccuracy`, `isRounded_normalize`: the arithmetic rounds as `rounded` does.
-/

namespace DivisionAudit.Double

open Float.Model (Format UnpackedFloat totalExponent)
open Float.Model.UnpackedFloat

/-! ## Places -/

/-- The factor of a sign. -/
def factor : Sign → ℚ
  | .negative => -1
  | .positive => 1

/-- The place of a number in the order of doubles: infinities are at the cut and NaN is below all
others. -/
def level : UnpackedFloat → WithBot ℚ
  | .notANumber => ⊥
  | .infinity s => ((factor s * cut : ℚ) : WithBot ℚ)
  | .zero _ => ((0 : ℚ) : WithBot ℚ)
  | .finite s m e _ => ((factor s * (m * 2 ^ e) : ℚ) : WithBot ℚ)

/-- A finite number has 53 bits at most, and all of them unless its exponent is the least one. -/
def Canonical : UnpackedFloat → Prop
  | .finite _ m e _ => m < 2 ^ 53 ∧ -1074 ≤ e ∧ (2 ^ 52 ≤ m ∨ e = -1074)
  | _ => True

/-- What is kept of an exact number: the nearest number with the bits of a double. Its exponent may
still be too great for a double. -/
structure IsRounded (u : UnpackedFloat) (q : ℚ) : Prop where
  canonical : Canonical u
  level_eq : level u = (rounded q : ℚ)

theorem isRounded_zero (s : Sign) : IsRounded (.zero s) 0 := by
  refine ⟨trivial, ?_⟩
  rw [rounded_of_nonneg le_rfl, roundedSize_zero]
  rfl

theorem rounded_factor (s : Sign) {q : ℚ} (h : 0 ≤ q) :
    rounded (factor s * q) = factor s * roundedSize q := by
  cases s with
  | positive => rw [factor, one_mul, one_mul, rounded_of_nonneg h]
  | negative =>
    rw [factor, neg_one_mul, neg_one_mul, rounded]
    split
    · next hNeg =>
      have hZero : q = 0 := by linarith
      rw [hZero, neg_zero, roundedSize_zero, neg_zero]
    · rw [neg_neg]

/-! ## Sizes -/

section Sizes

variable {m : ℕ} (e : ℤ)

theorem size_pos (hm : 0 < m) : (0 : ℚ) < m * 2 ^ e :=
  mul_pos (Nat.cast_pos.mpr hm) (two_zpow_pos e)

theorem size_nonneg (m : ℕ) : (0 : ℚ) ≤ m * 2 ^ e :=
  mul_nonneg (Nat.cast_nonneg m) (two_zpow_pos e).le

theorem size_div_unit (m : ℕ) : (m : ℚ) * 2 ^ e / 2 ^ e = m :=
  mul_div_cancel_right₀ _ (two_zpow_pos e).ne'

theorem floor_size_div_unit (m : ℕ) : ⌊(m : ℚ) * 2 ^ e / 2 ^ e⌋ = m := by
  rw [size_div_unit, Int.floor_natCast]

end Sizes

/-! ## Whole numbers with two bits -/

theorem floor_half {x : ℚ} {m : ℕ} (h : ⌊x⌋ = m) : ⌊x / 2⌋ = (m / 2 : ℕ) := by
  rw [← Nat.cast_two, Int.floor_div_natCast, h]
  rfl

theorem fract_half {x : ℚ} {m : ℕ} (h : ⌊x⌋ = m) :
    Int.fract (x / 2) = ((m % 2 : ℕ) + Int.fract x) / 2 := by
  have hBits : (m : ℚ) = 2 * (m / 2 : ℕ) + (m % 2 : ℕ) := by
    exact_mod_cast (Nat.div_add_mod m 2).symm
  rw [Int.fract, Int.fract, floor_half h, h, Int.cast_natCast, Int.cast_natCast]
  linarith

/-- A whole number with its two bits is what rounding needs of an exact number: the part below it,
whether the rest is a half at least, and whether there is more than that. -/
structure Represents (em : ExtendedMantissa) (x : ℚ) : Prop where
  floor_eq : ⌊x⌋ = em.mantissa
  roundBit_iff : em.roundBit = true ↔ 1 / 2 ≤ Int.fract x
  stickyBit_iff : em.stickyBit = true ↔ Int.fract x ≠ 0 ∧ Int.fract x ≠ 1 / 2

namespace Represents

theorem exact (m : ℕ) : Represents (.ofMantissaAndAccuracy m .exact) m := by
  have hFract : Int.fract (m : ℚ) = 0 := Int.fract_natCast m
  refine ⟨Int.floor_natCast m, iff_of_false Bool.false_ne_true ?_,
    iff_of_false Bool.false_ne_true ?_⟩
  · rw [hFract]
    norm_num
  · rw [hFract]
    exact fun h => h.1 rfl

variable {em : ExtendedMantissa} {x : ℚ} (h : Represents em x)
include h

theorem roundedMantissa_eq : (em.roundedMantissa : ℤ) = nearestEven x := by
  obtain ⟨hFloor, hRound, hSticky⟩ := h
  obtain ⟨m, roundBit, stickyBit⟩ := em
  dsimp only at hFloor hRound hSticky
  unfold nearestEven
  rw [hFloor]
  cases roundBit with
  | false =>
    have hBelow : Int.fract x < 1 / 2 := not_le.mp (mt hRound.mpr Bool.false_ne_true)
    rw [if_pos hBelow]
    cases stickyBit with
    | false => rfl
    | true => rfl
  | true =>
    have hHalf : 1 / 2 ≤ Int.fract x := hRound.mp rfl
    rw [if_neg (not_lt.mpr hHalf)]
    cases stickyBit with
    | false =>
      have hTie : Int.fract x = 1 / 2 := by
        by_contra hNe
        have hZero : Int.fract x ≠ 0 := by linarith
        exact Bool.false_ne_true (hSticky.mpr ⟨hZero, hNe⟩)
      rw [if_neg (not_lt.mpr hTie.le)]
      rfl
    | true =>
      rw [if_pos (lt_of_le_of_ne hHalf (hSticky.mp rfl).2.symm)]
      rfl

/-- One bit moves below the whole number; both bits below it are kept as one. -/
theorem shiftRightOne : Represents em.shiftRightOne (x / 2) := by
  obtain ⟨hFloor, hRound, hSticky⟩ := h
  obtain ⟨m, roundBit, stickyBit⟩ := em
  dsimp only at hFloor hRound hSticky
  have hNonneg := Int.fract_nonneg x
  have hLt := Int.fract_lt_one x
  have hMore : (roundBit || stickyBit) = true ↔ Int.fract x ≠ 0 := by
    rw [Bool.or_eq_true, hRound, hSticky]
    constructor
    · rintro (hHalf | ⟨hZero, -⟩)
      · linarith
      · exact hZero
    · intro hZero
      by_cases hHalf : Int.fract x = 1 / 2
      · exact .inl hHalf.ge
      · exact .inr ⟨hZero, hHalf⟩
  refine ⟨floor_half hFloor, ?_, ?_⟩
  · dsimp only [ExtendedMantissa.shiftRightOne]
    rw [fract_half hFloor]
    rcases Nat.mod_two_eq_zero_or_one m with hBit | hBit
    · rw [hBit, Nat.cast_zero]
      exact iff_of_false Bool.false_ne_true (by linarith)
    · rw [hBit, Nat.cast_one]
      exact iff_of_true rfl (by linarith)
  · rw [fract_half hFloor]
    refine hMore.trans ?_
    rcases Nat.mod_two_eq_zero_or_one m with hBit | hBit
    · rw [hBit, Nat.cast_zero]
      exact ⟨fun hZero => ⟨fun hEq => hZero (by linarith), by linarith⟩,
        fun hBoth hZero => hBoth.1 (by linarith)⟩
    · rw [hBit, Nat.cast_one]
      exact ⟨fun hZero => ⟨by linarith, fun hEq => hZero (by linarith)⟩,
        fun hBoth hZero => hBoth.2 (by linarith)⟩

theorem shiftRight (n : ℕ) : Represents (em >>> n) (x / 2 ^ n) := by
  induction n with
  | zero =>
    rw [pow_zero, div_one]
    exact h
  | succ n ih =>
    rw [pow_succ, ← div_div]
    exact ih.shiftRightOne

end Represents

/-! ## Rounding -/

theorem targetExponent_eq (k : ℤ) :
    Format.binary64.targetExponent k = max (k - 53) (-1074) := rfl

section Round

variable {m : ℕ} {e : ℤ} {q : ℚ}

theorem log_eq (hm : 0 < m) (h : ⌊q / 2 ^ e⌋ = m) : Int.log 2 q = m.log2 + e := by
  obtain ⟨hLow, hHigh⟩ := Int.floor_eq_iff.mp h
  rw [Int.cast_natCast, le_div_iff₀ (two_zpow_pos e)] at hLow
  rw [Int.cast_natCast, div_lt_iff₀ (two_zpow_pos e)] at hHigh
  have hPow : (2 ^ m.log2 : ℚ) ≤ m := by exact_mod_cast Nat.log2_self_le hm.ne'
  have hPow' : (m : ℚ) + 1 ≤ 2 ^ (m.log2 + 1) := by exact_mod_cast Nat.lt_log2_self
  have hPos : 0 < q := (size_pos e hm).trans_le hLow
  have hBelow : (2 : ℚ) ^ (m.log2 + e) ≤ q := by
    rw [zpow_add₀ (by norm_num), zpow_natCast]
    exact (mul_le_mul_of_nonneg_right hPow (two_zpow_pos e).le).trans hLow
  have hAbove : q < (2 : ℚ) ^ (m.log2 + e + 1) := by
    have hExponent : (m.log2 + e + 1 : ℤ) = ((m.log2 + 1 : ℕ) : ℤ) + e := by push_cast; ring
    rw [hExponent, zpow_add₀ (by norm_num), zpow_natCast]
    exact hHigh.trans_le (mul_le_mul_of_nonneg_right hPow' (two_zpow_pos e).le)
  have hLog := (Int.zpow_le_iff_le_log (b := 2) (by norm_num) hPos).mp hBelow
  have hLog' := (Int.lt_zpow_iff_log_lt (b := 2) (by norm_num) hPos).mp hAbove
  omega

theorem log_lt_totalExponent (hq : 0 < q) (h : ⌊q / 2 ^ e⌋ = m) :
    Int.log 2 q < totalExponent m e := by
  unfold totalExponent
  rcases Nat.eq_zero_or_pos m with rfl | hm
  · have hFloor := Int.lt_floor_add_one (q / 2 ^ e)
    rw [h, Nat.cast_zero, Int.cast_zero, zero_add, div_lt_one (two_zpow_pos e)] at hFloor
    have hLog := (Int.lt_zpow_iff_log_lt (b := 2) (by norm_num) hq).mp hFloor
    omega
  · rw [log_eq hm h]
    omega

/-- The unit that is aimed at is the unit of the number, if no bits are missing. -/
theorem targetExponent_of_floor (hq : 0 < q) (h : ⌊q / 2 ^ e⌋ = m)
    (he : e ≤ Format.binary64.targetExponent (totalExponent m e)) :
    Format.binary64.targetExponent (totalExponent m e) = unitExponent q := by
  have hLog := log_lt_totalExponent hq h
  rw [targetExponent_eq, totalExponent, unitExponent] at *
  rcases Nat.eq_zero_or_pos m with rfl | hm
  · -- nothing is left of the number, which is below the least unit
    rw [Nat.log2_zero] at he hLog ⊢
    omega
  · rw [log_eq hm h]
    congr 1
    ring

theorem mantissa_ofMantissaAndAccuracy (m : ℕ) (accuracy : Accuracy) :
    (ExtendedMantissa.ofMantissaAndAccuracy m accuracy).mantissa = m := by
  cases accuracy with
  | exact => rfl
  | inexact position =>
    cases position with
    | lt | eq | gt => rfl

theorem shiftToExponent_of_le (accuracy : Accuracy) {t : ℤ} (h : e ≤ t) :
    shiftToExponent m e accuracy t =
      (ExtendedMantissa.ofMantissaAndAccuracy m accuracy >>> (t - e).toNat, t) := by
  have hNat : ((t - e).toNat : ℤ) = t - e := Int.toNat_of_nonneg (by omega)
  have hExponent : e + ((t - e).toNat : ℤ) = t := by omega
  exact Prod.ext rfl hExponent

theorem represents_shifted {accuracy : Accuracy} {t : ℤ}
    (hRepresents : Represents (.ofMantissaAndAccuracy m accuracy) (q / 2 ^ e)) (h : e ≤ t) :
    Represents (ExtendedMantissa.ofMantissaAndAccuracy m accuracy >>> (t - e).toNat)
      (q / 2 ^ t) := by
  have hNat : ((t - e).toNat : ℤ) = t - e := Int.toNat_of_nonneg (by omega)
  have hPow : (2 : ℚ) ^ t = 2 ^ e * 2 ^ (t - e).toNat := by
    rw [← zpow_natCast, hNat, ← zpow_add₀ (by norm_num)]
    congr 1
    omega
  rw [hPow, ← div_div]
  exact hRepresents.shiftRight _

/-- The nearest number on the grid has at most 53 bits or is a power of two, and has 53 bits unless
the unit is the least one. -/
theorem nearestEven_bounds (hq : 0 < q) :
    nearestEven (q / 2 ^ unitExponent q) ≤ 2 ^ 53 ∧
      (2 ^ 52 ≤ nearestEven (q / 2 ^ unitExponent q) ∨ unitExponent q = -1074) := by
  have hLow := Int.zpow_log_le_self (b := 2) (by norm_num) hq
  have hHigh := Int.lt_zpow_succ_log_self (b := 2) (by norm_num) q
  constructor
  · apply nearestEven_le_of_le
    have hExponent : Int.log 2 q + 1 ≤ 53 + unitExponent q := by
      have hUnit : Int.log 2 q - 52 ≤ unitExponent q := le_max_left _ _
      omega
    rw [div_le_iff₀ (two_zpow_pos _), Int.cast_pow, Int.cast_ofNat, ← zpow_natCast,
      ← zpow_add₀ (by norm_num)]
    exact hHigh.le.trans (zpow_le_zpow_right₀ (by norm_num) hExponent)
  · by_cases hLeast : unitExponent q = -1074
    · exact .inr hLeast
    · left
      apply le_nearestEven_of_le
      have hUnit : 52 + unitExponent q = Int.log 2 q := by
        unfold unitExponent at hLeast ⊢
        omega
      rw [le_div_iff₀ (two_zpow_pos _), Int.cast_pow, Int.cast_ofNat, ← zpow_natCast,
        ← zpow_add₀ (by norm_num)]
      exact (zpow_le_zpow_right₀ (by norm_num) hUnit.le).trans hLow

/-- A number with a mantissa that may be zero. -/
def ofMantissa (s : Sign) (m : ℕ) (e : ℤ) : UnpackedFloat :=
  if h : m = 0 then .zero s else .finite s m e (Nat.pos_of_ne_zero h)

theorem level_ofMantissa (s : Sign) (m : ℕ) (e : ℤ) :
    level (ofMantissa s m e) = ((factor s * (m * 2 ^ e) : ℚ) : WithBot ℚ) := by
  by_cases h : m = 0
  · rw [ofMantissa, dif_pos h, h, Nat.cast_zero, zero_mul, mul_zero]
    rfl
  · rw [ofMantissa, dif_neg h]
    rfl

theorem canonical_ofMantissa {s : Sign} (hSize : m < 2 ^ 53) (hLeast : -1074 ≤ e)
    (hFull : 2 ^ 52 ≤ m ∨ e = -1074) : Canonical (ofMantissa s m e) := by
  by_cases h : m = 0
  · rw [ofMantissa, dif_pos h]
    trivial
  · rw [ofMantissa, dif_neg h]
    exact ⟨hSize, hLeast, hFull⟩

/-- A mantissa that is rounded up to a power of two loses its last bit, which is zero. -/
theorem canonical_level_carried (s : Sign) (hSize : m ≤ 2 ^ 53) (hLeast : -1074 ≤ e)
    (hFull : 2 ^ 52 ≤ m ∨ e = -1074) :
    let carried := shiftToTargetExponent .binary64 m e .exact
    Canonical (ofMantissa s carried.1.mantissa carried.2) ∧
      level (ofMantissa s carried.1.mantissa carried.2) =
        ((factor s * (m * 2 ^ e) : ℚ) : WithBot ℚ) := by
  intro carried
  have hCarried : carried = shiftToExponent m e .exact
      (Format.binary64.targetExponent (totalExponent m e)) := rfl
  rw [targetExponent_eq, totalExponent] at hCarried
  rcases hSize.lt_or_eq with hLt | rfl
  · have hLog : m.log2 ≤ 52 := by
      by_cases hZero : m = 0
      · rw [hZero, Nat.log2_zero]
        omega
      · exact Nat.le_of_lt_succ ((Nat.log2_lt hZero).mpr hLt)
    have hStays : carried = (.ofMantissaAndAccuracy m .exact, e) := by
      have hNat : (max ((m.log2 : ℤ) + 1 + e - 53) (-1074) - e).toNat = 0 := by omega
      rw [hCarried, shiftToExponent, hNat]
      exact Prod.ext rfl (Int.add_zero e)
    rw [hStays]
    exact ⟨canonical_ofMantissa hLt hLeast hFull, level_ofMantissa s m e⟩
  · have hLog : Nat.log2 (2 ^ 53) = 53 := Nat.log2_two_pow
    have hTarget : max ((Nat.log2 (2 ^ 53) : ℤ) + 1 + e - 53) (-1074) = e + 1 := by
      rw [hLog]
      omega
    have hShifted : carried.1.mantissa = 2 ^ 52 ∧ carried.2 = e + 1 := by
      have hNat : (e + 1 - e).toNat = 1 := by omega
      rw [hCarried, hTarget, shiftToExponent, hNat]
      exact ⟨rfl, rfl⟩
    rw [hShifted.1, hShifted.2, level_ofMantissa, zpow_add_one₀ (by norm_num)]
    refine ⟨canonical_ofMantissa (by norm_num) (by omega) (.inl le_rfl), ?_⟩
    congr 2
    push_cast
    ring

/-- What is known of an exact number, from a whole number of a unit that leaves no bits out, is
rounded as the number itself. -/
theorem isRounded_roundWithAccuracy (s : Sign) {accuracy : Accuracy} (hq : 0 < q)
    (hRepresents : Represents (.ofMantissaAndAccuracy m accuracy) (q / 2 ^ e))
    (he : e ≤ Format.binary64.targetExponent (totalExponent m e)) :
    IsRounded (roundWithAccuracy .binary64 s m e accuracy) (factor s * q) := by
  have hFloor := hRepresents.floor_eq
  rw [mantissa_ofMantissaAndAccuracy] at hFloor
  have hTarget := targetExponent_of_floor hq hFloor he
  rw [hTarget] at he
  let shifted := shiftToTargetExponent .binary64 m e accuracy
  have hShifted : shifted =
      (ExtendedMantissa.ofMantissaAndAccuracy m accuracy >>> (unitExponent q - e).toNat,
        unitExponent q) := by
    rw [← shiftToExponent_of_le accuracy he, ← hTarget]
    rfl
  have hMantissa : (shifted.1.roundedMantissa : ℤ) = nearestEven (q / 2 ^ unitExponent q) := by
    rw [hShifted]
    exact (represents_shifted hRepresents he).roundedMantissa_eq
  have hExponent : shifted.2 = unitExponent q := by rw [hShifted]
  obtain ⟨hSize, hFull⟩ := nearestEven_bounds hq
  rw [← hMantissa] at hSize hFull
  rw [← hExponent] at hFull
  have hCarried := canonical_level_carried s (m := shifted.1.roundedMantissa) (e := shifted.2)
    (by exact_mod_cast hSize) (hExponent ▸ neg_1074_le_unitExponent q)
    (hFull.imp_left fun h => by exact_mod_cast h)
  have hSizeEq : (shifted.1.roundedMantissa : ℚ) * 2 ^ shifted.2 = roundedSize q := by
    rw [roundedSize, ← hMantissa, hExponent, Int.cast_natCast]
  rw [hSizeEq, ← rounded_factor s hq.le] at hCarried
  exact ⟨hCarried.1, hCarried.2⟩

theorem decreaseExponent_eq (m : ℕ) (e t : ℤ) :
    ((decreaseExponent m e t).1 : ℚ) * 2 ^ (decreaseExponent m e t).2 = m * 2 ^ e := by
  have hExponent : e = (e - t).toNat + (e - (e - t).toNat : ℤ) := by ring
  unfold decreaseExponent
  dsimp only
  rw [Nat.shiftLeft_eq, Nat.cast_mul, Nat.cast_pow, Nat.cast_ofNat, mul_assoc, ← zpow_natCast,
    ← zpow_add₀ (by norm_num), ← hExponent]

theorem isRounded_round (s : Sign) (hm : 0 < m) :
    IsRounded (UnpackedFloat.round .binary64 s m e) (factor s * (m * 2 ^ e)) := by
  let t := Format.binary64.targetExponent (totalExponent m e)
  obtain ⟨m', hm'⟩ : ∃ m', m' = (decreaseExponent m e t).1 := ⟨_, rfl⟩
  obtain ⟨e', he'⟩ : ∃ e', e' = (decreaseExponent m e t).2 := ⟨_, rfl⟩
  have hSame : (m' : ℚ) * 2 ^ e' = m * 2 ^ e := by rw [hm', he', decreaseExponent_eq]
  have hPos : (0 : ℚ) < m * 2 ^ e := size_pos e hm
  have hPos' : 0 < m' := by
    rw [← hSame] at hPos
    exact Nat.cast_pos.mp (pos_of_mul_pos_left hPos (two_zpow_pos e').le)
  -- the number is the same, so the unit that is aimed at is the same
  have hLog : (m'.log2 : ℤ) + e' = m.log2 + e := by
    rw [← log_eq hPos' (floor_size_div_unit e' m'), ← log_eq hm (floor_size_div_unit e m), hSame]
  have hTarget : e' ≤ Format.binary64.targetExponent (totalExponent m' e') := by
    have hTotal : totalExponent m' e' = totalExponent m e := by
      unfold totalExponent
      omega
    have hLe : e' ≤ t := by
      rw [he', decreaseExponent]
      dsimp only
      omega
    rw [hTotal]
    exact hLe
  have hRepresents : Represents (.ofMantissaAndAccuracy m' .exact) (m * 2 ^ e / 2 ^ e') := by
    rw [← hSame, size_div_unit]
    exact Represents.exact m'
  have hRound := isRounded_roundWithAccuracy s hPos hRepresents hTarget
  rw [hm', he'] at hRound
  exact hRound

theorem isRounded_normalize (n : ℤ) (e : ℤ) (zeroSign : Sign) :
    IsRounded (UnpackedFloat.normalize .binary64 n e zeroSign) (n * 2 ^ e) := by
  unfold UnpackedFloat.normalize
  rcases lt_trichotomy n 0 with hNeg | rfl | hPos
  · have hNat : ((-n).toNat : ℚ) = -n := by exact_mod_cast Int.toNat_of_nonneg (by omega : 0 ≤ -n)
    have hFactor : (n : ℚ) * 2 ^ e = factor .negative * ((-n).toNat * 2 ^ e) := by
      rw [hNat, factor]
      ring
    rw [Int.compare_eq_lt.mpr hNeg, hFactor]
    exact isRounded_round .negative (by omega)
  · rw [Int.cast_zero, zero_mul]
    exact isRounded_zero zeroSign
  · have hNat : (n.toNat : ℚ) = n := by exact_mod_cast Int.toNat_of_nonneg hPos.le
    have hFactor : (n : ℚ) * 2 ^ e = factor .positive * (n.toNat * 2 ^ e) := by
      rw [hNat, factor, one_mul]
    rw [Int.compare_eq_gt.mpr hPos, hFactor]
    exact isRounded_round .positive (by omega)

end Round

end DivisionAudit.Double
