import DivisionAudit.Proofs.Expression.Exact
import DivisionAudit.Proofs.Input.Count

/-!
# The bounds of a sweep

Whatever the real operations give, NaN included, a sample is clamped between the magnitudes of the
bounds before it is put on the sweep's side of zero. So the bounds and the side hold for every
arithmetic. The one magnitude that has no positive word is `2 ^ 63`; only a negative sweep reaches
it, and there its word is its own negation. A sample depends on the magnitudes of the bounds and on
the side only, so the order of the bounds makes no difference, and their negation negates it.

* `Sweep.make_eq_ok_iff`: which bounds are accepted.
* `Sweep.toInt_signed`: a magnitude up to the greater bound, put on the sweep's side.
* `Sweep.toList_pass`: the samples by their positions.
* `Sweep.samples_within`: number, sides and bounds of the samples, and the sweeps over swapped and
  over negated bounds.
-/

namespace DivisionAudit.Sweep

open Expression (toInt_neg_of_ne)

variable {R : Type} {s t : Sweep} {start stop : Int64} {count : UInt64}

/-! ## Bounds that are accepted -/

theorem make_eq_ok_iff : (make start stop count).result = .ok s ↔
    s.start = start ∧ s.stop = stop ∧ s.count = count := by
  constructor
  · intro h
    unfold make at h
    split at h
    · cases h
    · split at h
      · cases h
      · split at h
        · cases h
        · cases h
          exact ⟨rfl, rfl, rfl⟩
  · rintro ⟨rfl, rfl, rfl⟩
    have hZero : ¬ (s.start = 0 ∨ s.stop = 0) := not_or.mpr ⟨s.start_ne_zero, s.stop_ne_zero⟩
    rw [make, dif_neg hZero, dif_neg (not_not.mpr s.same_sign), dif_neg s.count_ne_zero]
    rfl

/-- The sweep with its bounds in the other order. -/
def swap (s : Sweep) : Sweep :=
  ⟨s.stop, s.start, s.count, s.stop_ne_zero, s.start_ne_zero, s.same_sign.symm, s.count_ne_zero⟩

theorem neg_lt_zero_iff {n : Int64} (hZero : n ≠ 0) (hLeast : n ≠ Int64.minValue) :
    -n < 0 ↔ ¬ n < 0 := by
  have hInt : n.toInt ≠ 0 := fun h => hZero (Int64.toInt_inj.mp h)
  rw [Int64.lt_iff_toInt_lt, Int64.lt_iff_toInt_lt, toInt_neg_of_ne hLeast, Int64.toInt_zero]
  omega

theorem neg_ne_zero {n : Int64} (h : n ≠ 0) : -n ≠ 0 := by
  intro hNeg
  apply h
  rw [← Int64.neg_neg (a := n), hNeg]
  rfl

/-- The sweep between the negations of the bounds. -/
def mirror (s : Sweep) (hStart : s.start ≠ Int64.minValue) (hStop : s.stop ≠ Int64.minValue) :
    Sweep where
  start := -s.start
  stop := -s.stop
  count := s.count
  start_ne_zero := neg_ne_zero s.start_ne_zero
  stop_ne_zero := neg_ne_zero s.stop_ne_zero
  same_sign := by
    rw [neg_lt_zero_iff s.start_ne_zero hStart, neg_lt_zero_iff s.stop_ne_zero hStop, s.same_sign]
  count_ne_zero := s.count_ne_zero

/-! ## Magnitudes -/

theorem toNat_magnitude (n : Int64) : (magnitude n).toNat = n.toInt.natAbs := by
  have hWord : n.toInt = n.toBitVec.toInt := rfl
  have hMagnitude : (magnitude n).toNat = n.toBitVec.abs.toNat := rfl
  have hLt := n.toBitVec.isLt
  rw [hMagnitude, hWord, BitVec.toNat_abs, BitVec.toInt_eq_msb_cond]
  split
  · omega
  · omega

theorem toNat_min (a b : UInt64) : (min a b).toNat = min a.toNat b.toNat := by
  have hDef : min a b = if a ≤ b then a else b := rfl
  rw [hDef, apply_ite UInt64.toNat, min_def]
  rfl

theorem toNat_max (a b : UInt64) : (max a b).toNat = max a.toNat b.toNat := by
  have hDef : max a b = if a ≤ b then b else a := rfl
  rw [hDef, apply_ite UInt64.toNat, max_def]
  rfl

theorem toNat_low (s : Sweep) : s.low.toNat = min s.start.toInt.natAbs s.stop.toInt.natAbs := by
  rw [low, toNat_min, toNat_magnitude, toNat_magnitude]

theorem toNat_high (s : Sweep) : s.high.toNat = max s.start.toInt.natAbs s.stop.toInt.natAbs := by
  rw [high, toNat_max, toNat_magnitude, toNat_magnitude]

theorem low_le_high (s : Sweep) : s.low ≤ s.high := by
  rw [UInt64.le_iff_toNat_le, toNat_low, toNat_high]
  exact min_le_max

theorem low_le_clamp (s : Sweep) (m : UInt64) : s.low ≤ s.clamp m := by
  rw [UInt64.le_iff_toNat_le, clamp, toNat_max]
  exact le_max_left _ _

theorem clamp_le_high (s : Sweep) (m : UInt64) : s.clamp m ≤ s.high := by
  have h := UInt64.le_iff_toNat_le.mp s.low_le_high
  rw [UInt64.le_iff_toNat_le, clamp, toNat_max, toNat_min]
  exact max_le h (min_le_left _ _)

theorem isNegative_iff : s.isNegative = true ↔ s.start.toInt < 0 := by
  rw [isNegative, decide_eq_true_iff, Int64.lt_iff_toInt_lt, Int64.toInt_zero]

/-- Only a negative sweep has a bound of the magnitude `2 ^ 63`. -/
theorem toNat_high_lt (h : ¬ s.start.toInt < 0) : s.high.toNat < 2 ^ 63 := by
  have hStop : ¬ s.stop.toInt < 0 := by
    have hSign := s.same_sign
    rw [Int64.lt_iff_toInt_lt, Int64.lt_iff_toInt_lt, Int64.toInt_zero] at hSign
    exact fun hNeg => h (hSign.mpr hNeg)
  have hStart' := s.start.toInt_lt
  have hStop' := s.stop.toInt_lt
  rw [toNat_high]
  omega

theorem toNat_high_le (s : Sweep) : s.high.toNat ≤ 2 ^ 63 := by
  have hStart := s.start.le_toInt
  have hStop := s.stop.le_toInt
  have hStart' := s.start.toInt_lt
  have hStop' := s.stop.toInt_lt
  rw [toNat_high]
  omega

/-! ## Sides -/

theorem toInt_toInt64 (m : UInt64) : m.toInt64.toInt = (m.toNat : ℤ).bmod (2 ^ 64) :=
  BitVec.toInt_eq_toNat_bmod m.toBitVec

/-- Up to the greater bound a magnitude keeps its size on either side of zero. On the negative side
`2 ^ 63` is the least word, which is its own negation. -/
theorem toInt_signed {m : UInt64} (h : m ≤ s.high) :
    (s.signed m).toInt = if s.start.toInt < 0 then -(m.toNat : ℤ) else m.toNat := by
  have hm := UInt64.le_iff_toNat_le.mp h
  unfold signed
  by_cases hNegative : s.start.toInt < 0
  · have hHigh := s.toNat_high_le
    rw [if_pos (isNegative_iff.mpr hNegative), if_pos hNegative, Int64.toInt_neg, toInt_toInt64]
    by_cases hGreatest : m.toNat = 2 ^ 63
    · rw [hGreatest]
      rfl
    · rw [Int.bmod_eq_of_le (n := (m.toNat : ℤ)) (by omega) (by omega)]
      exact Int.bmod_eq_of_le (by omega) (by omega)
  · have hHigh := toNat_high_lt hNegative
    rw [if_neg (fun hSide => hNegative (isNegative_iff.mp hSide)), if_neg hNegative, toInt_toInt64]
    exact Int.bmod_eq_of_le (by omega) (by omega)

/-! ## Samples -/

/-- The pass over the samples that an arithmetic gives. -/
def pass (A : Arithmetic R) (s : Sweep) : Pass .word := .walk (s.walkOver A)

theorem pass_sweep (s : Sweep) : (Source.sweep s).pass = s.pass .double := rfl

theorem toList_pass (A : Arithmetic R) (s : Sweep) :
    (s.pass A).toList = (List.range s.count.toNat).map (s.valueAt A) := by
  rw [pass, Pass.toList_walk]
  apply List.map_congr_left
  intro i hi
  exact congrArg (s.valueAt A) (Nat.zero_add i)

/-- A sample is a magnitude between those of the bounds, on their side of zero. -/
theorem valueAt_within (A : Arithmetic R) (s : Sweep) (i : ℕ) :
    (s.valueAt A i).toInt.sign = s.start.toInt.sign ∧
      min s.start.toInt.natAbs s.stop.toInt.natAbs ≤ (s.valueAt A i).toInt.natAbs ∧
      (s.valueAt A i).toInt.natAbs ≤ max s.start.toInt.natAbs s.stop.toInt.natAbs := by
  obtain ⟨m, hLow, hHigh, hValue⟩ : ∃ m, s.low ≤ m ∧ m ≤ s.high ∧ (s.valueAt A i).toInt =
      if s.start.toInt < 0 then -(m.toNat : ℤ) else m.toNat :=
    ⟨s.clamp _, low_le_clamp s _, clamp_le_high s _, toInt_signed (clamp_le_high s _)⟩
  rw [UInt64.le_iff_toNat_le, toNat_low] at hLow
  rw [UInt64.le_iff_toNat_le, toNat_high] at hHigh
  have hStart : s.start.toInt ≠ 0 := fun hZero => s.start_ne_zero (Int64.toInt_inj.mp hZero)
  have hStop : s.stop.toInt ≠ 0 := fun hZero => s.stop_ne_zero (Int64.toInt_inj.mp hZero)
  have hPos : 0 < m.toNat := by omega
  by_cases hNegative : s.start.toInt < 0
  · rw [if_pos hNegative] at hValue
    rw [hValue, Int.natAbs_neg, Int.natAbs_natCast, Int.sign_eq_neg_one_of_neg hNegative,
      Int.sign_eq_neg_one_of_neg (by omega)]
    exact ⟨rfl, hLow, hHigh⟩
  · rw [if_neg hNegative] at hValue
    rw [hValue, Int.natAbs_natCast, Int.sign_eq_one_of_pos (by omega),
      Int.sign_eq_one_of_pos (by omega)]
    exact ⟨rfl, hLow, hHigh⟩

theorem valueAt_swap (A : Arithmetic R) (s : Sweep) : s.swap.valueAt A = s.valueAt A := by
  have hLow : s.swap.low = s.low := UInt64.toNat_inj.mp (by
    rw [toNat_low, toNat_low]
    exact min_comm _ _)
  have hHigh : s.swap.high = s.high := UInt64.toNat_inj.mp (by
    rw [toNat_high, toNat_high]
    exact max_comm _ _)
  have hSide : s.swap.isNegative = s.isNegative := decide_eq_decide.mpr s.same_sign.symm
  funext i
  simp only [valueAt, sample, signed, clamp, hLow, hHigh, hSide]
  rfl

theorem valueAt_mirror (A : Arithmetic R) {hStart : s.start ≠ Int64.minValue}
    {hStop : s.stop ≠ Int64.minValue} (i : ℕ) :
    (s.mirror hStart hStop).valueAt A i = -s.valueAt A i := by
  have hLow : (s.mirror hStart hStop).low = s.low := UInt64.toNat_inj.mp (by
    rw [toNat_low, toNat_low, mirror, toInt_neg_of_ne hStart, toInt_neg_of_ne hStop,
      Int.natAbs_neg, Int.natAbs_neg])
  have hHigh : (s.mirror hStart hStop).high = s.high := UInt64.toNat_inj.mp (by
    rw [toNat_high, toNat_high, mirror, toInt_neg_of_ne hStart, toInt_neg_of_ne hStop,
      Int.natAbs_neg, Int.natAbs_neg])
  have hSigned (m : UInt64) : (s.mirror hStart hStop).signed m = -s.signed m := by
    have hSide : (s.mirror hStart hStop).isNegative = !s.isNegative := by
      rw [isNegative, isNegative, ← decide_not]
      exact decide_eq_decide.mpr (neg_lt_zero_iff s.start_ne_zero hStart)
    rw [signed, signed, hSide]
    cases s.isNegative with
    | true => exact (Int64.neg_neg).symm
    | false => rfl
  simp only [valueAt, sample, clamp, hLow, hHigh, hSigned]
  rfl

/-- A pass has as many samples as were asked for. Each is on the side of the bounds and between
their magnitudes, the least word having the magnitude `2 ^ 63`. Bounds in the other order are
accepted too and give the same samples; so are the negated ones, where both have a negation, and
every sample is negated. A clamp is between ordered bounds, and every magnitude between them keeps
its size on the sweep's side. -/
theorem samples_within (A : Arithmetic R) (h : (make start stop count).result = .ok s) :
    let samples := (s.pass A).toList
    (samples.length = count.toNat ∧ ∀ v ∈ samples, v.toInt.sign = start.toInt.sign ∧
      min start.toInt.natAbs stop.toInt.natAbs ≤ v.toInt.natAbs ∧
      v.toInt.natAbs ≤ max start.toInt.natAbs stop.toInt.natAbs) ∧
    (∃ t, (make stop start count).result = .ok t ∧ (t.pass A).toList = samples) ∧
    (start ≠ Int64.minValue → stop ≠ Int64.minValue →
      ∃ t, (make (-start) (-stop) count).result = .ok t ∧
        (t.pass A).toList = samples.map fun v => -v) ∧
    s.low ≤ s.high ∧ ∀ m, s.low ≤ m → m ≤ s.high →
      (s.signed m).toInt = if start.toInt < 0 then -(m.toNat : ℤ) else m.toNat := by
  intro samples
  obtain ⟨rfl, rfl, rfl⟩ := make_eq_ok_iff.mp h
  have hSamples : samples = (List.range s.count.toNat).map (s.valueAt A) := toList_pass A s
  refine ⟨⟨?_, ?_⟩, ?_, ?_, s.low_le_high, fun m _ hHigh => toInt_signed hHigh⟩
  · rw [hSamples, List.length_map, List.length_range]
  · intro v hv
    rw [hSamples] at hv
    obtain ⟨i, -, rfl⟩ := List.mem_map.mp hv
    exact valueAt_within A s i
  · refine ⟨s.swap, make_eq_ok_iff.mpr ⟨rfl, rfl, rfl⟩, ?_⟩
    rw [hSamples, toList_pass, valueAt_swap]
    rfl
  · intro hStart hStop
    refine ⟨s.mirror hStart hStop, make_eq_ok_iff.mpr ⟨rfl, rfl, rfl⟩, ?_⟩
    rw [hSamples, toList_pass, List.map_map]
    exact List.map_congr_left fun i _ => valueAt_mirror A i

/-- The least word is a bound, and the greatest magnitude comes to it. Sweeps up to the greatest
word have a negation. -/
theorem samples_within_least :
    (∃ s, (make Int64.minValue (-5) 3).result = .ok s ∧
      (Source.sweep s).pass.toList.length = 3 ∧
      (∀ v ∈ (Source.sweep s).pass.toList, v.toInt.sign = -1 ∧ 5 ≤ v.toInt.natAbs ∧
        v.toInt.natAbs ≤ 0x8000000000000000) ∧
      (s.signed 0x8000000000000000).toInt = -0x8000000000000000) ∧
    ∃ s t, (make Int64.maxValue 1 7).result = .ok s ∧
      (make (-Int64.maxValue) (-1) 7).result = .ok t ∧
      (Source.sweep t).pass.toList = (Source.sweep s).pass.toList.map fun v => -v := by
  constructor
  · let s : Sweep := ⟨Int64.minValue, -5, 3, by decide, by decide, by decide, by decide⟩
    have hMake : (make Int64.minValue (-5) 3).result = .ok s := make_eq_ok_iff.mpr ⟨rfl, rfl, rfl⟩
    obtain ⟨⟨hLength, hBounds⟩, -, -, -, hSigned⟩ := samples_within .double hMake
    refine ⟨s, hMake, hLength, hBounds, ?_⟩
    exact hSigned 0x8000000000000000 (by decide) (by decide)
  · let s : Sweep := ⟨Int64.maxValue, 1, 7, by decide, by decide, by decide, by decide⟩
    have hMake : (make Int64.maxValue 1 7).result = .ok s := make_eq_ok_iff.mpr ⟨rfl, rfl, rfl⟩
    obtain ⟨-, -, hMirror, -⟩ := samples_within .double hMake
    obtain ⟨t, hMake', hSamples⟩ := hMirror (by decide) (by decide)
    exact ⟨s, t, hMake, hMake', hSamples⟩

end DivisionAudit.Sweep
