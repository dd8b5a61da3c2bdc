import DivisionAudit.Proofs.Double.Place
import DivisionAudit.Proofs.Input.Sweep

/-!
# The order of the samples of a sweep

A sweep is computed in doubles, over a logarithm and an exponential that are given. If these two
keep the order of doubles, so does every step from a position to its sample: the quotient by the
number of samples, the part of the way between the logarithms, the truncation and the clamp. The
difference of the logarithms is not negative because words keep their order as doubles, even where
they are rounded.

* `Rising`: a function of doubles that keeps their order, with NaN below all others.
* `between_le_between`: a later position has no smaller magnitude.
* `samples_ascend`: the samples of a sweep by their magnitudes and by their values.
-/

namespace DivisionAudit.Sweep

open Double

variable {log exp : Float → Float} {s : Sweep} {start stop : Int64} {count : UInt64} {i j : ℕ}

/-- A function of doubles that keeps their order, with NaN below all others. -/
def Rising (f : Float → Float) : Prop := ∀ x y, Below x y → Below (f x) (f y)

/-- The arithmetic of doubles over any logarithm and exponential. -/
def Arithmetic.doubleWith (log exp : Float → Float) : Arithmetic Float :=
  { Arithmetic.double with log, exp }

theorem pass_sweep_doubleWith (s : Sweep) :
    (Source.sweep s).pass = s.pass (.doubleWith Float.log Float.exp) := rfl

/-! ## One sample and a later one -/

theorem between_le_between (hExp : Rising exp) {logLow logHigh : Float}
    (hLog : Below logLow logHigh) (hCount : count ≠ 0) (hLe : i ≤ j) (hj : j < 2 ^ 64) :
    between (.doubleWith log exp) logLow logHigh count i ≤
      between (.doubleWith log exp) logLow logHigh count j := by
  have hWord : UInt64.ofNat i ≤ UInt64.ofNat j := by
    rw [UInt64.le_iff_toNat_le, UInt64.toNat_ofNat', UInt64.toNat_ofNat',
      Nat.mod_eq_of_lt (hLe.trans_lt hj), Nat.mod_eq_of_lt hj]
    exact hLe
  apply toUInt64_le
  apply hExp
  exact below_partway hLog (number_div _ hCount).1 (number_div _ hCount).1
    (number_div_nonneg _ hCount) (number_div_mono hCount hWord)

theorem clamp_le_clamp {m n : UInt64} (h : m ≤ n) : s.clamp m ≤ s.clamp n := by
  rw [UInt64.le_iff_toNat_le] at h ⊢
  rw [clamp, clamp, toNat_max, toNat_max, toNat_min, toNat_min]
  exact max_le_max_left _ (min_le_min_left _ h)

/-- A sample and a later one are magnitudes in this order, put on the sweep's side. -/
theorem valueAt_ascend (hLog : Rising log) (hExp : Rising exp) (hLe : i ≤ j)
    (hj : j < s.count.toNat) : ∃ m n : UInt64, m ≤ n ∧
      (s.valueAt (.doubleWith log exp) i).toInt =
        (if s.start.toInt < 0 then -(m.toNat : ℤ) else m.toNat) ∧
      (s.valueAt (.doubleWith log exp) j).toInt =
        if s.start.toInt < 0 then -(n.toNat : ℤ) else n.toNat :=
  ⟨s.clamp _, s.clamp _,
    clamp_le_clamp (between_le_between hExp (hLog _ _ (below_toFloat s.low_le_high))
      s.count_ne_zero hLe (hj.trans s.count.toNat_lt)),
    toInt_signed (clamp_le_high s _), toInt_signed (clamp_le_high s _)⟩

/-! ## All samples -/

theorem pairwise_samples {R : Type} (A : Arithmetic R) {rel : Int64 → Int64 → Prop}
    (h : ∀ i j, i ≤ j → j < s.count.toNat → rel (s.valueAt A i) (s.valueAt A j)) :
    (s.pass A).toList.Pairwise rel := by
  rw [toList_pass, List.pairwise_map]
  apply List.pairwise_lt_range.imp_of_mem
  intro i j _ hj hLt
  exact h i j hLt.le (List.mem_range.mp hj)

/-- If the logarithm and the exponential keep the order of doubles, the magnitudes of the samples
never decrease: the samples of a positive sweep do not fall and those of a negative one do not
rise. This is so for every number of samples and for bounds of which no double is exact. With the
logarithm and the exponential of the platform the pass is the one of the sweep as a source. -/
theorem samples_ascend (hLog : Rising log) (hExp : Rising exp)
    (h : (make start stop count).result = .ok s) :
    let samples := (s.pass (.doubleWith log exp)).toList
    samples.Pairwise (fun v w => v.toInt.natAbs ≤ w.toInt.natAbs) ∧
      (0 < start → samples.Pairwise (· ≤ ·)) ∧ (start < 0 → samples.Pairwise (· ≥ ·)) := by
  intro samples
  obtain ⟨rfl, rfl, rfl⟩ := make_eq_ok_iff.mp h
  refine ⟨pairwise_samples _ ?_, fun hSide => pairwise_samples _ ?_,
    fun hSide => pairwise_samples _ ?_⟩
  · intro i j hLe hj
    obtain ⟨m, n, hMagnitudes, hm, hn⟩ := valueAt_ascend hLog hExp hLe hj
    rw [UInt64.le_iff_toNat_le] at hMagnitudes
    rw [hm, hn]
    split
    · omega
    · omega
  · intro i j hLe hj
    obtain ⟨m, n, hMagnitudes, hm, hn⟩ := valueAt_ascend hLog hExp hLe hj
    rw [UInt64.le_iff_toNat_le] at hMagnitudes
    rw [Int64.lt_iff_toInt_lt, Int64.toInt_zero] at hSide
    rw [if_neg (by omega)] at hm hn
    rw [Int64.le_iff_toInt_le]
    omega
  · intro i j hLe hj
    obtain ⟨m, n, hMagnitudes, hm, hn⟩ := valueAt_ascend hLog hExp hLe hj
    rw [UInt64.le_iff_toNat_le] at hMagnitudes
    rw [Int64.lt_iff_toInt_lt, Int64.toInt_zero] at hSide
    rw [if_pos (by omega)] at hm hn
    rw [ge_iff_le, Int64.le_iff_toInt_le]
    omega

/-- A function of doubles with steps: the value at the first step that is reached, and NaN where
none is. -/
def steps : List (Float × Float) → Float → Float
  | [], _ => 0 / 0
  | (step, value) :: rest, x => if step ≤ x then value else steps rest x

theorem isNaN_zero_div_zero : (0 / 0 : Float).isNaN = true := by decide

theorem below_steps {y : Float} (table : List (Float × Float)) (h : ∀ row ∈ table, Below row.2 y)
    (x : Float) : Below (steps table x) y := by
  induction table with
  | nil => exact .inl isNaN_zero_div_zero
  | cons row rest ih =>
    rw [steps]
    split
    · exact h row List.mem_cons_self
    · exact ih fun row' hRow => h row' (List.mem_cons_of_mem row hRow)

theorem rising_steps {table : List (Float × Float)}
    (h : table.Pairwise fun row next => Below next.2 row.2) : Rising (steps table) := by
  intro x y hBelow
  induction table with
  | nil => exact .inl isNaN_zero_div_zero
  | cons row rest ih =>
    obtain ⟨hRow, hRest⟩ := List.pairwise_cons.mp h
    rw [steps, steps]
    split
    · next hReached =>
      rw [if_pos (le_of_le_of_below hReached hBelow)]
      exact below_iff.mpr le_rfl
    · split
      · exact below_steps rest hRow x
      · exact ih hRest

/-- From 1 to 8 the logarithms and exponentials are those of the platform; the second and third
exponential fall short of 2 and 4. -/
theorem samples_ascend_octaves :
    let log := steps [(8, .ofBits 0x4000a2b23f3bab73), (1, 0)]
    let exp := steps [(.ofBits 0x3ff62e42fefa39ee, .ofBits 0x400ffffffffffffe),
      (.ofBits 0x3fe62e42fefa39ee, .ofBits 0x3fffffffffffffff), (0, 1)]
    (∃ s, (make 1 8 3).result = .ok s ∧
      (s.pass (.doubleWith log exp)).toList = [1, 1, 3] ∧
      (s.pass (.doubleWith log exp)).toList.Pairwise (· ≤ ·)) ∧
    ∃ s, (make (-8) (-1) 3).result = .ok s ∧
      (s.pass (.doubleWith log exp)).toList = [-1, -1, -3] ∧
      (s.pass (.doubleWith log exp)).toList.Pairwise (· ≥ ·) := by
  intro log exp
  have hLog : Rising log := rising_steps (by decide)
  have hExp : Rising exp := rising_steps (by decide)
  constructor
  · let s : Sweep := ⟨1, 8, 3, by decide, by decide, by decide, by decide⟩
    have hMake : (make 1 8 3).result = .ok s := make_eq_ok_iff.mpr ⟨rfl, rfl, rfl⟩
    refine ⟨s, hMake, ?_, (samples_ascend hLog hExp hMake).2.1 (by decide)⟩
    rw [toList_pass]
    decide +kernel
  · let s : Sweep := ⟨-8, -1, 3, by decide, by decide, by decide, by decide⟩
    have hMake : (make (-8) (-1) 3).result = .ok s := make_eq_ok_iff.mpr ⟨rfl, rfl, rfl⟩
    refine ⟨s, hMake, ?_, (samples_ascend hLog hExp hMake).2.2 (by decide)⟩
    rw [toList_pass]
    decide +kernel

end DivisionAudit.Sweep
