import DivisionAudit.Proofs.Expression.Quotients
import Mathlib.Algebra.Order.BigOperators.Group.List
import Mathlib.Algebra.Order.Group.Abs
import Mathlib.Algebra.Order.Group.Int
import Mathlib.Tactic.Linarith

/-!
# Where the expression does not wrap

The expression evaluated in unbounded integers goes through the same four running sums, and the
words hold these integers as far as they fit. Of a number that is not negative all quotients and
remainders are not negative either, so the running sums only grow, and the last ones bound the
others. Over the primary divisors the quotients add up to at most twice the number, over the
extended ones to at most the number itself, of which the greatest word leaves over all. The
mirrored sums are the difference of the two, so they stay small, and a number below zero has the
opposite sums.

* `sums_eq_words`: the words are those in the place of the unbounded sums.
* `Bounded.unwrapped`: bounds under which no step wraps.
* `exact_of_small`: up to `2 ^ 61` the primary expression has the exact value, and up to `2 ^ 60`
  the extended one.
-/

namespace DivisionAudit.Expression

/-! ## Unbounded sums -/

/-- A word can hold the integer. -/
def Fits (z : Int) : Prop := -2 ^ 63 ≤ z ∧ z < 2 ^ 63

/-- The four running sums in unbounded integers. -/
structure WideSums where
  quotients : Int
  remainders : Int
  mirroredQuotients : Int
  mirroredRemainders : Int

namespace WideSums

def start (n : Int) : WideSums := ⟨0, 0, n.tdiv (-2 ^ 63), n.tmod (-2 ^ 63)⟩

def add (n : Int) (s : WideSums) (p : Int) : WideSums where
  quotients := s.quotients + n.tdiv p
  remainders := s.remainders + n.tmod p
  mirroredQuotients := s.mirroredQuotients + n.tdiv (-p)
  mirroredRemainders := s.mirroredRemainders + n.tmod (-p)

def mirrored (s : WideSums) : Int := s.mirroredQuotients + s.mirroredRemainders

def total (s : WideSums) : Int := s.quotients + s.remainders + (3 * s.mirrored).tdiv 7

structure Fits (s : WideSums) : Prop where
  quotients : Expression.Fits s.quotients
  remainders : Expression.Fits s.remainders
  mirroredQuotients : Expression.Fits s.mirroredQuotients
  mirroredRemainders : Expression.Fits s.mirroredRemainders

/-- The words in the place of the integers. -/
def words (s : WideSums) : Sums :=
  ⟨.ofInt s.quotients, .ofInt s.remainders, .ofInt s.mirroredQuotients, .ofInt s.mirroredRemainders⟩

end WideSums

/-- The integers that the words hold. -/
def Sums.wide (s : Sums) : WideSums :=
  ⟨s.quotients.toInt, s.remainders.toInt, s.mirroredQuotients.toInt, s.mirroredRemainders.toInt⟩

/-- The sums over a list of divisors, in unbounded integers. -/
def wideSums (divisors : List Int64) (n : Int64) : WideSums :=
  (divisors.map Int64.toInt).foldl (WideSums.add n.toInt) (WideSums.start n.toInt)

/-! ## The words of the sums -/

theorem Fits.toInt_ofInt {z : Int} (h : Fits z) : (Int64.ofInt z).toInt = z :=
  Int64.toInt_ofInt_of_le h.1 h.2

theorem WideSums.Fits.wide_words {s : WideSums} (h : s.Fits) : s.words.wide = s := by
  simp only [words, Sums.wide, h.quotients.toInt_ofInt, h.remainders.toInt_ofInt,
    h.mirroredQuotients.toInt_ofInt, h.mirroredRemainders.toInt_ofInt]

variable {divisors : List Int64} {n : Int64}

theorem words_start (n : Int64) : (WideSums.start n.toInt).words = Sums.start n := by
  simp only [WideSums.start, WideSums.words, Sums.start, div_eq_ofInt, mod_eq_ofInt]
  rfl

theorem words_add (n : Int64) (s : WideSums) {p : Int64} (h : 0 < p) :
    (s.add n.toInt p.toInt).words = s.words.add n p := by
  have hNeg := toInt_neg_of_ne (ne_minValue_of_pos h)
  simp only [WideSums.add, WideSums.words, Sums.add, div_eq_ofInt, mod_eq_ofInt, Int64.ofInt_add,
    hNeg]

/-- Each word is the one in the place of the unbounded sum, whether it fits or not. -/
theorem sums_eq_words (hd : ∀ p ∈ divisors, 0 < p) (n : Int64) :
    sums divisors n = (wideSums divisors n).words := by
  rw [sums, wideSums, ← words_start]
  generalize WideSums.start n.toInt = s
  induction divisors generalizing s with
  | nil => rfl
  | cons p ps ih =>
    rw [List.map_cons, List.foldl_cons, List.foldl_cons, ← words_add n s (hd p List.mem_cons_self)]
    exact ih (fun q hq => hd q (List.mem_cons_of_mem p hq)) _

theorem wideSums_eq (h : n ≠ Int64.minValue) (divisors : List Int64) :
    wideSums divisors n = ⟨exactQuotients divisors n, exactRemainders divisors n,
      -exactQuotients divisors n, n.toInt + exactRemainders divisors n⟩ := by
  have hStart : WideSums.start n.toInt = ⟨0, 0, -0, n.toInt + 0⟩ := by
    have hDiv : n.toInt.tdiv (-2 ^ 63) = 0 := tdiv_minValue h
    rw [WideSums.start, Int.tmod_def, hDiv]
    simp
  have hFold (ps : List Int64) (a b : Int) :
      (ps.map Int64.toInt).foldl (WideSums.add n.toInt) ⟨a, b, -a, n.toInt + b⟩ =
        ⟨a + exactQuotients ps n, b + exactRemainders ps n, -(a + exactQuotients ps n),
          n.toInt + (b + exactRemainders ps n)⟩ := by
    induction ps generalizing a b with
    | nil => simp [exactQuotients, exactRemainders]
    | cons p ps ih =>
      have hAdd : WideSums.add n.toInt ⟨a, b, -a, n.toInt + b⟩ p.toInt =
          ⟨a + n.toInt.tdiv p.toInt, b + n.toInt.tmod p.toInt, -(a + n.toInt.tdiv p.toInt),
            n.toInt + (b + n.toInt.tmod p.toInt)⟩ := by
        simp only [WideSums.add, Int.tdiv_neg, Int.tmod_neg, WideSums.mk.injEq, true_and]
        omega
      rw [List.map_cons, List.foldl_cons, hAdd, ih]
      simp only [exactQuotients, exactRemainders, List.map_cons, List.sum_cons, Int.add_assoc]
  rw [wideSums, hStart, hFold]
  simp only [Int.zero_add]

theorem mirrored_wideSums (h : n ≠ Int64.minValue) : (wideSums divisors n).mirrored =
    exactRemainders divisors n - exactQuotients divisors n + n.toInt := by
  rw [wideSums_eq h, WideSums.mirrored]
  dsimp only
  omega

/-! ## Evaluation without a wrap -/

/-- No integer that the evaluation goes through leaves the range of words. -/
structure Unwrapped (divisors : List Int64) (n : Int64) : Prop where
  /-- The sums after any number of divisors. -/
  running (k : ℕ) : (wideSums (divisors.take k) n).Fits
  mirrored : Fits (wideSums divisors n).mirrored
  weighed : Fits (3 * (wideSums divisors n).mirrored)
  direct : Fits ((wideSums divisors n).quotients + (wideSums divisors n).remainders)
  total : Fits (wideSums divisors n).total

namespace Unwrapped

/-- Then the words after any number of divisors hold the unbounded sums. -/
theorem wide_sums (h : Unwrapped divisors n) (hd : ∀ p ∈ divisors, 0 < p) (k : ℕ) :
    (sums (divisors.take k) n).wide = wideSums (divisors.take k) n := by
  rw [sums_eq_words fun p hp => hd p (List.mem_of_mem_take hp), (h.running k).wide_words]

/-- And the value is the exact one. -/
theorem toInt_weighted (h : Unwrapped divisors n) (hd : ∀ p ∈ divisors, 0 < p) :
    (weighted divisors n).toInt = (wideSums divisors n).total := by
  have hWeighed : (sums divisors n).mirrored * 3 = .ofInt (3 * (wideSums divisors n).mirrored) := by
    rw [sums_eq_words hd, Int.mul_comm, Int64.ofInt_mul, WideSums.mirrored, Int64.ofInt_add]
    rfl
  have hSeventh : (sums divisors n).mirrored * 3 / 7 =
      .ofInt ((3 * (wideSums divisors n).mirrored).tdiv 7) := by
    rw [hWeighed, div_eq_ofInt, h.weighed.toInt_ofInt]
    rfl
  have hTotal : weighted divisors n = .ofInt (wideSums divisors n).total := by
    rw [weighted, Sums.total_eq, hSeventh, WideSums.total, Int64.ofInt_add, Int64.ofInt_add,
      sums_eq_words hd]
    rfl
  rw [hTotal, h.total.toInt_ofInt]

end Unwrapped

/-! ## Bounds -/

theorem Fits.of_abs_le {z b : Int} (h : |z| ≤ b) (hb : b < 2 ^ 63) : Fits z := by
  rw [abs_le] at h
  constructor <;> omega

theorem abs_tdiv_seven_le {z b : Int} (h : |z| ≤ b) : |z.tdiv 7| ≤ b / 7 := by
  have hSize : (z.tdiv 7).natAbs = z.natAbs / 7 := Int.natAbs_tdiv z 7
  rw [abs_le] at h ⊢
  omega

/-- Bounds on the sizes of the exact sums. -/
structure Bounded (divisors : List Int64) (n : Int64) (q r c : Int) : Prop where
  quotients (k : ℕ) : |exactQuotients (divisors.take k) n| ≤ q
  remainders (k : ℕ) : |exactRemainders (divisors.take k) n| ≤ r
  mirrored : |exactRemainders divisors n - exactQuotients divisors n + n.toInt| ≤ c

namespace Bounded

variable {q r c : Int}

theorem neg (h : Bounded divisors n q r c) (hn : n ≠ Int64.minValue) :
    Bounded divisors (-n) q r c where
  quotients k := by
    rw [exactQuotients_neg _ hn, abs_neg]
    exact h.quotients k
  remainders k := by
    rw [exactRemainders_neg _ hn, abs_neg]
    exact h.remainders k
  mirrored := by
    rw [exactQuotients_neg _ hn, exactRemainders_neg _ hn, toInt_neg_of_ne hn, ← abs_neg]
    have hc := h.mirrored
    convert hc using 2
    omega

/-- No step wraps when the bounds leave room for what is added to the sums. -/
theorem unwrapped (h : Bounded divisors n q r c) (hn : n ≠ Int64.minValue)
    (hRunning : |n.toInt| + r < 2 ^ 63) (hWeighed : 3 * c < 2 ^ 63)
    (hTotal : q + r + 3 * c / 7 < 2 ^ 63) : Unwrapped divisors n := by
  have hMirrored : |(wideSums divisors n).mirrored| ≤ c := by
    rw [mirrored_wideSums hn]
    exact h.mirrored
  have hDirect : |(wideSums divisors n).quotients + (wideSums divisors n).remainders| ≤ q + r := by
    have hq := h.quotients divisors.length
    have hr := h.remainders divisors.length
    rw [List.take_length] at hq hr
    rw [wideSums_eq hn]
    exact (abs_add_le _ _).trans (add_le_add hq hr)
  have hThree : |3 * (wideSums divisors n).mirrored| ≤ 3 * c := by
    rw [abs_le] at hMirrored ⊢
    omega
  have hNonneg := (abs_nonneg _).trans hThree
  refine ⟨fun k => ?_, .of_abs_le hMirrored (by omega), .of_abs_le hThree hWeighed,
    .of_abs_le hDirect (by omega),
    .of_abs_le ((abs_add_le _ _).trans (add_le_add hDirect (abs_tdiv_seven_le hThree))) hTotal⟩
  have hq := h.quotients k
  have hr := h.remainders k
  have hqNonneg := (abs_nonneg _).trans hq
  have hrNonneg := (abs_nonneg _).trans hr
  rw [wideSums_eq hn]
  exact ⟨.of_abs_le hq (by omega), .of_abs_le hr (by omega),
    .of_abs_le ((abs_neg _).trans_le hq) (by omega),
    .of_abs_le ((abs_add_le _ _).trans (add_le_add_right hr _)) hRunning⟩

end Bounded

/-! ## Numbers that are not negative -/

/-- A sum whose terms are not negative only grows. -/
theorem sum_map_take_le {f : Int64 → Int} (hf : ∀ p ∈ divisors, 0 ≤ f p) (k : ℕ) :
    0 ≤ ((divisors.take k).map f).sum ∧ ((divisors.take k).map f).sum ≤ (divisors.map f).sum := by
  have hTerms : ∀ z ∈ divisors.map f, 0 ≤ z := List.forall_mem_map.mpr hf
  rw [List.map_take]
  constructor
  · exact List.sum_nonneg fun z hz => hTerms z (List.mem_of_mem_take hz)
  · exact (List.take_sublist k _).sum_le_sum hTerms

theorem exactQuotients_take_le (h0 : 0 ≤ n.toInt) (hd : ∀ p ∈ divisors, 0 < p) (k : ℕ) :
    0 ≤ exactQuotients (divisors.take k) n ∧
      exactQuotients (divisors.take k) n ≤ exactQuotients divisors n :=
  sum_map_take_le (fun p hp => Int.tdiv_nonneg h0 (Int64.lt_iff_toInt_lt.mp (hd p hp)).le) k

theorem exactRemainders_take_le (divisors : List Int64) (h0 : 0 ≤ n.toInt) (k : ℕ) :
    0 ≤ exactRemainders (divisors.take k) n ∧
      exactRemainders (divisors.take k) n ≤ exactRemainders divisors n :=
  sum_map_take_le (fun p _ => Int.tmod_nonneg p.toInt h0) k

/-- Bounds on the full sums are enough. -/
theorem bounded_of_nonneg {q r c : Int} (h0 : 0 ≤ n.toInt) (hd : ∀ p ∈ divisors, 0 < p)
    (hq : exactQuotients divisors n ≤ q) (hr : exactRemainders divisors n ≤ r)
    (hAbove : n.toInt + r ≤ c) (hBelow : exactQuotients divisors n - n.toInt ≤ c) :
    Bounded divisors n q r c where
  quotients k := by
    have hk := exactQuotients_take_le h0 hd k
    rw [abs_of_nonneg hk.1]
    omega
  remainders k := by
    have hk := exactRemainders_take_le divisors h0 k
    rw [abs_of_nonneg hk.1]
    omega
  mirrored := by
    have hQuotients := exactQuotients_take_le h0 hd 0
    have hRemainders := exactRemainders_take_le divisors h0 0
    rw [abs_le]
    omega

/-- What holds for numbers that are not negative up to a bound holds for their opposites. -/
theorem unwrapped_of_bounded {b q r c : Int}
    (hBounded : ∀ m : Int64, 0 ≤ m.toInt → m.toInt ≤ b → Bounded divisors m q r c)
    (hRunning : b + r < 2 ^ 63) (hWeighed : 3 * c < 2 ^ 63) (hTotal : q + r + 3 * c / 7 < 2 ^ 63)
    (hb : b < 2 ^ 63) (h : |n.toInt| ≤ b) : Unwrapped divisors n := by
  have hn : n ≠ Int64.minValue := by
    rintro rfl
    exact absurd (h.trans_lt hb) (by decide)
  have hBoth : Bounded divisors n q r c := by
    rw [abs_le] at h
    by_cases h0 : 0 ≤ n.toInt
    · exact hBounded n h0 h.2
    · have hOpposite : Bounded divisors (-n) q r c := by
        apply hBounded
        · rw [toInt_neg_of_ne hn]
          omega
        · rw [toInt_neg_of_ne hn]
          omega
      have hBack := hOpposite.neg (neg_ne_minValue hn)
      rwa [Int64.neg_neg] at hBack
  exact hBoth.unwrapped hn (by omega) hWeighed hTotal

/-! ## Sums over all divisors -/

theorem exactQuotients_of_nonneg (h0 : 0 ≤ n.toInt) (divisors : List Int64) :
    exactQuotients divisors n = ((divisors.map Int64.toInt).map fun p => n.toInt / p).sum := by
  simp only [exactQuotients, List.map_map, Function.comp_def, Int.tdiv_eq_ediv_of_nonneg h0]

theorem exactRemainders_le_sum (hd : ∀ p ∈ divisors, 0 < p) (n : Int64) :
    exactRemainders divisors n ≤ (divisors.map Int64.toInt).sum :=
  List.sum_le_sum fun p hp => (Int.tmod_lt_of_pos n.toInt (Int64.lt_iff_toInt_lt.mp (hd p hp))).le

theorem exactRemainders_concat (ps : List Int64) (p n : Int64) :
    exactRemainders (ps ++ [p]) n = exactRemainders ps n + n.toInt.tmod p.toInt := by
  simp [exactRemainders]

theorem tmod_le {m p : Int} (h0 : 0 ≤ m) (hp : 0 < p) : m.tmod p ≤ m := by
  have hQuotient := Int.mul_nonneg hp.le (Int.tdiv_nonneg h0 hp.le)
  rw [Int.tmod_def]
  omega

/-! ## The two operations -/

theorem exactQuotients_primary_le (h0 : 0 ≤ n.toInt) :
    exactQuotients primaryDivisors n ≤ 2 * n.toInt := by
  have hDivisors : primaryDivisors.map Int64.toInt = [1, 2, 4, 8, 1024, 131072, 1048576] := by
    decide
  rw [exactQuotients_of_nonneg h0, hDivisors]
  simp only [List.map_cons, List.map_nil, List.sum_cons, List.sum_nil, Int.ediv_one]
  have h2 := (isQuotient_ediv n.toInt (show 0 < 2 by decide)).mul_le
  have h4 := (isQuotient_ediv n.toInt (show 0 < 4 by decide)).mul_le
  have h8 := (isQuotient_ediv n.toInt (show 0 < 8 by decide)).mul_le
  have h1024 := (isQuotient_ediv n.toInt (show 0 < 1024 by decide)).mul_le
  have h131072 := (isQuotient_ediv n.toInt (show 0 < 131072 by decide)).mul_le
  have h1048576 := (isQuotient_ediv n.toInt (show 0 < 1048576 by decide)).mul_le
  linarith

theorem exactRemainders_primary_le (n : Int64) : exactRemainders primaryDivisors n ≤ 2 ^ 21 :=
  (exactRemainders_le_sum (pos_of_allPositive (by decide)) n).trans (by decide)

theorem exactQuotients_extended_le (h0 : 0 ≤ n.toInt) :
    exactQuotients extendedDivisors n ≤ n.toInt := by
  have hDivisors : extendedDivisors.map Int64.toInt =
      [3, 7, 10, 1000, 65537, 1000000007, 4294967311, 9223372036854775807] := by decide
  rw [exactQuotients_of_nonneg h0, hDivisors]
  simp only [List.map_cons, List.map_nil, List.sum_cons, List.sum_nil]
  have h3 := (isQuotient_ediv n.toInt (show 0 < 3 by decide)).mul_le
  have h7 := (isQuotient_ediv n.toInt (show 0 < 7 by decide)).mul_le
  have h10 := (isQuotient_ediv n.toInt (show 0 < 10 by decide)).mul_le
  have h1000 := (isQuotient_ediv n.toInt (show 0 < 1000 by decide)).mul_le
  have h65537 := (isQuotient_ediv n.toInt (show 0 < 65537 by decide)).mul_le
  have hNear := (isQuotient_ediv n.toInt (show 0 < 1000000007 by decide)).mul_le
  have hFar := (isQuotient_ediv n.toInt (show 0 < 4294967311 by decide)).mul_le
  have hTop := (isQuotient_ediv n.toInt (show 0 < 9223372036854775807 by decide)).mul_le
  linarith

/-- The greatest word leaves the number over, the other divisors less than themselves. -/
theorem exactRemainders_extended_le (h0 : 0 ≤ n.toInt) :
    exactRemainders extendedDivisors n ≤ n.toInt + 2 ^ 33 := by
  have hOthers : exactRemainders extendedDivisors.dropLast n ≤ 2 ^ 33 :=
    (exactRemainders_le_sum (pos_of_allPositive (by decide)) n).trans (by decide)
  have hTop := tmod_le h0 (show 0 < Int64.maxValue.toInt by decide)
  calc exactRemainders extendedDivisors n
      = exactRemainders (extendedDivisors.dropLast ++ [Int64.maxValue]) n := rfl
    _ = n.toInt.tmod Int64.maxValue.toInt + exactRemainders extendedDivisors.dropLast n := by
        rw [exactRemainders_concat, Int.add_comm]
    _ ≤ n.toInt + 2 ^ 33 := Int.add_le_add hTop hOthers

theorem unwrapped_primary (h : |n.toInt| ≤ 2 ^ 61) : Unwrapped primaryDivisors n := by
  refine unwrapped_of_bounded (q := 2 ^ 62) (r := 2 ^ 21) (c := 2 ^ 61 + 2 ^ 21) ?_ (by decide)
    (by decide) (by decide) (by decide) h
  intro m h0 hm
  have hQuotients := exactQuotients_primary_le h0
  exact bounded_of_nonneg h0 (pos_of_allPositive (by decide)) (by omega)
    (exactRemainders_primary_le m) (by omega) (by omega)

theorem unwrapped_extended (h : |n.toInt| ≤ 2 ^ 60) : Unwrapped extendedDivisors n := by
  refine unwrapped_of_bounded (q := 2 ^ 60) (r := 2 ^ 60 + 2 ^ 33) (c := 2 ^ 61 + 2 ^ 33) ?_
    (by decide) (by decide) (by decide) (by decide) h
  intro m h0 hm
  have hQuotients := exactQuotients_extended_le h0
  have hRemainders := exactRemainders_extended_le h0
  exact bounded_of_nonneg h0 (pos_of_allPositive (by decide)) (by omega) (by omega) (by omega)
    (by omega)

/-- Up to `2 ^ 61` in size no step of the primary expression wraps, and up to `2 ^ 60` none of the
extended one: each running word is the unbounded sum, and the value is the exact one. -/
theorem exact_of_small (n : Int64) :
    (|n.toInt| ≤ 2 ^ 61 → Unwrapped primaryDivisors n ∧
      (∀ k, (sums (primaryDivisors.take k) n).wide = wideSums (primaryDivisors.take k) n) ∧
      (primary n).toInt = (wideSums primaryDivisors n).total) ∧
    (|n.toInt| ≤ 2 ^ 60 → Unwrapped extendedDivisors n ∧
      (∀ k, (sums (extendedDivisors.take k) n).wide = wideSums (extendedDivisors.take k) n) ∧
      (extended n).toInt = (wideSums extendedDivisors n).total) := by
  constructor
  · intro h
    have hPositive : ∀ p ∈ primaryDivisors, 0 < p := pos_of_allPositive (by decide)
    have hUnwrapped := unwrapped_primary h
    exact ⟨hUnwrapped, hUnwrapped.wide_sums hPositive, hUnwrapped.toInt_weighted hPositive⟩
  · intro h
    have hPositive : ∀ p ∈ extendedDivisors, 0 < p := pos_of_allPositive (by decide)
    have hUnwrapped := unwrapped_extended h
    exact ⟨hUnwrapped, hUnwrapped.wide_sums hPositive, hUnwrapped.toInt_weighted hPositive⟩

/-- The bounds themselves, on either side of zero. -/
theorem exact_of_small_bounds :
    |(2305843009213693952 : Int64).toInt| ≤ 2 ^ 61 ∧
      Unwrapped primaryDivisors 2305843009213693952 ∧
      (primary 2305843009213693952).toInt = 3460062565833675338 ∧
    |(-1152921504606846976 : Int64).toInt| ≤ 2 ^ 60 ∧
      Unwrapped extendedDivisors (-1152921504606846976) ∧
      (extended (-1152921504606846976)).toInt = -2521410170044414269 := by
  have hPrimary := (exact_of_small 2305843009213693952).1 (by decide)
  have hExtended := (exact_of_small (-1152921504606846976)).2 (by decide)
  exact ⟨by decide, hPrimary.1, hPrimary.2.2.trans (by decide),
    by decide, hExtended.1, hExtended.2.2.trans (by decide)⟩

end DivisionAudit.Expression
