import DivisionAudit.Expression.Weighted
import Mathlib.Algebra.Ring.Int.Defs
import Mathlib.Algebra.Ring.Nat

/-!
# The expression over exact sums

For positive divisors the four wrapping sums of the expression hold nothing but two exact integers:
the sum `a` of the truncating quotients and the sum `b` of the remainders. A negated divisor negates
the quotient and keeps the remainder, also for the pair of the least word and `-1`, whose quotient
wraps. So the mirrored sums together are `b - a + e`, where `e` is what the least word adds as a
divisor.

* `Sums.add_ofExact`: one divisor keeps the four sums in this shape.
* `sums_eq_ofExact`: so does a list of divisors.
* `Sums.toInt_total_ofExact`: the value from `a`, `b` and `e`, with two wraps: the last one, and
  the one before the division by seven.
* `evaluate_eq_wrap_exact`: the expression has a value without ever dividing by zero, and the value
  is that one.
-/

namespace DivisionAudit.Expression

/-! ## Exact sums -/

/-- The integer that a word holds in the place of another one: congruent modulo `2 ^ 64`, from
`-2 ^ 63` up to `2 ^ 63 - 1`. -/
def wrap (z : Int) : Int := z.bmod (2 ^ 64)

def exactQuotients (divisors : List Int64) (n : Int64) : Int :=
  (divisors.map fun p => n.toInt.tdiv p.toInt).sum

def exactRemainders (divisors : List Int64) (n : Int64) : Int :=
  (divisors.map fun p => n.toInt.tmod p.toInt).sum

/-- What the least word adds to the mirrored sums as a divisor. -/
def leastTerms (n : Int64) : Int := if n = Int64.minValue then 1 else n.toInt

/-! ## Words and signs -/

theorem lt_toInt_of_ne {n : Int64} (h : n ≠ Int64.minValue) : -2 ^ 63 < n.toInt := by
  have hl := n.le_toInt
  have hne : n.toInt ≠ -2 ^ 63 := fun e =>
    h (Int64.toInt_inj.mp (e.trans Int64.toInt_minValue.symm))
  omega

theorem toInt_neg_of_ne {n : Int64} (h : n ≠ Int64.minValue) : (-n).toInt = -n.toInt := by
  have hl := lt_toInt_of_ne h
  have hu := n.toInt_lt
  rw [Int64.toInt_neg, Int.bmod_eq_of_le (by omega) (by omega)]

theorem ne_minValue_of_pos {p : Int64} (h : 0 < p) : p ≠ Int64.minValue := by
  rintro rfl
  exact absurd h (by decide)

theorem ne_zero_of_pos {p : Int64} (h : 0 < p) : p ≠ 0 := by
  rintro rfl
  exact absurd h (by decide)

theorem pos_of_allPositive {divisors : List Int64} (h : allPositive divisors = true) :
    ∀ p ∈ divisors, 0 < p := by
  simpa [allPositive] using h

theorem div_eq_ofInt (n p : Int64) : n / p = Int64.ofInt (n.toInt.tdiv p.toInt) := by
  rw [eq_comm, Int64.ofInt_eq_iff_bmod_eq_toInt, Int64.toInt_div]

theorem mod_eq_ofInt (n p : Int64) : n % p = Int64.ofInt (n.toInt.tmod p.toInt) := by
  rw [← Int64.toInt_mod, Int64.ofInt_toInt]

/-- No exception for the least word and `-1`: its quotient is its own negation. -/
theorem div_neg_of_pos (n : Int64) {p : Int64} (h : 0 < p) : n / -p = -(n / p) := by
  rw [div_eq_ofInt, div_eq_ofInt, toInt_neg_of_ne (ne_minValue_of_pos h), Int.tdiv_neg,
    Int64.ofInt_neg]

theorem mod_neg_of_pos (n : Int64) {p : Int64} (h : 0 < p) : n % -p = n % p := by
  rw [mod_eq_ofInt, mod_eq_ofInt, toInt_neg_of_ne (ne_minValue_of_pos h), Int.tmod_neg]

/-- Away from the least word itself, division by the least word leaves everything over. -/
theorem tdiv_minValue {n : Int64} (h : n ≠ Int64.minValue) :
    n.toInt.tdiv Int64.minValue.toInt = 0 := by
  have hl := lt_toInt_of_ne h
  have hu := n.toInt_lt
  have hlt : n.toInt.natAbs < Int64.minValue.toInt.natAbs := by
    rw [Int64.toInt_minValue]
    omega
  rw [← Int.natAbs_eq_zero, Int.natAbs_tdiv]
  exact Nat.div_eq_of_lt hlt

theorem div_add_mod_minValue (n : Int64) :
    n / Int64.minValue + n % Int64.minValue = Int64.ofInt (leastTerms n) := by
  unfold leastTerms
  split
  · next h => subst h; decide
  · next h =>
    rw [div_eq_ofInt, mod_eq_ofInt, Int.tmod_def, tdiv_minValue h, Int.mul_zero, Int.sub_zero,
      ← Int64.ofInt_add, Int.zero_add]

theorem toInt_div_seven (w : Int64) : (w / 7).toInt = w.toInt.tdiv 7 :=
  Int64.toInt_div_of_ne_right w 7 (by decide)

/-! ## The running sums -/

/-- The four sums of a word that stand for the exact sums `a` and `b`. -/
def Sums.ofExact (n : Int64) (a b : Int) : Sums where
  quotients := .ofInt a
  remainders := .ofInt b
  mirroredQuotients := n / Int64.minValue - .ofInt a
  mirroredRemainders := n % Int64.minValue + .ofInt b

theorem Sums.start_eq_ofExact (n : Int64) : Sums.start n = Sums.ofExact n 0 0 := by
  simp [Sums.start, Sums.ofExact]

/-- One divisor keeps the shape: its negation brings nothing that the divisor does not. -/
theorem Sums.add_ofExact (n : Int64) (a b : Int) {p : Int64} (h : 0 < p) :
    (Sums.ofExact n a b).add n p =
      Sums.ofExact n (a + n.toInt.tdiv p.toInt) (b + n.toInt.tmod p.toInt) := by
  have hq := div_eq_ofInt n p
  have hr := mod_eq_ofInt n p
  simp only [Sums.add, Sums.ofExact, div_neg_of_pos n h, mod_neg_of_pos n h, Int64.ofInt_add, ← hq,
    ← hr, Sums.mk.injEq, true_and]
  constructor <;> grind

theorem foldl_add_ofExact (n : Int64) {divisors : List Int64} (h : ∀ p ∈ divisors, 0 < p)
    (a b : Int) :
    divisors.foldl (Sums.add n) (Sums.ofExact n a b) =
      Sums.ofExact n (a + exactQuotients divisors n) (b + exactRemainders divisors n) := by
  induction divisors generalizing a b with
  | nil => simp [exactQuotients, exactRemainders]
  | cons p ps ih =>
    have hp := h p List.mem_cons_self
    rw [List.foldl_cons, Sums.add_ofExact n a b hp,
      ih (fun q hq => h q (List.mem_cons_of_mem p hq))]
    simp only [exactQuotients, exactRemainders, List.map_cons, List.sum_cons, Int.add_assoc]

theorem sums_eq_ofExact (n : Int64) {divisors : List Int64} (h : ∀ p ∈ divisors, 0 < p) :
    sums divisors n = Sums.ofExact n (exactQuotients divisors n) (exactRemainders divisors n) := by
  rw [sums, Sums.start_eq_ofExact, foldl_add_ofExact n h, Int.zero_add, Int.zero_add]

/-! ## The value -/

/-- The mirrored sums together, before they are weighed. -/
def Sums.mirrored (s : Sums) : Int64 := s.mirroredQuotients + s.mirroredRemainders

theorem Sums.mirrored_ofExact (n : Int64) (a b : Int) :
    (Sums.ofExact n a b).mirrored = Int64.ofInt (b - a + leastTerms n) := by
  rw [Int64.ofInt_add, ← div_add_mod_minValue, Int64.ofInt_sub]
  simp only [Sums.mirrored, Sums.ofExact]
  grind

theorem Sums.total_eq (s : Sums) : s.total = s.quotients + s.remainders + s.mirrored * 3 / 7 := rfl

theorem Sums.toInt_total_ofExact (n : Int64) (a b : Int) :
    (Sums.ofExact n a b).total.toInt =
      wrap (a + b + (wrap (3 * (b - a + leastTerms n))).tdiv 7) := by
  have hm : (Int64.ofInt (b - a + leastTerms n) * 3).toInt = wrap (3 * (b - a + leastTerms n)) := by
    rw [Int64.toInt_mul, Int64.toInt_ofInt, wrap, Int.mul_comm 3]
    exact Int.bmod_mul_bmod
  rw [Sums.total_eq, Sums.mirrored_ofExact, Int64.toInt_add, toInt_div_seven, hm, Int64.toInt_add]
  simp only [Sums.ofExact, Int64.toInt_ofInt, wrap, Int64.size]
  simp

/-! ## Strict evaluation

A word divided by zero is zero; the divisions below have no value there. -/

def div? (n p : Int64) : Option Int64 := if p = 0 then none else some (n / p)

def mod? (n p : Int64) : Option Int64 := if p = 0 then none else some (n % p)

def Sums.start? (n : Int64) : Option Sums := do
  return ⟨0, 0, ← div? n Int64.minValue, ← mod? n Int64.minValue⟩

def Sums.add? (n : Int64) (s : Sums) (p : Int64) : Option Sums := do
  return ⟨s.quotients + (← div? n p), s.remainders + (← mod? n p),
    s.mirroredQuotients + (← div? n (-p)), s.mirroredRemainders + (← mod? n (-p))⟩

def Sums.total? (s : Sums) : Option Int64 := do
  return s.quotients + s.remainders + (← div? (s.mirrored * 3) 7)

/-- The expression with every division checked: none where it would divide by zero. -/
def weighted? (divisors : List Int64) (n : Int64) : Option Int64 := do
  let s ← divisors.foldlM (Sums.add? n) (← Sums.start? n)
  s.total?

theorem div?_of_ne {p : Int64} (n : Int64) (h : p ≠ 0) : div? n p = some (n / p) := if_neg h

theorem mod?_of_ne {p : Int64} (n : Int64) (h : p ≠ 0) : mod? n p = some (n % p) := if_neg h

theorem Sums.add?_of_pos (n : Int64) (s : Sums) {p : Int64} (h : 0 < p) :
    s.add? n p = some (s.add n p) := by
  have hp := ne_zero_of_pos h
  have hn : -p ≠ 0 := Int64.neg_ne_zero.mpr hp
  simp [Sums.add?, Sums.add, div?_of_ne n hp, mod?_of_ne n hp, div?_of_ne n hn, mod?_of_ne n hn]

theorem foldlM_add? (n : Int64) {divisors : List Int64} (h : ∀ p ∈ divisors, 0 < p) (s : Sums) :
    divisors.foldlM (Sums.add? n) s = some (divisors.foldl (Sums.add n) s) := by
  induction divisors generalizing s with
  | nil => rfl
  | cons p ps ih =>
    rw [List.foldlM_cons, Sums.add?_of_pos n s (h p List.mem_cons_self)]
    exact ih (fun q hq => h q (List.mem_cons_of_mem p hq)) _

theorem weighted?_eq_some (n : Int64) {divisors : List Int64} (h : ∀ p ∈ divisors, 0 < p) :
    weighted? divisors n = some (weighted divisors n) := by
  have hstart : Sums.start? n = some (Sums.start n) := by
    have hm : Int64.minValue ≠ 0 := by decide
    simp [Sums.start?, Sums.start, div?_of_ne n hm, mod?_of_ne n hm]
  have htotal (s : Sums) : s.total? = some s.total := by
    simp [Sums.total?, Sums.total_eq, div?_of_ne _ (show (7 : Int64) ≠ 0 by decide)]
  simp [weighted?, weighted, sums, hstart, htotal, foldlM_add? n h]

/-! ## The expression -/

/-- Over positive divisors the expression has a value, reached without a division by zero, that
depends on the exact sums alone. Of all wraps but the last only the one before the division by seven
shows: without it some value would be another. -/
theorem evaluate_eq_wrap_exact (divisors : List Int64) (h : ∀ p ∈ divisors, 0 < p) (n : Int64) :
    (∃ v, weighted? divisors n = some v ∧ evaluate divisors n = .ok v ∧
      v.toInt = wrap (exactQuotients divisors n + exactRemainders divisors n +
        (wrap (3 * (exactRemainders divisors n - exactQuotients divisors n + leastTerms n))).tdiv
          7)) ∧
    ∃ others m v, (∀ p ∈ others, 0 < p) ∧ evaluate others m = .ok v ∧
      v.toInt ≠ wrap (exactQuotients others m + exactRemainders others m +
        (3 * (exactRemainders others m - exactQuotients others m + leastTerms m)).tdiv 7) := by
  refine ⟨⟨weighted divisors n, weighted?_eq_some n h, evaluate_eq_ok_iff.mpr ⟨h, rfl⟩, ?_⟩, ?_⟩
  · rw [weighted, sums_eq_ofExact n h, Sums.toInt_total_ofExact]
  · exact ⟨extendedDivisors, Int64.maxValue, extended Int64.maxValue,
      pos_of_allPositive (by decide), rfl, by decide⟩

/-- The least word, with one among the divisors. -/
theorem evaluate_eq_wrap_exact_primary_minValue :
    (∀ p ∈ primaryDivisors, 0 < p) ∧
    ∃ v, weighted? primaryDivisors Int64.minValue = some v ∧
      evaluate primaryDivisors Int64.minValue = .ok v ∧ v.toInt = 653620080294232065 := by
  have h : ∀ p ∈ primaryDivisors, 0 < p := pos_of_allPositive (by decide)
  obtain ⟨v, hs, he, hv⟩ := (evaluate_eq_wrap_exact primaryDivisors h Int64.minValue).1
  exact ⟨h, v, hs, he, hv.trans (by decide)⟩

end DivisionAudit.Expression
