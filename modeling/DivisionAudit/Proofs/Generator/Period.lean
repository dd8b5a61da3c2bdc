import DivisionAudit.Proofs.Generator.Words
import Mathlib.Data.Nat.ModEq
import Mathlib.NumberTheory.Multiplicity

/-!
# The period of the permuted generator

The state moves by an affine step, so after `k` words it has moved away from the first state by a
multiple of what the first word moves it: by the geometric sum `1 + a + ... + a ^ (k - 1)` of the
multiplier `a`. The increment is odd and `a - 1` is even, so the first move is odd and does not
matter modulo a power of two; and as `4` divides `a - 1`, the sum is divisible by the same powers of
two as `k` is. The state is therefore back exactly after the multiples of `2 ^ 64`.

* `two_pow_dvd_geomSum_iff`: the powers of two that divide a geometric sum.
* `toNat_state_after32`: the state after a number of words.
* `state_after32_eq_iff`: when two states of one run are equal.
* `existsUnique_state`: every state occurs once among any `2 ^ 64` in a row.
* `state_after32_ofSeed`: all of this for the generators of seeds and streams.
-/

namespace DivisionAudit.Permuted

open Finset

/-! ## Geometric sums -/

/-- Lifting the exponent: dividing `a ^ k - 1` by `a - 1` leaves the powers of two that `k` has. -/
theorem two_pow_dvd_geomSum_iff {a : ℕ} (h4 : a % 4 = 1) (h1 : a ≠ 1) (m k : ℕ) :
    2 ^ m ∣ ∑ i ∈ range k, a ^ i ↔ 2 ^ m ∣ k := by
  have hFinite : FiniteMultiplicity 2 ((a : ℤ) - 1) :=
    Int.finiteMultiplicity_iff.mpr ⟨by decide, by omega⟩
  have hLift := Int.two_pow_sub_pow' (x := a) (y := 1) k (by omega) (by omega)
  rw [one_pow, ← geom_sum_mul, emultiplicity_mul Int.prime_two,
    add_comm (emultiplicity 2 ((a : ℤ) - 1))] at hLift
  have hSum : emultiplicity 2 (∑ i ∈ range k, (a : ℤ) ^ i) = emultiplicity 2 (k : ℤ) :=
    ENat.add_left_injective_of_ne_top (finiteMultiplicity_iff_emultiplicity_ne_top.mp hFinite) hLift
  have hDvd : (2 : ℤ) ^ m ∣ ∑ i ∈ range k, (a : ℤ) ^ i ↔ (2 : ℤ) ^ m ∣ k := by
    rw [pow_dvd_iff_le_emultiplicity, hSum, ← pow_dvd_iff_le_emultiplicity]
  exact_mod_cast hDvd

/-! ## Steps -/

theorem increment_mk (state increment : UInt64) : (mk state increment).increment = increment := rfl

theorem increment_step (g : Permuted) : g.step.increment = g.increment := increment_mk _ _

theorem snd_next32 (g : Permuted) : (Generator.next32 g).2 = g.step := rfl

theorem toNat_state_step (g : Permuted) : g.step.state.toNat =
    (g.state.toNat * multiplier.toNat + g.increment.toNat) % 2 ^ 64 := by
  simp only [step, UInt64.toNat_add, UInt64.toNat_mul, Nat.mod_add_mod]

theorem increment_after32 (g : Permuted) (k : ℕ) : (after32 g k).increment = g.increment := by
  induction k with
  | zero => rfl
  | succ k ih => rw [after32_succ, snd_next32, increment_step, ih]

/-- What the first step adds to the state. -/
def move (g : Permuted) : ℕ := (multiplier.toNat - 1) * g.state.toNat + g.increment.toNat

theorem add_move (g : Permuted) :
    g.state.toNat + g.move = g.state.toNat * multiplier.toNat + g.increment.toNat := by
  have hPos : 0 < multiplier.toNat := by decide
  rw [move, ← Nat.add_assoc, Nat.sub_one_mul,
    Nat.add_sub_cancel' (Nat.le_mul_of_pos_left _ hPos), Nat.mul_comm]

theorem toNat_state_after32 (g : Permuted) (k : ℕ) : (after32 g k).state.toNat ≡
    g.state.toNat + g.move * ∑ i ∈ range k, multiplier.toNat ^ i [MOD 2 ^ 64] := by
  induction k with
  | zero => exact Nat.ModEq.refl _
  | succ k ih =>
    rw [after32_succ, snd_next32, toNat_state_step, increment_after32, geom_sum_succ]
    calc (_ : ℕ) ≡ (after32 g k).state.toNat * multiplier.toNat + g.increment.toNat [MOD 2 ^ 64] :=
          Nat.mod_modEq _ _
      _ ≡ (g.state.toNat + g.move * ∑ i ∈ range k, multiplier.toNat ^ i) * multiplier.toNat
            + g.increment.toNat [MOD 2 ^ 64] := (ih.mul_right _).add_right _
      _ = g.state.toNat * multiplier.toNat + g.increment.toNat
            + g.move * (multiplier.toNat * ∑ i ∈ range k, multiplier.toNat ^ i) := by ring
      _ = _ := by rw [← add_move]; ring

/-! ## Equal states -/

theorem coprime_move {g : Permuted} (hOdd : g.increment % 2 = 1) : (2 ^ 64).Coprime g.move := by
  have hIncrement : g.increment.toNat % 2 = 1 := congrArg UInt64.toNat hOdd
  have hEven : (multiplier.toNat - 1) % 2 = 0 := rfl
  apply Nat.Coprime.pow_left
  rw [Nat.coprime_two_left, Nat.odd_iff, move, Nat.add_mod, Nat.mul_mod, hEven, hIncrement,
    Nat.zero_mul]

theorem state_eq_iff_modEq {x y : UInt64} : x = y ↔ x.toNat ≡ y.toNat [MOD 2 ^ 64] := by
  rw [← UInt64.toNat_inj]
  constructor
  · intro h
    rw [h]
  · intro h
    exact h.eq_of_lt_of_lt x.toNat_lt y.toNat_lt

/-- The state is back exactly after the multiples of `2 ^ 64`. -/
theorem state_after32_eq_iff {g : Permuted} (hOdd : g.increment % 2 = 1) (k : ℕ) :
    (after32 g k).state = g.state ↔ 2 ^ 64 ∣ k := by
  have hState := toNat_state_after32 g k
  calc (after32 g k).state = g.state
      ↔ g.state.toNat ≡ (after32 g k).state.toNat [MOD 2 ^ 64] := by
        rw [eq_comm, state_eq_iff_modEq]
    _ ↔ g.state.toNat ≡ g.state.toNat + g.move * ∑ i ∈ range k, multiplier.toNat ^ i
          [MOD 2 ^ 64] := ⟨fun h => h.trans hState, fun h => h.trans hState.symm⟩
    _ ↔ 2 ^ 64 ∣ g.move * ∑ i ∈ range k, multiplier.toNat ^ i := by
        rw [Nat.modEq_iff_dvd' (Nat.le_add_right _ _), Nat.add_sub_cancel_left]
    _ ↔ 2 ^ 64 ∣ ∑ i ∈ range k, multiplier.toNat ^ i := (coprime_move hOdd).dvd_mul_left
    _ ↔ 2 ^ 64 ∣ k := two_pow_dvd_geomSum_iff (by decide) (by decide) 64 k

/-- Among `2 ^ 64` states in a row no two are equal. -/
theorem state_after32_injOn {g : Permuted} (hOdd : g.increment % 2 = 1) {m n : ℕ}
    (hm : m < 2 ^ 64) (hn : n < 2 ^ 64) (h : (after32 g m).state = (after32 g n).state) :
    m = n := by
  wlog hle : m ≤ n generalizing m n
  · exact (this hn hm h.symm (Nat.le_of_not_le hle)).symm
  obtain ⟨k, rfl⟩ := Nat.exists_eq_add_of_le hle
  rw [after32_add, eq_comm, state_after32_eq_iff (by rwa [increment_after32])] at h
  have hk : k = 0 := Nat.eq_zero_of_dvd_of_lt h (by omega)
  omega

/-- Every state occurs exactly once among `2 ^ 64` states in a row. -/
theorem existsUnique_state {g : Permuted} (hOdd : g.increment % 2 = 1) (state : UInt64) :
    ∃! k, k < 2 ^ 64 ∧ (after32 g k).state = state := by
  let visit (k : Fin (2 ^ 64)) : Fin (2 ^ 64) :=
    ⟨(after32 g k).state.toNat, UInt64.toNat_lt _⟩
  have hInjective : Function.Injective visit := by
    intro m n h
    have hState : (after32 g m).state = (after32 g n).state :=
      UInt64.toNat_inj.mp (Fin.val_eq_of_eq h)
    exact Fin.ext (state_after32_injOn hOdd m.isLt n.isLt hState)
  obtain ⟨k, hk⟩ := Finite.injective_iff_surjective.mp hInjective ⟨state.toNat, state.toNat_lt⟩
  have hState : (after32 g k).state = state := UInt64.toNat_inj.mp (Fin.val_eq_of_eq hk)
  refine ⟨k, ⟨k.isLt, hState⟩, ?_⟩
  rintro n ⟨hn, h⟩
  exact state_after32_injOn hOdd hn k.isLt (h.trans hState.symm)

/-! ## Seeded generators -/

theorem increment_ofSeed (seed stream : UInt64) :
    (ofSeed seed stream).increment = (stream <<< 1) ||| 1 := increment_mk _ _

theorem ofSeed_odd (seed stream : UInt64) : (ofSeed seed stream).increment % 2 = 1 := by
  rw [increment_ofSeed, ← UInt64.toNat_inj, UInt64.toNat_mod, UInt64.toNat_or]
  exact Nat.or_mod_two_eq_one.mpr (.inr rfl)

/-- From any seed and stream, the state is back exactly after the multiples of `2 ^ 64` words; from
any place on, every state occurs exactly once in the next `2 ^ 64`; the increment stays. -/
theorem state_after32_ofSeed (seed stream : UInt64) :
    let g := ofSeed seed stream
    (∀ k, (after32 g k).state = g.state ↔ 2 ^ 64 ∣ k) ∧
    (∀ first state, ∃! k, k < 2 ^ 64 ∧ (after32 g (first + k)).state = state) ∧
    ∀ k, (after32 g k).increment = (stream <<< 1) ||| 1 := by
  intro g
  have hOdd : g.increment % 2 = 1 := ofSeed_odd seed stream
  refine ⟨state_after32_eq_iff hOdd, fun first state => ?_, fun k => ?_⟩
  · simp only [after32_add]
    exact existsUnique_state (by rwa [increment_after32]) state
  · rw [increment_after32, increment_ofSeed]

end DivisionAudit.Permuted
