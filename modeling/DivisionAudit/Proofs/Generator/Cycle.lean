import DivisionAudit.Proofs.Generator.Period
import Mathlib.Algebra.Order.Ring.Nat
import Mathlib.Algebra.Ring.Periodic

/-!
# Different seeds on one cycle

The generators of one stream run through the same cycle of `2 ^ 64` states, so seeds choose nothing
but the place where a run begins. A place is not seen in a single word, for a word hides half of its
state. But if two runs showed the same words, the words of the cycle would repeat before the cycle
does: after some number of words that `2 ^ 64` does not divide, hence after `2 ^ 63` of them. A
state that far ahead differs in its top bit only, and the words of `0` and `2 ^ 63` are different.

* `ofSeed_eq_iff`: when two seeds and streams make the same generator.
* `after32_injective`: different generators stay different.
* `state_after_half`: half a cycle ahead the top bit is turned over.
* `periodic_word32_iff`: the words repeat exactly with the multiples of `2 ^ 64`.
* `ofSeed_separates`: two seeds.
-/

namespace DivisionAudit.Permuted

open Function

/-! ## Generators of seeds -/

theorem mul_multiplier_injective : Injective fun x : UInt64 => x * multiplier := by
  intro x y h
  have hUnit : multiplier * 0xC097EF87329E28A5 = 1 := rfl
  have hProduct := congrArg (· * (0xC097EF87329E28A5 : UInt64)) h
  simpa only [UInt64.mul_assoc, hUnit, UInt64.mul_one] using hProduct

/-- The increment is odd, and its upper 63 bits are the lower ones of the stream. -/
theorem toNat_increment (stream : UInt64) :
    ((stream <<< 1) ||| 1 : UInt64).toNat = 2 * (stream.toNat % 2 ^ 63) + 1 := by
  have hShift : (stream <<< 1).toNat = 2 ^ 1 * (stream.toNat % 2 ^ 63) := by
    rw [UInt64.toNat_shiftLeft, Nat.shiftLeft_eq, Nat.mul_comm stream.toNat]
    exact Nat.mul_mod_mul_left 2 stream.toNat (2 ^ 63)
  rw [UInt64.toNat_or, hShift]
  exact (Nat.two_pow_add_eq_or_of_lt (i := 1) (by decide) _).symm

theorem increment_eq_iff {stream stream' : UInt64} :
    ((stream <<< 1) ||| 1 : UInt64) = (stream' <<< 1) ||| 1 ↔
      stream.toNat % 2 ^ 63 = stream'.toNat % 2 ^ 63 := by
  rw [← UInt64.toNat_inj, toNat_increment, toNat_increment]
  omega

theorem step_injective : Injective step := by
  rintro ⟨state, increment⟩ ⟨state', increment'⟩ h
  obtain ⟨hState, hIncrement⟩ := Permuted.mk.inj h
  dsimp only at hState hIncrement
  subst hIncrement
  rw [mul_multiplier_injective ((UInt64.add_left_inj _).mp hState)]

theorem ofSeed_eq_iff {seed seed' stream stream' : UInt64} :
    ofSeed seed stream = ofSeed seed' stream' ↔
      seed = seed' ∧ stream.toNat % 2 ^ 63 = stream'.toNat % 2 ^ 63 := by
  rw [← increment_eq_iff]
  constructor
  · intro h
    have hIncrement := congrArg increment h
    rw [increment_ofSeed, increment_ofSeed] at hIncrement
    refine ⟨?_, hIncrement⟩
    have hBefore := step_injective h
    rw [hIncrement] at hBefore
    exact (UInt64.add_right_inj _).mp (congrArg state hBefore)
  · rintro ⟨rfl, hIncrement⟩
    rw [ofSeed, ofSeed, hIncrement]

/-! ## States along a run -/

theorem after32_injective (k : ℕ) : Injective fun g : Permuted => after32 g k :=
  step_injective.iterate k

theorem word32_eq_output (g : Permuted) (n : ℕ) : word32 g n = output (after32 g n).state := rfl

/-- A geometric sum of `2 ^ 63` terms is an odd multiple of `2 ^ 63`, and the first move is odd. -/
theorem state_after_half {g : Permuted} (hOdd : g.increment % 2 = 1) :
    (after32 g (2 ^ 63)).state = g.state + 0x8000000000000000 := by
  have hState := toNat_state_after32 g (2 ^ 63)
  have hLift := two_pow_dvd_geomSum_iff (a := multiplier.toNat) (by decide) (by decide)
  obtain ⟨q, hq⟩ := (hLift 63 (2 ^ 63)).mpr (Nat.dvd_refl _)
  have hNot : ¬ 2 ^ 64 ∣ 2 ^ 63 * q := by
    rw [← hq, hLift]
    decide
  have hMove : g.move % 2 = 1 := Nat.odd_iff.mp <|
    Nat.coprime_two_left.mp ((coprime_move hOdd).coprime_dvd_left (by decide))
  have hqOdd : q % 2 = 1 := by omega
  have hHalf : g.move * (2 ^ 63 * q) ≡ 2 ^ 63 [MOD 2 ^ 64] := by
    have hProduct : g.move * q ≡ 1 [MOD 2] := by
      rw [Nat.ModEq, Nat.mul_mod, hMove, hqOdd]
    calc g.move * (2 ^ 63 * q) = 2 ^ 63 * (g.move * q) := by ring
      _ ≡ 2 ^ 63 * 1 [MOD 2 ^ 63 * 2] := hProduct.mul_left' (2 ^ 63)
  rw [hq] at hState
  rw [state_eq_iff_modEq, UInt64.toNat_add]
  exact (hState.trans (hHalf.add_left _)).trans (Nat.mod_modEq _ _).symm

/-! ## The period of the words -/

theorem eq_of_state_eq {g g' : Permuted} (hState : g.state = g'.state)
    (hIncrement : g.increment = g'.increment) : g = g' := by
  cases g
  cases g'
  cases hState
  cases hIncrement
  rfl

theorem periodic_after32 {g : Permuted} (hOdd : g.increment % 2 = 1) :
    Periodic (after32 g) (2 ^ 64) := by
  intro n
  rw [after32_add]
  have hBack := (state_after32_eq_iff (g := after32 g n) (by rwa [increment_after32]) (2 ^ 64)).mpr
    (Nat.dvd_refl _)
  exact eq_of_state_eq hBack (increment_after32 _ _)

/-- The states `0` and `2 ^ 63` show different words. -/
theorem not_periodic_half {g : Permuted} (hOdd : g.increment % 2 = 1) :
    ¬ Periodic (word32 g) (2 ^ 63) := by
  intro hPeriod
  obtain ⟨n, ⟨-, hZero⟩, -⟩ := existsUnique_state hOdd 0
  have hHalf := state_after_half (g := after32 g n) (by rwa [increment_after32])
  have hWord := hPeriod n
  rw [word32_eq_output, word32_eq_output, after32_add, hHalf, hZero] at hWord
  exact absurd hWord (by decide)

/-- A shorter period would be an odd multiple of a power of two below `2 ^ 64`. -/
theorem periodic_word32_iff {g : Permuted} (hOdd : g.increment % 2 = 1) (k : ℕ) :
    Periodic (word32 g) k ↔ 2 ^ 64 ∣ k := by
  have hCycle : Periodic (word32 g) (2 ^ 64) := by
    intro n
    rw [word32_eq_output, periodic_after32 hOdd n, word32_eq_output]
  constructor
  · intro hPeriod
    by_contra hNot
    have hk : k ≠ 0 := by
      rintro rfl
      exact hNot (Nat.dvd_zero _)
    obtain ⟨m, _, ⟨i, rfl⟩, rfl⟩ := Nat.exists_eq_two_pow_mul_odd hk
    have hm : m ≤ 63 := by
      by_contra hLarge
      exact hNot ((Nat.pow_dvd_pow 2 (by omega)).mul_right _)
    have hMultiple := hPeriod.nat_mul (2 ^ (63 - m))
    have hSum : 2 ^ (63 - m) * (2 ^ m * (2 * i + 1)) = 2 ^ 63 + i * 2 ^ 64 := by
      rw [← Nat.mul_assoc, ← Nat.pow_add, Nat.sub_add_cancel hm]
      ring
    rw [Nat.cast_id, hSum] at hMultiple
    refine not_periodic_half hOdd fun n => ?_
    have hCycles := hCycle.nat_mul i
    rw [Nat.cast_id] at hCycles
    rw [← hCycles, Nat.add_assoc]
    exact hMultiple n
  · rintro ⟨q, rfl⟩
    rw [Nat.mul_comm]
    exact hCycle.nat_mul q

/-! ## Two seeds -/

/-- Generators of one stream that show the same words are the same. -/
theorem eq_of_word32_eq {g g' : Permuted} (hOdd : g.increment % 2 = 1)
    (hStream : g.increment = g'.increment) (h : ∀ n, word32 g n = word32 g' n) : g = g' := by
  obtain ⟨k, ⟨-, hState⟩, -⟩ := existsUnique_state hOdd g'.state
  have hAhead : after32 g k = g' := eq_of_state_eq hState ((increment_after32 g k).trans hStream)
  have hPeriod : Periodic (word32 g) k := by
    intro n
    rw [h n, ← hAhead, word32_eq_output, word32_eq_output, Nat.add_comm, after32_add]
  rw [periodic_word32_iff hOdd, ← state_after32_eq_iff hOdd] at hPeriod
  exact eq_of_state_eq (hPeriod.symm.trans hState) hStream

/-- Seeds and streams make the same generator exactly when the seeds are equal and the streams are,
up to their top bit. Generators of different seeds on one stream have different states after any
number of words, and do not show the same words. -/
theorem ofSeed_separates :
    (∀ seed seed' stream stream' : UInt64, ofSeed seed stream = ofSeed seed' stream' ↔
      seed = seed' ∧ stream.toNat ≡ stream'.toNat [MOD 2 ^ 63]) ∧
    ∀ seed seed' stream : UInt64, seed ≠ seed' →
      (∀ k, (after32 (ofSeed seed stream) k).state ≠ (after32 (ofSeed seed' stream) k).state) ∧
      word32 (ofSeed seed stream) ≠ word32 (ofSeed seed' stream) := by
  refine ⟨fun seed seed' stream stream' => ofSeed_eq_iff, ?_⟩
  intro seed seed' stream hSeeds
  have hStream : (ofSeed seed stream).increment = (ofSeed seed' stream).increment := by
    rw [increment_ofSeed, increment_ofSeed]
  have hDifferent : ofSeed seed stream ≠ ofSeed seed' stream := fun h =>
    hSeeds (ofSeed_eq_iff.mp h).1
  constructor
  · intro k hState
    have hIncrement : (after32 (ofSeed seed stream) k).increment =
        (after32 (ofSeed seed' stream) k).increment := by
      rw [increment_after32, increment_after32, hStream]
    exact hDifferent (after32_injective k (eq_of_state_eq hState hIncrement))
  · intro hWords
    exact hDifferent (eq_of_word32_eq (ofSeed_odd seed stream) hStream (congrFun hWords))

/-- Seeds that differ in their top bit only. -/
theorem ofSeed_separates_top_bit :
    let g := ofSeed 42 defaultStream
    let g' := ofSeed (42 + 0x8000000000000000) defaultStream
    (42 : UInt64) ≠ 42 + 0x8000000000000000 ∧
    (∀ k, (after32 g k).state ≠ (after32 g' k).state) ∧ word32 g ≠ word32 g' := by
  intro g g'
  have hSeeds : (42 : UInt64) ≠ 42 + 0x8000000000000000 := by decide
  obtain ⟨hStates, hWords⟩ := ofSeed_separates.2 _ _ defaultStream hSeeds
  exact ⟨hSeeds, hStates, hWords⟩

end DivisionAudit.Permuted
