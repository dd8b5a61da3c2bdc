import DivisionAudit.Proofs.Generator.Outputs
import Mathlib.Logic.Function.Basic

/-!
# Different seeds, different outputs

The first 312 outputs of the twister tell its seed. Nothing on the way from the seed to them loses
a bit: tempering and the growth of the first block can be undone word by word, and the mixing of a
join shows in its top bit whether the matrix row was added. A join does lose bits, the upper ones of
one word and the lower ones of the other, but two neighbouring joins together hold all bits of the
word they share.

So the outputs at 0 and 156 tell the join of the words at 156 and 157, those at 1 and 157 the next
join; from both follows the word at 157, and from that one the seed.

* `xor_self_injective`: words that are mixed with their own later or earlier bits.
* `temper_injective`, `mix_injective`, `seedStep_injective`: the steps that lose nothing.
* `eq_of_join_eq`: the word that two joins share.
* `seed_eq_of_word_eq`: the seed from the words behind four outputs.
* `outputs_differ`: two seeds.
-/

namespace DivisionAudit.Twister

/-! ## Bits -/

def bit (x : UInt64) (i : Nat) : Bool := x.toNat.testBit i

theorem eq_of_bit_eq {x y : UInt64} (h : ∀ i, bit x i = bit y i) : x = y :=
  UInt64.toNat_inj.mp (Nat.eq_of_testBit_eq h)

theorem bit_of_le {x : UInt64} {i : Nat} (h : 64 ≤ i) : bit x i = false :=
  Nat.testBit_lt_two_pow (Nat.lt_of_lt_of_le x.toNat_lt (Nat.pow_le_pow_right (by decide) h))

@[simp] theorem bit_xor (x y : UInt64) (i : Nat) : bit (x ^^^ y) i = (bit x i ^^ bit y i) := by
  rw [bit, UInt64.toNat_xor, Nat.testBit_xor]
  rfl

@[simp] theorem bit_and (x y : UInt64) (i : Nat) : bit (x &&& y) i = (bit x i && bit y i) := by
  rw [bit, UInt64.toNat_and, Nat.testBit_and]
  rfl

theorem bit_shiftRight (x k : UInt64) (i : Nat) :
    bit (x >>> k) i = bit x (k.toNat % 64 + i) := by
  rw [bit, UInt64.toNat_shiftRight, Nat.testBit_shiftRight]
  rfl

theorem bit_shiftLeft (x k : UInt64) (i : Nat) : bit (x <<< k) i =
    (decide (i < 64) && (decide (k.toNat % 64 ≤ i) && bit x (i - k.toNat % 64))) := by
  rw [bit, UInt64.toNat_shiftLeft, Nat.testBit_mod_two_pow, Nat.testBit_shiftLeft]
  rfl

/-! ## Words mixed with themselves -/

/-- A word can be told from its sum with a word whose bits each depend on bits of lower rank. -/
theorem xor_self_injective {f : UInt64 → UInt64} (rank : Nat → Nat)
    (hf : ∀ x y i, (∀ j, rank j < rank i → bit x j = bit y j) → bit (f x) i = bit (f y) i) :
    Function.Injective fun x => x ^^^ f x := by
  intro x y h
  apply eq_of_bit_eq
  intro i
  induction hr : rank i using Nat.strong_induction_on generalizing i with
  | _ r ih =>
    subst hr
    have hLower : ∀ j, rank j < rank i → bit x j = bit y j := fun j hj => ih (rank j) hj j rfl
    have hBit := congrArg (bit · i) h
    simp only [bit_xor, hf x y i hLower] at hBit
    exact Bool.xor_left_inj.mp hBit

/-- Bits that come from further up. -/
theorem xor_shiftRight_injective {k : UInt64} (hk : 0 < k.toNat % 64) (mask : UInt64) :
    Function.Injective fun x => x ^^^ ((x >>> k) &&& mask) := by
  apply xor_self_injective (64 - ·)
  intro x y i h
  rw [bit_and, bit_and, bit_shiftRight, bit_shiftRight]
  by_cases hi : k.toNat % 64 + i < 64
  · rw [h _ (by omega)]
  · rw [bit_of_le (Nat.le_of_not_lt hi), bit_of_le (Nat.le_of_not_lt hi)]

/-- Bits that come from further down. -/
theorem xor_shiftLeft_injective {k : UInt64} (hk : 0 < k.toNat % 64) (mask : UInt64) :
    Function.Injective fun x => x ^^^ ((x <<< k) &&& mask) := by
  apply xor_self_injective id
  intro x y i h
  rw [bit_and, bit_and, bit_shiftLeft, bit_shiftLeft]
  by_cases hi : k.toNat % 64 ≤ i
  · have hLower : i - k.toNat % 64 < i := by omega
    rw [h _ hLower]
  · simp only [hi, decide_false, Bool.false_and, Bool.and_false]

theorem xor_shiftRight_all_injective {k : UInt64} (hk : 0 < k.toNat % 64) :
    Function.Injective fun x : UInt64 => x ^^^ (x >>> k) := by
  have hAll := xor_shiftRight_injective hk (-1)
  simpa only [UInt64.and_neg_one] using hAll

theorem temper_injective : Function.Injective temper := by
  intro x y h
  have h1 := xor_shiftRight_all_injective (by decide) h
  have h2 := xor_shiftLeft_injective (by decide) _ h1
  have h3 := xor_shiftLeft_injective (by decide) _ h2
  exact xor_shiftRight_injective (by decide) _ h3

/-! ## The first block -/

theorem seedStep_injective (i : Nat) : Function.Injective (seedStep · i) := by
  intro x y h
  have hProduct := (UInt64.add_left_inj _).mp h
  have hInverse (z : UInt64) : 0xC097EF87329E28A5 * (seedMultiplier * z) = z := by
    rw [← UInt64.mul_assoc]
    exact UInt64.one_mul z
  have hMixed := congrArg (0xC097EF87329E28A5 * ·) hProduct
  simp only [hInverse] at hMixed
  exact xor_shiftRight_all_injective (by decide) hMixed

theorem seed_eq_of_word_eq {seed seed' : UInt64} {i : Nat} (hi : i < 312)
    (h : word seed i = word seed' i) : seed = seed' := by
  induction i with
  | zero => rwa [word_zero, word_zero] at h
  | succ i ih =>
    rw [word_succ seed hi, word_succ seed' hi] at h
    exact ih (by omega) (seedStep_injective (i + 1) h)

/-! ## Joins -/

theorem bit_zero (x : UInt64) : bit x 0 = decide (x % 2 = 1) := by
  rw [bit, Nat.testBit_zero, decide_eq_decide, ← UInt64.toNat_inj, UInt64.toNat_mod]
  rfl

/-- The matrix row has the top bit, which a shifted word has not. -/
theorem bit_top_mix (x : UInt64) : bit (mix x) 63 = bit x 0 := by
  have hShift : bit (x >>> 1) 63 = false := by
    rw [bit_shiftRight]
    exact bit_of_le (by decide)
  rw [mix_eq, bit_xor, hShift, Bool.false_xor, bit_zero]
  by_cases h : x % 2 = 1
  · rw [if_pos h, decide_eq_true h]
    rfl
  · rw [if_neg h, decide_eq_false h]
    rfl

theorem mix_injective : Function.Injective mix := by
  intro x y h
  have hLowest : bit x 0 = bit y 0 := by rw [← bit_top_mix, ← bit_top_mix, h]
  have hShift : x >>> 1 = y >>> 1 := by
    rw [bit_zero, bit_zero, decide_eq_decide] at hLowest
    rw [mix_eq, mix_eq] at h
    simp only [hLowest] at h
    exact (UInt64.xor_left_inj _).mp h
  apply eq_of_bit_eq
  intro i
  cases i with
  | zero => exact hLowest
  | succ i =>
    have hBit := congrArg (bit · i) hShift
    simp only [bit_shiftRight] at hBit
    rw [Nat.add_comm]
    exact hBit

theorem and_or_distrib (x y z : UInt64) : x &&& (y ||| z) = x &&& y ||| x &&& z :=
  UInt64.toBitVec_inj.mp BitVec.and_or_distrib_left

/-- A mask takes its part of a join: what the other mask has left there is zero. -/
theorem upper_and_join (x after : UInt64) :
    0xFFFFFFFF80000000 &&& join x after = x &&& 0xFFFFFFFF80000000 := by
  rw [join, and_or_distrib, UInt64.and_comm x, UInt64.and_comm after, ← UInt64.and_assoc,
    ← UInt64.and_assoc]
  exact UInt64.toBitVec_inj.mp (by simp)

theorem lower_and_join (before x : UInt64) :
    0x7FFFFFFF &&& join before x = x &&& 0x7FFFFFFF := by
  rw [join, and_or_distrib, UInt64.and_comm before, UInt64.and_comm x, ← UInt64.and_assoc,
    ← UInt64.and_assoc]
  exact UInt64.toBitVec_inj.mp (by simp)

theorem join_self (x : UInt64) : join x x = x := by
  rw [join, ← and_or_distrib]
  exact UInt64.and_neg_one

/-- Two joins share a word: the one has its lower bits, the other its upper bits. -/
theorem eq_of_join_eq {before before' x x' after after' : UInt64}
    (hLower : join before x = join before' x') (hUpper : join x after = join x' after') :
    x = x' := by
  calc x = (x &&& 0xFFFFFFFF80000000) ||| (x &&& 0x7FFFFFFF) := (join_self x).symm
    _ = (0xFFFFFFFF80000000 &&& join x after) ||| (0x7FFFFFFF &&& join before x) := by
      rw [upper_and_join, lower_and_join]
    _ = (x' &&& 0xFFFFFFFF80000000) ||| (x' &&& 0x7FFFFFFF) := by
      rw [hUpper, hLower, upper_and_join, lower_and_join]
    _ = x' := join_self x'

/-! ## Outputs -/

/-- The output that comes after `k` others. -/
def output (g : Twister) (k : Nat) : UInt64 := (g.discard k).next.1

theorem output_ofSeed (seed : UInt64) (k : Nat) :
    output (ofSeed seed) k = temper (word seed (k + 312)) := by
  obtain ⟨-, -, -, -, hOutput⟩ := ((after_ofSeed seed).discard k).next
  rw [output, hOutput, Nat.zero_add, temper_eq_tempered]

/-- Two outputs 156 places apart tell the join of the words that the later one was mixed from. -/
theorem join_eq_of_output_eq {seed seed' : UInt64} {k : Nat}
    (hNear : output (ofSeed seed) k = output (ofSeed seed') k)
    (hFar : output (ofSeed seed) (k + 156) = output (ofSeed seed') (k + 156)) :
    join (word seed (k + 156)) (word seed (k + 157)) =
      join (word seed' (k + 156)) (word seed' (k + 157)) := by
  rw [output_ofSeed, output_ofSeed] at hNear hFar
  have hNearWord := temper_injective hNear
  have hFarWord := temper_injective hFar
  have hRenewed (s : UInt64) : word s (k + 156 + 312) =
      renewed (word s (k + 312)) (word s (k + 156)) (word s (k + 157)) := word_add s (k + 156)
  -- The renewed words share one summand, the word behind the nearer output; the other is the join.
  rw [hRenewed, hRenewed, hNearWord] at hFarWord
  exact mix_injective ((UInt64.xor_right_inj _).mp hFarWord)

/-- Four outputs tell the seed. -/
theorem seed_eq_of_output_eq {seed seed' : UInt64}
    (h : ∀ k, k = 0 ∨ k = 1 ∨ k = 156 ∨ k = 157 →
      output (ofSeed seed) k = output (ofSeed seed') k) : seed = seed' := by
  have hFirst := join_eq_of_output_eq (h 0 (by decide)) (h 156 (by decide))
  have hSecond := join_eq_of_output_eq (h 1 (by decide)) (h 157 (by decide))
  exact seed_eq_of_word_eq (by decide) (eq_of_join_eq hFirst hSecond)

theorem signedWord_injective : Function.Injective signedWord := by
  intro x y h
  exact (UInt64.add_left_inj _).mp (congrArg Int64.toUInt64 h)

theorem toList_pass_uniform (seed count : UInt64) : (Source.uniform seed count).pass.toList =
    (List.range count.toNat).map fun k => signedWord (output (ofSeed seed) k) := by
  have hList := toList_uniformPass seed count
  simp only [← temper_eq_tempered, ← output_ofSeed, ← add_eq_xor] at hList
  exact hList

/-- Two seeds differ in one of their first 312 outputs, and so do the inputs of their uniform
sources. -/
theorem outputs_differ {seed seed' : UInt64} (hSeeds : seed ≠ seed') :
    (∃ k < 312, output (ofSeed seed) k ≠ output (ofSeed seed') k) ∧
    ∀ count : UInt64, 312 ≤ count →
      (Source.uniform seed count).pass.toList ≠ (Source.uniform seed' count).pass.toList := by
  have hDiffer : ∃ k < 312, output (ofSeed seed) k ≠ output (ofSeed seed') k := by
    by_contra hNone
    apply hSeeds
    apply seed_eq_of_output_eq
    intro k hk
    by_contra hOutput
    exact hNone ⟨k, by omega, hOutput⟩
  refine ⟨hDiffer, ?_⟩
  intro count hCount hLists
  obtain ⟨k, hk, hOutput⟩ := hDiffer
  have hLong : 312 ≤ count.toNat := UInt64.le_iff_toNat_le.mp hCount
  rw [toList_pass_uniform, toList_pass_uniform, List.map_inj_left] at hLists
  exact hOutput (signedWord_injective (hLists k (List.mem_range.mpr (by omega))))

/-- Seeds that differ in their top bit only, and no input more than needed. -/
theorem outputs_differ_top_bit : (0 : UInt64) ≠ 0x8000000000000000 ∧
    (∃ k < 312, output (ofSeed 0) k ≠ output (ofSeed 0x8000000000000000) k) ∧
    (312 : UInt64) ≤ 312 ∧
    (Source.uniform 0 312).pass.toList ≠ (Source.uniform 0x8000000000000000 312).pass.toList := by
  have hSeeds : (0 : UInt64) ≠ 0x8000000000000000 := by decide
  obtain ⟨hOutputs, hInputs⟩ := outputs_differ hSeeds
  exact ⟨hSeeds, hOutputs, UInt64.le_refl 312, hInputs 312 (UInt64.le_refl 312)⟩

end DivisionAudit.Twister
