import DivisionAudit.Proofs.Generator.Recurrence
import DivisionAudit.Source
import Mathlib.Algebra.Ring.Nat

/-!
# The outputs of the twister

The outputs of the generator are the words of its sequence from the 312th on, tempered, in order and
without a gap, whether the ones before were drawn or skipped. The state after `k` outputs is a block
of consecutive words with a position in it, so that the position and the place of the block in the
sequence add up to `k`.

* `After.next`: one output, and the state after it.
* `After.discard`: skipped outputs count as drawn ones.
* `toList_uniformPass`: the words of a uniform pass.
* `next_eq_temper_word`: the outputs, after any calls.
-/

namespace DivisionAudit.Twister

/-! ## States -/

/-- The state of the generator after `k` outputs. -/
structure After (seed : UInt64) (k : Nat) (g : Twister) : Prop where
  index_le : g.index ≤ 312
  window : ∃ base, base + g.index = k + 312 ∧ Window seed base 0 g.block

theorem after_ofSeed (seed : UInt64) : After seed 0 (ofSeed seed) where
  index_le := Nat.le_refl 312
  window := ⟨0, rfl, firstBlock_window seed⟩

theorem Window.getElem {seed : UInt64} {base i : Nat} {block : Vector UInt64 312}
    (h : Window seed base 0 block) (hi : i < 312) : block[i] = word seed (base + i) := by
  rw [← wordAt_of_lt block hi, h i (Nat.zero_le i) (by omega)]

/-- One output: it is read at a position of the block, and the next one is read after it. -/
theorem After.next {seed : UInt64} {k : Nat} {g : Twister} (h : After seed k g) :
    After seed (k + 1) g.next.2 ∧ ∃ i : Fin 312, g.next.2.index = i + 1 ∧
      g.next.1 = tempered g.next.2.block[i] ∧ g.next.1 = tempered (word seed (k + 312)) := by
  obtain ⟨base, hBase, hWindow⟩ := h.window
  unfold Twister.next
  split
  · next hi =>
    refine ⟨⟨hi, base, by dsimp only; omega, hWindow⟩, ⟨g.index, hi⟩, rfl,
      temper_eq_tempered _, ?_⟩
    dsimp only
    rw [temper_eq_tempered, hWindow.getElem hi, hBase]
  · next hi =>
    have hIndex : g.index = 312 := by have := h.index_le; omega
    have hk : base = k := by omega
    subst hk
    have hRenewed := hWindow.renew
    refine ⟨⟨by dsimp only; omega, base + 312, rfl, hRenewed⟩, 0, rfl, temper_eq_tempered _, ?_⟩
    dsimp only
    rw [temper_eq_tempered, hRenewed.getElem (by decide), Nat.add_zero]

theorem After.discard {seed : UInt64} {k : Nat} {g : Twister} (h : After seed k g) (n : Nat) :
    After seed (k + n) (g.discard n) := by
  induction n generalizing k g with
  | zero => exact h
  | succ n ih =>
    have hn := ih h.next.1
    rwa [Nat.add_right_comm, Nat.add_assoc] at hn

/-! ## Calls -/

/-- A use of the generator. -/
inductive Call
  | next
  | discard (n : Nat)

namespace Call

/-- The number of outputs that a call uses up. -/
def outputs : Call → Nat
  | .next => 1
  | .discard n => n

def after (g : Twister) : Call → Twister
  | .next => g.next.2
  | .discard n => g.discard n

end Call

theorem After.call {seed : UInt64} {k : Nat} {g : Twister} (h : After seed k g) (c : Call) :
    After seed (k + c.outputs) (c.after g) := by
  cases c with
  | next => exact h.next.1
  | discard n => exact h.discard n

theorem After.calls {seed : UInt64} {k : Nat} {g : Twister} (h : After seed k g)
    (calls : List Call) :
    After seed (k + (calls.map Call.outputs).sum) (calls.foldl Call.after g) := by
  induction calls generalizing k g with
  | nil => exact h
  | cons c cs ih =>
    have hcs := ih (h.call c)
    rwa [Nat.add_assoc] at hcs

/-! ## Uniform words -/

/-- Below twice a power of two, adding the power flips the top bit: its carry is cut off. -/
theorem add_two_pow_mod {n k : Nat} (h : n < 2 * 2 ^ k) :
    (n + 2 ^ k) % (2 * 2 ^ k) = n ^^^ 2 ^ k := by
  have hPos : 0 < 2 ^ k := Nat.two_pow_pos k
  have hXor := Nat.div_add_mod (n ^^^ 2 ^ k) (2 ^ k)
  rw [Nat.xor_div_two_pow, Nat.xor_mod_two_pow, Nat.div_self hPos, Nat.mod_self,
    Nat.xor_zero] at hXor
  have hDiv := Nat.div_add_mod n (2 ^ k)
  have hRest := Nat.mod_lt n hPos
  by_cases hTop : n < 2 ^ k
  · rw [Nat.div_eq_of_lt hTop, Nat.zero_xor, Nat.mul_one] at hXor
    rw [Nat.mod_eq_of_lt (by omega)]
    rw [Nat.div_eq_of_lt hTop, Nat.mul_zero] at hDiv
    omega
  · have hOne : n / 2 ^ k = 1 := Nat.div_eq_of_lt_le (by omega) (by omega)
    rw [hOne, Nat.xor_self, Nat.mul_zero] at hXor
    rw [hOne, Nat.mul_one] at hDiv
    rw [Nat.mod_eq_sub_mod (by omega), Nat.mod_eq_of_lt (by omega)]
    omega

theorem add_eq_xor (w : UInt64) : w + 0x8000000000000000 = w ^^^ 0x8000000000000000 := by
  apply UInt64.toNat_inj.mp
  rw [UInt64.toNat_add, UInt64.toNat_xor]
  exact add_two_pow_mod (k := 63) w.toNat_lt

theorem After.toList_words {seed : UInt64} {k : Nat} {g : Twister} (h : After seed k g) (n : Nat) :
    (Pass.words g n).toList = (List.range n).map fun i =>
      (tempered (word seed (k + i + 312)) ^^^ 0x8000000000000000).toInt64 := by
  induction n generalizing k g with
  | zero => exact Pass.toList_of_next?_eq_none rfl
  | succ n ih =>
    obtain ⟨hNext, -, -, -, hOutput⟩ := h.next
    have hPass : (Pass.words g (n + 1)).next? = some (signedWord g.next.1, .words g.next.2 n) := rfl
    rw [Pass.toList_of_next?_eq_some hPass, ih hNext, List.range_succ_eq_map, List.map_cons,
      List.map_map, hOutput, signedWord, add_eq_xor]
    congr 2
    funext i
    simp only [Function.comp_apply, Nat.succ_eq_add_one, Nat.add_assoc, Nat.add_comm 1]

/-- A uniform pass hands out the outputs with the top bit flipped. -/
theorem toList_uniformPass (seed count : UInt64) :
    (uniformPass seed count).toList = (List.range count.toNat).map fun k =>
      (tempered (word seed (k + 312)) ^^^ 0x8000000000000000).toInt64 := by
  have hList := (after_ofSeed seed).toList_words count.toNat
  simp only [Nat.zero_add] at hList
  exact hList

/-! ## The sequence as outputs -/

/-- From any seed, after any calls, the position in the block is in bounds and the next output is
the tempered word of the sequence that is 312 places on from the outputs used up; a uniform pass of
any length hands out these outputs with the top bit flipped. -/
theorem next_eq_temper_word (seed : UInt64) :
    (∀ calls : List Call,
      let g := calls.foldl Call.after (ofSeed seed)
      let k := (calls.map Call.outputs).sum
      g.index ≤ 312 ∧
        (∃ i : Fin 312, g.next.2.index = i + 1 ∧ g.next.1 = tempered g.next.2.block[i]) ∧
        g.next.1 = tempered (word seed (k + 312))) ∧
    ∀ count : UInt64,
      (uniformPass seed count).toList = (List.range count.toNat).map fun k =>
        (tempered (word seed (k + 312)) ^^^ 0x8000000000000000).toInt64 := by
  refine ⟨fun calls => ?_, toList_uniformPass seed⟩
  have hAfter := (after_ofSeed seed).calls calls
  obtain ⟨-, i, hIndex, hRead, hOutput⟩ := hAfter.next
  rw [Nat.zero_add] at hOutput
  exact ⟨hAfter.index_le, ⟨i, hIndex, hRead⟩, hOutput⟩

/-- The first output from the default seed, by the sequence. -/
example : tempered (word defaultSeed 312) = 14514284786278117030 := by decide +kernel

end DivisionAudit.Twister
