import DivisionAudit.Proofs.Generator.Period
import DivisionAudit.Source

/-!
# The draws of the permuted generator end

A draw of a range searches the words of the generator without a measure that goes down. It ends as
the state runs through all of its `2 ^ 64` values: one of them is shown as the greatest word, which
no threshold rejects. So every search ends within `2 ^ 64` words, whatever was drawn before, and
every random double of a pass is drawn.

* `exists_firstAt`: a word that is accepted comes within one period.
* `length_toList_doubles`: a pass over random doubles has all of them.
* `draws_end`: draws of ranges, and passes over random doubles, for all seeds.
-/

namespace DivisionAudit

namespace Permuted

/-! ## Searches -/

theorem fst_next32 (g : Permuted) : (Generator.next32 g).1 = output g.state := rfl

/-- A state that is shown as the greatest word: its bits 41 to 58 are set. -/
theorem output_greatest : output 0x7FFFE0000000000 = 0xFFFFFFFF := rfl

theorem exists_firstAt {g : Permuted} (hOdd : g.increment % 2 = 1) (least : UInt32) :
    ∃ n < 2 ^ 64, FirstAt least g n := by
  obtain ⟨n, ⟨hn, hState⟩, -⟩ := existsUnique_state hOdd 0x7FFFE0000000000
  have hWord : word32 g n = 0xFFFFFFFF := by
    rw [word32, fst_next32, hState, output_greatest]
  have hAccepted : least ≤ word32 g n := by
    rw [hWord, UInt32.le_iff_toNat_le]
    exact Nat.le_of_lt_succ least.toNat_lt
  obtain ⟨k, hk, hFirst⟩ := exists_firstAt_of_le hAccepted
  exact ⟨k, hk.trans_lt hn, hFirst⟩

/-! ## Random doubles -/

theorem increment_next64 (g : Permuted) : (Generator.next64 g).2.increment = g.increment :=
  (increment_step g.step).trans (increment_step g)

/-- A random double is drawn, whatever the powers of ten, and the generator keeps its increment. -/
theorem drawOver?_eq_some {g : Permuted} (hOdd : g.increment % 2 = 1)
    (powerOfTen : ℤ → Binary64) :
    ∃ v g', Decades.drawOver? powerOfTen g = some (v, g') ∧ g'.increment = g.increment := by
  obtain ⟨n, -, hFirst⟩ := exists_firstAt hOdd
    (threshold (signedSpan Decades.lowest Decades.highest))
  rw [Decades.drawOver?, drawSignedRange?_eq_some hFirst]
  exact ⟨_, _, rfl, (increment_next64 _).trans (increment_after32 g (n + 1))⟩

theorem length_toList_doubles {g : Permuted} (hOdd : g.increment % 2 = 1) (n : ℕ) :
    (Pass.doubles g n).toList.length = n := by
  induction n generalizing g with
  | zero => rw [Pass.toList_of_next?_eq_none rfl, List.length_nil]
  | succ n ih =>
    obtain ⟨v, g', hDraw, hIncrement⟩ := drawOver?_eq_some hOdd Decades.powerOfTen
    have hNext : (Pass.doubles g (n + 1)).next? = some (v, .doubles g' n) := by
      rw [Pass.next?, Decades.draw?, hDraw, Option.map_some]
    rw [Pass.toList_of_next?_eq_some hNext, List.length_cons, ih (by rwa [hIncrement])]

/-! ## Draws from seeded generators -/

/-- From an odd increment, a word at or above any threshold comes within `2 ^ 64` words. So, for all
seeds and streams and after any number of words, a draw of a range comes to a number: to the start
of an empty range at once, and to the image of the first accepted word otherwise. A pass over random
doubles has as many of them as it is asked for. -/
theorem draws_end :
    (∀ g : Permuted, g.increment % 2 = 1 → ∀ least : UInt32, ∃ n < 2 ^ 64, FirstAt least g n) ∧
    (∀ (seed stream : UInt64) (k : ℕ),
      let g := after32 (ofSeed seed stream) k
      (∀ start stop : UInt32, ∃ n < 2 ^ 64, FirstAt (threshold (stop - start)) g n ∧
        (drawRange start stop g).value = some (if start < stop then
          (start + word32 g n % (stop - start), after32 g (n + 1)) else (start, g))) ∧
      ∀ start stop : Int32, ∃ n < 2 ^ 64, FirstAt (threshold (signedSpan start stop)) g n ∧
        (drawSignedRange start stop g).value = some (if start < stop then
          (start + (word32 g n % signedSpan start stop).toInt32, after32 g (n + 1))
          else (start, g))) ∧
    ∀ seed count : UInt64, (decadesPass seed count).toList.length = count.toNat := by
  refine ⟨fun g hOdd least => exists_firstAt hOdd least, ?_, ?_⟩
  · intro seed stream k g
    have hOdd : g.increment % 2 = 1 := by
      rw [increment_after32]
      exact ofSeed_odd seed stream
    constructor
    · intro start stop
      obtain ⟨n, hn, hFirst⟩ := exists_firstAt hOdd (threshold (stop - start))
      exact ⟨n, hn, hFirst, value_drawRange hFirst⟩
    · intro start stop
      obtain ⟨n, hn, hFirst⟩ := exists_firstAt hOdd (threshold (signedSpan start stop))
      exact ⟨n, hn, hFirst, value_drawSignedRange hFirst⟩
  · intro seed count
    exact length_toList_doubles (ofSeed_odd seed _) count.toNat

/-- The threshold that passes over the most words. -/
theorem draws_end_greatest : (⟨0, 1⟩ : Permuted).increment % 2 = 1 ∧
    ∃ n < 2 ^ 64, FirstAt 0xFFFFFFFF (⟨0, 1⟩ : Permuted) n :=
  ⟨by decide, draws_end.1 ⟨0, 1⟩ (by decide) 0xFFFFFFFF⟩

end Permuted

end DivisionAudit
