import DivisionAudit.Proofs.Input.Pass
import DivisionAudit.Source
import Mathlib.Algebra.Ring.Int.Defs

/-!
# The words around the powers of two

The edge words are laid out by position: the extreme ones first, then six for each power of two. So
a word is shown to be one of them at its position. Powers and their neighbours wrap as whole numbers
do when they are cut off to words, the last power and its negation being the least word.

* `IsEdge`: the extreme words, and those up to one from a power of two or its negation.
* `mem_toList_edges`: a pass over the edge words has them all.
-/

namespace DivisionAudit.Edges

theorem value_mem {i : ℕ} (h : i < count) : value i ∈ Source.edges.pass.toList := by
  have hList : Source.edges.pass.toList = (List.range count).map fun i => value (0 + i) :=
    Pass.toList_walk (d := .word) walk
  rw [hList, List.mem_map]
  exact ⟨i, List.mem_range.mpr h, congrArg value (Nat.zero_add i)⟩

theorem aroundPower_mem {k j : ℕ} (hk : k < 64) (hj : j < 6) :
    aroundPower k j ∈ Source.edges.pass.toList := by
  have hPosition : 9 + (6 * k + j) < count := by
    unfold count
    omega
  have hValue : value (9 + (6 * k + j)) = aroundPower k j := by
    have hPower : (9 + (6 * k + j) - 9) / 6 = k := by omega
    have hNeighbour : (9 + (6 * k + j) - 9) % 6 = j := by omega
    rw [value, dif_neg (by omega), hPower, hNeighbour]
  rw [← hValue]
  exact value_mem hPosition

/-- A power as a word; the last one is the least word. -/
theorem ofInt_two_pow {k : ℕ} (h : k < 64) : Int64.ofInt (2 ^ k) = 1 <<< Int64.ofNat k := by
  have hAll : ∀ k < 64, Int64.ofInt (2 ^ k) = 1 <<< Int64.ofNat k := by decide +kernel
  exact hAll k h

/-- A number and its two neighbours, cut off to words. -/
theorem ofInt_add_mem {words : List Int64} {n : ℤ} (h : Int64.ofInt n ∈ words)
    (hBelow : Int64.ofInt n - 1 ∈ words) (hAbove : Int64.ofInt n + 1 ∈ words) {e : ℤ}
    (he : e = -1 ∨ e = 0 ∨ e = 1) : Int64.ofInt (n + e) ∈ words := by
  rcases he with rfl | rfl | rfl
  · have hSub : Int64.ofInt (n + -1) = Int64.ofInt n - 1 := Int64.ofInt_sub n 1
    rwa [hSub]
  · rwa [Int.add_zero]
  · rwa [Int64.ofInt_add]

/-- The extreme words, and all words up to one from a power of two or its negation. -/
inductive IsEdge : Int64 → Prop
  | least : IsEdge Int64.minValue
  | nextToLeast : IsEdge (Int64.minValue + 1)
  | nextToGreatest : IsEdge (Int64.maxValue - 1)
  | greatest : IsEdge Int64.maxValue
  | power {k : ℕ} (hk : k < 64) {e : ℤ} (he : e = -1 ∨ e = 0 ∨ e = 1) :
    IsEdge (Int64.ofInt (2 ^ k + e))
  | negatedPower {k : ℕ} (hk : k < 64) {e : ℤ} (he : e = -1 ∨ e = 0 ∨ e = 1) :
    IsEdge (Int64.ofInt (-2 ^ k + e))

theorem mem_toList_edges {n : Int64} (h : IsEdge n) : n ∈ Source.edges.pass.toList := by
  cases h with
  | least => exact value_mem (i := 5) (by decide)
  | nextToLeast => exact value_mem (i := 6) (by decide)
  | greatest => exact value_mem (i := 7) (by decide)
  | nextToGreatest => exact value_mem (i := 8) (by decide)
  | @power k hk e he =>
    have hWord := ofInt_two_pow hk
    refine ofInt_add_mem ?_ ?_ ?_ he
    · rw [hWord]
      exact aroundPower_mem (j := 0) hk (by decide)
    · rw [hWord]
      exact aroundPower_mem (j := 2) hk (by decide)
    · rw [hWord]
      exact aroundPower_mem (j := 1) hk (by decide)
  | @negatedPower k hk e he =>
    have hWord : Int64.ofInt (-2 ^ k) = -(1 <<< Int64.ofNat k) := by
      rw [Int64.ofInt_neg, ofInt_two_pow hk]
    refine ofInt_add_mem ?_ ?_ ?_ he
    · rw [hWord]
      exact aroundPower_mem (j := 3) hk (by decide)
    · rw [hWord]
      exact aroundPower_mem (j := 5) hk (by decide)
    · rw [hWord]
      exact aroundPower_mem (j := 4) hk (by decide)

end DivisionAudit.Edges
