import DivisionAudit.Proofs.Audit.Stream
import DivisionAudit.Proofs.Expression.Exact

/-!
# The inputs of an interval

A scan of an interval goes up by one word at a time and stays within the words, at both of their
ends too. So the input at a position is the low end and the position together, and every word
between the ends is an input.

* `Interval.toInt_value`, `Interval.value_position`: inputs and positions.
* `Source.mem_toList_interval`: the inputs are the words between the ends.
* `Source.of_visits_interval_eq_append`: the inputs before a given one.
* `Interval.around`: the words up to a distance from zero.
-/

namespace DivisionAudit

namespace Interval

variable {i : Interval} {n : Int64}

theorem toInt_low_le_high (i : Interval) : i.low.toInt ≤ i.high.toInt :=
  Int64.le_iff_toInt_le.mp i.low_le_high

theorem toInt_value {k : Nat} (h : k < i.size) : (i.value k).toInt = i.low.toInt + k := by
  have hLow := i.low.le_toInt
  have hHigh := i.high.toInt_lt
  have hk : i.low.toInt + k ≤ i.high.toInt := by
    unfold size at h
    omega
  have hWord : (Int64.size : Int) = 2 ^ 64 := rfl
  rw [value, Int64.toInt_add, Int64.toInt_ofNat', Int.add_bmod_bmod]
  exact Int.bmod_eq_of_le (by omega) (by omega)

/-- The place of a word in the scan. -/
def position (i : Interval) (n : Int64) : Nat := (n.toInt - i.low.toInt).toNat

theorem toInt_position (h : i.low ≤ n) : (i.position n : Int) = n.toInt - i.low.toInt := by
  have hLow := Int64.le_iff_toInt_le.mp h
  unfold position
  omega

theorem position_lt_size (hHigh : n ≤ i.high) : i.position n < i.size := by
  have hu := Int64.le_iff_toInt_le.mp hHigh
  have hEnds := i.toInt_low_le_high
  unfold position size
  omega

theorem value_position (hLow : i.low ≤ n) (hHigh : n ≤ i.high) : i.value (i.position n) = n := by
  apply Int64.toInt_inj.mp
  rw [toInt_value (position_lt_size hHigh), toInt_position hLow]
  omega

theorem low_le_value {k : Nat} (h : k < i.size) : i.low ≤ i.value k := by
  rw [Int64.le_iff_toInt_le, toInt_value h]
  omega

theorem value_le_high {k : Nat} (h : k < i.size) : i.value k ≤ i.high := by
  rw [Int64.le_iff_toInt_le, toInt_value h]
  unfold size at h
  omega

end Interval

namespace Source

variable {i : Interval}

theorem toList_interval (i : Interval) :
    (interval i).pass.toList = (List.range i.size).map i.value := by
  rw [← map_input_visits, visits_interval, List.map_map]
  rfl

theorem mem_toList_interval {n : Int64} :
    n ∈ (interval i).pass.toList ↔ i.low ≤ n ∧ n ≤ i.high := by
  rw [toList_interval, List.mem_map]
  constructor
  · rintro ⟨k, hk, rfl⟩
    have hSize := List.mem_range.mp hk
    exact ⟨Interval.low_le_value hSize, Interval.value_le_high hSize⟩
  · rintro ⟨hLow, hHigh⟩
    exact ⟨i.position n, List.mem_range.mpr (Interval.position_lt_size hHigh),
      Interval.value_position hLow hHigh⟩

/-- An input stands at its distance from the low end, and all words from there on come before. -/
theorem of_visits_interval_eq_append {pre post : List (Visit .word)} {v : Visit .word}
    (h : (interval i).visits = pre ++ v :: post) :
    i.low ≤ v.input ∧ v.input ≤ i.high ∧ pre.length = i.position v.input ∧
      ∀ n, i.low ≤ n → n < v.input → ∃ u ∈ pre, u.input = n := by
  have hVisits := h
  rw [visits_interval] at hVisits
  have hLength : pre.length < i.size := by
    have hSize := congrArg List.length hVisits
    rw [List.length_map, List.length_range, List.length_append, List.length_cons] at hSize
    omega
  have hGet {k : Nat} (hk : k < i.size) (hk' : k < (pre ++ v :: post).length) :
      (pre ++ v :: post)[k].input = i.value k := by
    simp only [← hVisits, List.getElem_map, List.getElem_range]
  have hv : v.input = i.value pre.length := by
    rw [← hGet hLength (by simp), List.getElem_append_right (Nat.le_refl _)]
    simp
  have hLow : i.low ≤ v.input := hv ▸ Interval.low_le_value hLength
  have hHigh : v.input ≤ i.high := hv ▸ Interval.value_le_high hLength
  have hPosition : pre.length = i.position v.input := by
    have hInt := Interval.toInt_value hLength
    have hPlace := Interval.toInt_position hLow
    rw [← hv] at hInt
    omega
  refine ⟨hLow, hHigh, hPosition, ?_⟩
  intro n hn hLt
  have hBefore : i.position n < pre.length := by
    have hInt := Int64.lt_iff_toInt_lt.mp hLt
    have hPlace := Interval.toInt_position hn
    have hPlace' := Interval.toInt_position hLow
    omega
  refine ⟨pre[i.position n], List.getElem_mem hBefore, ?_⟩
  have hInput := hGet (Nat.lt_trans hBefore hLength) (by rw [List.length_append]; omega)
  rw [List.getElem_append_left hBefore] at hInput
  rw [hInput]
  exact Interval.value_position hn (Int64.le_of_lt (Int64.lt_of_lt_of_le hLt hHigh))

end Source

/-! ## Intervals around zero -/

namespace Interval

open Expression (toInt_neg_of_ne)

variable {radius n : Int64} (h : 0 ≤ radius)
include h

theorem toInt_neg_radius : (-radius).toInt = -radius.toInt := by
  apply toInt_neg_of_ne
  rintro rfl
  exact absurd h (by decide)

theorem neg_radius_le : -radius ≤ radius := by
  have h0 : 0 ≤ radius.toInt := Int64.le_iff_toInt_le.mp h
  rw [Int64.le_iff_toInt_le, toInt_neg_radius h]
  omega

/-- The words up to a distance from zero. -/
def around : Interval := ⟨-radius, radius, neg_radius_le h⟩

theorem make_around : make (-radius) radius = pure (around h) := dif_pos (neg_radius_le h)

theorem size_around : (around h).size = 2 * radius.toInt.toNat + 1 := by
  have h0 : 0 ≤ radius.toInt := Int64.le_iff_toInt_le.mp h
  simp only [size, around, toInt_neg_radius h]
  omega

theorem ne_minValue_of_around (hLow : -radius ≤ n) : n ≠ Int64.minValue := by
  rintro rfl
  have hl := Int64.le_iff_toInt_le.mp hLow
  have hu := radius.toInt_lt
  rw [toInt_neg_radius h, Int64.toInt_minValue] at hl
  omega

theorem neg_around (hLow : -radius ≤ n) (hHigh : n ≤ radius) : -radius ≤ -n ∧ -n ≤ radius := by
  have hNeg := toInt_neg_of_ne (ne_minValue_of_around h hLow)
  have hRadius := toInt_neg_radius h
  rw [Int64.le_iff_toInt_le] at hLow hHigh
  rw [Int64.le_iff_toInt_le, Int64.le_iff_toInt_le]
  omega

end Interval

end DivisionAudit
