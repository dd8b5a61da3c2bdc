import DivisionAudit.Proofs.Generator.Acceptance
import DivisionAudit.Proofs.Input.Pass

/-!
# The number of inputs of a source

A source tells the number of its inputs from its parameters. It is the number that a pass hands out,
with one gap: the length of an interval is a distance and one more, held at the greatest word, which
so stands for `2 ^ 64` too; an interval of `2 ^ 64 - 1` words tells no number although a word could
hold it.

* `Interval.toNat_length`: the length against the number of words that a scan comes to.
* `Source.length_toList_pass`: the inputs of a pass, for each kind of source.
* `Source.inputCount_eq_some_length_iff`: which sources tell their number, and that it is right.
* `Source.inputCount_all_but_least`: an interval that does not tell it.
-/

namespace DivisionAudit

variable {d : Domain}

theorem Pass.length_toList_words (g : Twister) (n : ℕ) : (Pass.words g n).toList.length = n := by
  induction n generalizing g with
  | zero => rw [toList_of_next?_eq_none rfl, List.length_nil]
  | succ n ih =>
    have hNext : (Pass.words g (n + 1)).next? = some ((drawWord g).1, .words (drawWord g).2 n) :=
      rfl
    rw [toList_of_next?_eq_some hNext, List.length_cons, ih]

theorem Pass.length_toList_walk (w : Walk d.Value) : (Pass.walk w).toList.length = w.remaining := by
  rw [toList_walk, List.length_map, List.length_range]

/-! ## The length of an interval -/

namespace Interval

theorem toInt_eq_bmod (n : Int64) : n.toInt = (n.toUInt64.toNat : ℤ).bmod (2 ^ 64) :=
  BitVec.toInt_eq_toNat_bmod n.toBitVec

theorem toNat_distance (m n : Int64) : (distance m n).toNat = (m.toInt - n.toInt).natAbs := by
  have hm := m.toUInt64.toNat_lt
  have hn := n.toUInt64.toNat_lt
  have hmInt := toInt_eq_bmod m
  have hnInt := toInt_eq_bmod n
  rw [Int.bmod_def] at hmInt hnInt
  rw [distance]
  split
  · next hLess =>
    rw [Int64.lt_iff_toInt_lt] at hLess
    rw [UInt64.toNat_sub]
    omega
  · next hLess =>
    rw [Int64.lt_iff_toInt_lt] at hLess
    rw [UInt64.toNat_sub]
    omega

theorem toNat_saturatingAdd (m n : UInt64) :
    (saturatingAdd m n).toNat = min (m.toNat + n.toNat) (2 ^ 64 - 1) := by
  have hm := m.toNat_lt
  have hn := n.toNat_lt
  have hGreatest : (UInt64.ofNat (UInt64.size - 1)).toNat = 2 ^ 64 - 1 := rfl
  rw [saturatingAdd]
  -- A sum that wraps is below either of its terms.
  split
  · next hWraps =>
    rw [UInt64.lt_iff_toNat_lt, UInt64.toNat_add] at hWraps
    omega
  · next hFits =>
    rw [UInt64.lt_iff_toNat_lt, UInt64.toNat_add] at hFits
    rw [UInt64.toNat_add]
    omega

theorem toNat_length (i : Interval) : i.length.toNat = min i.size (2 ^ 64 - 1) := by
  have hEnds := Int64.le_iff_toInt_le.mp i.low_le_high
  have hOne : (1 : UInt64).toNat = 1 := rfl
  rw [length, toNat_saturatingAdd, toNat_distance, hOne, size]
  omega

end Interval

namespace Source

/-- The number of inputs, from the parameters, where no word bounds it. -/
def size : {d : Domain} → Source d → ℕ
  | _, .edges => Edges.count
  | _, .sweep s => s.count.toNat
  | _, .interval i => i.size
  | _, .uniform _ count => count.toNat
  | _, .specials => 13
  | _, .powers => Powers.count
  | _, .decades _ count => count.toNat

theorem length_toList_pass (s : Source d) : s.pass.toList.length = s.size := by
  cases s with
  | edges | sweep s | interval i => exact Pass.length_toList_walk (d := .word) _
  | uniform seed count => exact Pass.length_toList_words _ _
  | specials | powers => exact Pass.length_toList_walk (d := .double) _
  | decades seed count => exact Permuted.length_toList_doubles (Permuted.ofSeed_odd _ _) _

/-! ## The number that is told -/

/-- An interval of all words but one. -/
def IsAllButOne : {d : Domain} → Source d → Prop
  | _, .interval i => i.size = 2 ^ 64 - 1
  | _, _ => False

theorem inputCount_interval_eq_some_iff (i : Interval) (k : UInt64) :
    (interval i).inputCount = some k ↔ k.toNat = i.size ∧ i.size ≠ 2 ^ 64 - 1 := by
  have hLength := i.toNat_length
  have hGreatest : (UInt64.ofNat (UInt64.size - 1)).toNat = 2 ^ 64 - 1 := rfl
  have hk := k.toNat_lt
  simp only [inputCount, ← UInt64.toNat_inj, hGreatest, hLength]
  split
  · next hLong =>
    refine iff_of_false nofun ?_
    omega
  · next hShort =>
    rw [Option.some.injEq, ← UInt64.toNat_inj, hLength]
    omega

theorem some_eq_some_iff_toNat_eq (count k : UInt64) :
    some count = some k ↔ k.toNat = count.toNat := by
  rw [Option.some.injEq, ← UInt64.toNat_inj, eq_comm]

theorem inputCount_eq_some_iff (s : Source d) (k : UInt64) :
    s.inputCount = some k ↔ k.toNat = s.size ∧ ¬ s.IsAllButOne := by
  cases s with
  | interval i => exact inputCount_interval_eq_some_iff i k
  | edges | sweep s | uniform seed count | specials | powers | decades seed count =>
    exact (some_eq_some_iff_toNat_eq _ k).trans (and_iff_left not_false).symm

theorem inputCount_eq_none_iff (s : Source d) :
    s.inputCount = none ↔ 2 ^ 64 ≤ s.size ∨ s.IsAllButOne := by
  simp only [Option.eq_none_iff_forall_ne_some, ne_eq, inputCount_eq_some_iff, not_and_not_right]
  constructor
  · intro h
    by_cases hSize : s.size < 2 ^ 64
    · exact .inr (h (UInt64.ofNat s.size) (UInt64.toNat_ofNat_of_lt' hSize))
    · exact .inl (Nat.le_of_not_lt hSize)
  · rintro (h | h) k hk
    · have := k.toNat_lt
      omega
    · exact h

/-- The number of inputs is told exactly where it fits a word and the source is not an interval of
all words but one; for such an interval it fits and is not told. -/
theorem inputCount_eq_some_length_iff (s : Source d) :
    (∀ k, s.inputCount = some k ↔ k.toNat = s.pass.toList.length ∧ ¬ s.IsAllButOne) ∧
    (s.inputCount = none ↔ 2 ^ 64 ≤ s.pass.toList.length ∨ s.IsAllButOne) := by
  rw [length_toList_pass]
  exact ⟨inputCount_eq_some_iff s, inputCount_eq_none_iff s⟩

/-- All words but the least one: their number is the greatest word, and it is not told. -/
theorem inputCount_all_but_least :
    let i : Interval := ⟨Int64.minValue + 1, Int64.maxValue, by decide⟩
    (Interval.make (Int64.minValue + 1) Int64.maxValue).result = .ok i ∧
    (interval i).pass.toList.length = 2 ^ 64 - 1 ∧ (interval i).inputCount = none := by
  intro i
  have hSize : i.size = 2 ^ 64 - 1 := by decide
  refine ⟨rfl, ?_, (inputCount_eq_none_iff _).mpr (.inr hSize)⟩
  rw [length_toList_pass]
  exact hSize

end Source

end DivisionAudit
