import DivisionAudit.Proofs.Input.Interval
import DivisionAudit.Proofs.Input.Count

/-!
# Calls on a pass

A pass is asked for its inputs one call after the other, also when it has none left. What a call
answers and what it leaves are the head and the tail of the inputs before it, so the answers of any
number of calls follow by induction. The number that a pass keeps of its inputs still to come is
their true number at the start, and every call takes one off both, so the size hint is exact at
every moment. The whole range of words is the one source with more inputs than a word can count, and
it has one less after the first call.

* `Pass.call`, `Pass.afterCalls`: one call, and the pass after a number of them.
* `Pass.toList_afterCalls`: the inputs that are left.
* `Pass.Exact`: the number that is kept is right.
* `Source.calls_answered`: answers and size hints of every call on every source, and the inputs of
  an interval.
-/

namespace DivisionAudit

variable {d : Domain}

namespace Pass

/-- One call: the next input, if there is one, and the pass after it. -/
def call (p : Pass d) : Option d.Value × Pass d :=
  match p.next? with
  | none => (none, p)
  | some (v, p') => (some v, p')

/-- The pass after a number of calls. -/
def afterCalls (p : Pass d) : ℕ → Pass d
  | 0 => p
  | k + 1 => (p.afterCalls k).call.2

/-! ## Answers -/

theorem fst_call (p : Pass d) : p.call.1 = p.toList.head? := by
  unfold call
  split
  · next h => rw [toList_of_next?_eq_none h, List.head?_nil]
  · next v p' h => rw [toList_of_next?_eq_some h, List.head?_cons]

theorem toList_snd_call (p : Pass d) : p.call.2.toList = p.toList.tail := by
  unfold call
  split
  · next h => rw [toList_of_next?_eq_none h, List.tail_nil]
  · next v p' h => rw [toList_of_next?_eq_some h, List.tail_cons]

theorem toList_afterCalls (p : Pass d) (k : ℕ) : (p.afterCalls k).toList = p.toList.drop k := by
  induction k with
  | zero => rw [afterCalls, List.drop_zero]
  | succ k ih => rw [afterCalls, toList_snd_call, ih, List.tail_drop]

theorem fst_call_afterCalls (p : Pass d) (k : ℕ) : (p.afterCalls k).call.1 = p.toList[k]? := by
  rw [fst_call, toList_afterCalls, List.head?_drop]

/-! ## Hints -/

/-- The number that the pass keeps is the number of its inputs. -/
def Exact (p : Pass d) : Prop := p.remaining = p.toList.length

theorem Exact.call {p : Pass d} (h : p.Exact) : p.call.2.Exact := by
  unfold Exact at h ⊢
  unfold Pass.call
  split
  · exact h
  · next v p' hNext =>
    rw [remaining_of_next? hNext, toList_of_next?_eq_some hNext, List.length_cons] at h
    exact Nat.succ.inj h

theorem Exact.afterCalls {p : Pass d} (h : p.Exact) (k : ℕ) : (p.afterCalls k).Exact := by
  induction k with
  | zero => exact h
  | succ k ih => exact ih.call

theorem Exact.remaining_afterCalls {p : Pass d} (h : p.Exact) (k : ℕ) :
    (p.afterCalls k).remaining = p.toList.length - min k p.toList.length := by
  rw [h.afterCalls k, toList_afterCalls, List.length_drop]
  omega

theorem sizeHint_of_le {p : Pass d} (h : p.remaining ≤ 2 ^ 64) : p.sizeHint =
    if p.remaining = 2 ^ 64 then ⟨2 ^ 64 - 1, none⟩ else ⟨p.remaining, some p.remaining⟩ := by
  have hSize : UInt64.size = 2 ^ 64 := rfl
  unfold sizeHint
  rw [hSize]
  split
  · next hLt => rw [if_neg (Nat.ne_of_lt hLt)]
  · next hGe => rw [if_pos (by omega)]

end Pass

namespace Source

/-- The interval of all words. -/
def IsWhole : {d : Domain} → Source d → Prop
  | _, .interval i => i.low = Int64.minValue ∧ i.high = Int64.maxValue
  | _, _ => False

theorem exact_pass (s : Source d) : s.pass.Exact := by
  rw [Pass.Exact, length_toList_pass]
  cases s with
  | edges | sweep s | interval i | uniform seed count => rfl
  | specials | powers | decades seed count => rfl

theorem size_interval_le (i : Interval) : i.size ≤ 2 ^ 64 := by
  have hLow := i.low.le_toInt
  have hHigh := i.high.toInt_lt
  unfold Interval.size
  omega

theorem size_interval_eq_iff (i : Interval) :
    i.size = 2 ^ 64 ↔ i.low = Int64.minValue ∧ i.high = Int64.maxValue := by
  have hLow := i.low.le_toInt
  have hHigh := i.high.toInt_lt
  rw [← Int64.toInt_inj, ← Int64.toInt_inj, Int64.toInt_minValue, Int64.toInt_maxValue,
    Interval.size]
  omega

theorem size_le (s : Source d) : s.size ≤ 2 ^ 64 := by
  cases s with
  | interval i => exact size_interval_le i
  | sweep s => exact s.count.toNat_lt.le
  | uniform seed count | decades seed count => exact count.toNat_lt.le
  | edges | specials | powers => decide

theorem size_eq_iff (s : Source d) : s.size = 2 ^ 64 ↔ s.IsWhole := by
  cases s with
  | interval i => exact size_interval_eq_iff i
  | sweep s => exact iff_of_false s.count.toNat_lt.ne not_false
  | uniform seed count | decades seed count => exact iff_of_false count.toNat_lt.ne not_false
  | edges | specials | powers => exact iff_of_false (by decide) not_false

theorem map_toInt_toList_interval (i : Interval) :
    (interval i).pass.toList.map Int64.toInt =
      (List.range (i.high.toInt - i.low.toInt + 1).toNat).map fun (n : ℕ) => i.low.toInt + n := by
  rw [toList_interval, List.map_map]
  exact List.map_congr_left fun n hn => Interval.toInt_value (List.mem_range.mp hn)

/-- The call after `k` calls answers with the input at the place `k`, so with an input as long as
there are any and with none ever after. The hint after `k` calls is the number of inputs that are
left, but where that is `2 ^ 64`, which it is before the first call on the interval of all words.
The inputs of an interval go up by one from its low end to its high end, at the ends of the words
too. -/
theorem calls_answered (s : Source d) (k : ℕ) (i : Interval) :
    let inputs := s.pass.toList
    let after := s.pass.afterCalls k
    let left := inputs.length - min k inputs.length
    (after.call.1 = inputs[k]? ∧ (after.call.1.isSome = true ↔ k < inputs.length)) ∧
    (after.sizeHint = (if left = 2 ^ 64 then ⟨2 ^ 64 - 1, none⟩ else ⟨left, some left⟩) ∧
      (left = 2 ^ 64 ↔ k = 0 ∧ s.IsWhole)) ∧
    (interval i).pass.toList.map Int64.toInt =
      (List.range (i.high.toInt - i.low.toInt + 1).toNat).map fun (n : ℕ) => i.low.toInt + n := by
  intro inputs after left
  have hAnswer : after.call.1 = inputs[k]? := Pass.fst_call_afterCalls s.pass k
  have hLeft : after.remaining = left := s.exact_pass.remaining_afterCalls k
  have hLength : inputs.length = s.size := length_toList_pass s
  have hSize := s.size_le
  refine ⟨⟨hAnswer, ?_⟩, ⟨?_, ?_⟩, map_toInt_toList_interval i⟩
  · rw [hAnswer, isSome_getElem?]
  · have hLe : after.remaining ≤ 2 ^ 64 := by omega
    rw [Pass.sizeHint_of_le hLe, hLeft]
  · rw [← size_eq_iff, ← hLength]
    omega

end Source

end DivisionAudit
