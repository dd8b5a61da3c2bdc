import DivisionAudit.Proofs.Audit.Answers
import DivisionAudit.Proofs.Input.Interval

/-!
# Intervals scanned in two halves

An interval and its two halves, one scanned after the other, hand out the same inputs. So whatever
phases come before and after, a subject is asked the same questions in the same order. Only the
reports of answers inside the interval are placed anew: in the upper half the positions start again
from zero.

* `Interval.Halved`: an interval and its two halves, which may reach both ends of the words.
* `Interval.Halved.toList_eq`, `Interval.Halved.placed`: the inputs, and their places.
* `Audit.halved_verdict`: the verdicts and the reports of the two runs.
-/

namespace DivisionAudit

variable {d : Domain}

/-! ## Halves -/

namespace Interval

/-- The first half goes up from the low end, the second from the word after it to the high end. -/
structure Halved (whole left right : Interval) : Prop where
  low : left.low = whole.low
  next : right.low.toInt = left.high.toInt + 1
  high : right.high = whole.high

theorem toInt_next {mid high : Int64} (h : mid < high) : (mid + 1).toInt = mid.toInt + 1 := by
  have hLow := mid.le_toInt
  have hHigh := high.toInt_lt
  have hLt := Int64.lt_iff_toInt_lt.mp h
  have hOne : (1 : Int64).toInt = 1 := rfl
  rw [Int64.toInt_add, hOne]
  exact Int.bmod_eq_of_le (by omega) (by omega)

theorem next_le {mid high : Int64} (h : mid < high) : mid + 1 ≤ high := by
  have hLt := Int64.lt_iff_toInt_lt.mp h
  rw [Int64.le_iff_toInt_le, toInt_next h]
  omega

theorem make_of_le {low high : Int64} (h : low ≤ high) : make low high = pure ⟨low, high, h⟩ :=
  dif_pos h

theorem exists_halved {low mid high : Int64} (hLow : low ≤ mid) (hHigh : mid < high) :
    ∃ whole left right, make low high = pure whole ∧ make low mid = pure left ∧
      make (mid + 1) high = pure right ∧ Halved whole left right ∧
      whole.low = low ∧ left.high = mid ∧ whole.high = high :=
  have h := Int64.le_of_lt (Int64.lt_of_le_of_lt hLow hHigh)
  ⟨⟨low, high, h⟩, ⟨low, mid, hLow⟩, ⟨mid + 1, high, next_le hHigh⟩, make_of_le h,
    make_of_le hLow, make_of_le (next_le hHigh), ⟨rfl, toInt_next hHigh, rfl⟩, rfl, rfl, rfl⟩

namespace Halved

variable {whole left right : Interval} (h : Halved whole left right)
include h

theorem size_eq : whole.size = left.size + right.size := by
  have hLeft := left.toInt_low_le_high
  have hRight := right.toInt_low_le_high
  have hNext := h.next
  unfold size
  rw [← h.low, ← h.high]
  omega

theorem value_left (k : ℕ) : whole.value k = left.value k := by
  rw [value, value, h.low]

theorem value_right {k : ℕ} (hk : k < right.size) :
    whole.value (left.size + k) = right.value k := by
  have hWhole : left.size + k < whole.size := by
    rw [h.size_eq]
    omega
  have hLeft := left.toInt_low_le_high
  have hNext := h.next
  have hSize : (left.size : ℤ) = left.high.toInt - left.low.toInt + 1 := by
    unfold size
    omega
  apply Int64.toInt_inj.mp
  rw [toInt_value hWhole, toInt_value hk, ← h.low]
  omega

theorem toList_eq : (Source.interval whole).pass.toList =
    (Source.interval left).pass.toList ++ (Source.interval right).pass.toList := by
  rw [Source.toList_interval, Source.toList_interval, Source.toList_interval, h.size_eq,
    List.range_add, List.map_append, List.map_map]
  congr 1
  · exact List.map_congr_left fun k _ => h.value_left k
  · exact List.map_congr_left fun k hk => h.value_right (List.mem_range.mp hk)

/-- The inputs up to the middle are those of the first half. -/
theorem value_le_iff {k : ℕ} (hk : k < whole.size) : whole.value k ≤ left.high ↔ k < left.size := by
  have hLeft := left.toInt_low_le_high
  rw [Int64.le_iff_toInt_le, toInt_value hk, ← h.low]
  unfold size
  omega

end Halved

end Interval

/-! ## Places -/

theorem Source.length_visits_interval (i : Interval) : (interval i).visits.length = i.size := by
  rw [visits_interval, List.length_map, List.length_range]

theorem Source.visit_interval {i : Interval} {k : ℕ} {v : Visit .word}
    (h : (interval i).visits[k]? = some v) :
    k < i.size ∧ v = ⟨(interval i).label, k, i.value k⟩ := by
  rw [visits_interval, List.getElem?_map, Option.map_eq_some_iff] at h
  obtain ⟨k', hk, rfl⟩ := h
  obtain ⟨hLt, rfl⟩ := List.getElem?_eq_some_iff.mp hk
  rw [List.length_range] at hLt
  rw [List.getElem_range]
  exact ⟨hLt, rfl⟩

/-- A place in a list is the same in another one whose middle part has the same length, or it is in
that part. -/
theorem place_of_replaced {α : Type} {front mid mid' back : List α} {n : ℕ} {a a' : α}
    (hLength : mid'.length = mid.length) (h : (front ++ (mid ++ back))[n]? = some a)
    (h' : (front ++ (mid' ++ back))[n]? = some a') :
    ((n < front.length ∨ front.length + mid.length ≤ n) ∧ a' = a) ∨
      (front.length ≤ n ∧ n < front.length + mid.length ∧ mid[n - front.length]? = some a ∧
        mid'[n - front.length]? = some a') := by
  by_cases hFront : n < front.length
  · rw [List.getElem?_append_left hFront] at h h'
    exact .inl ⟨.inl hFront, Option.some.inj (h'.symm.trans h)⟩
  · rw [List.getElem?_append_right (Nat.le_of_not_lt hFront)] at h h'
    by_cases hMid : n - front.length < mid.length
    · rw [List.getElem?_append_left hMid] at h
      rw [List.getElem?_append_left (hLength ▸ hMid)] at h'
      exact .inr ⟨by omega, by omega, h, h'⟩
    · rw [List.getElem?_append_right (by omega)] at h h'
      rw [hLength] at h'
      exact .inl ⟨.inr (by omega), Option.some.inj (h'.symm.trans h)⟩

/-- Two reports of one answer, perhaps at different places. -/
structure Discrepancy.SameAnswer (r r' : Discrepancy) : Prop where
  operation : r'.operation = r.operation
  input : r'.input = r.input
  expected : r'.expected = r.expected
  actual : r'.actual = r.actual

namespace Audit

section Streams

variable {whole left right : Interval} (h : Interval.Halved whole left right)
  (pre post : List (Source .word))
include h

theorem map_input_stream_halved :
    (stream (pre ++ [.interval left, .interval right] ++ post)).map Visit.input =
      (stream (pre ++ [.interval whole] ++ post)).map Visit.input := by
  have hHalves : (Source.interval left).visits.map Visit.input ++
      (Source.interval right).visits.map Visit.input =
        (Source.interval whole).visits.map Visit.input := by
    rw [Source.map_input_visits, Source.map_input_visits, Source.map_input_visits, h.toList_eq]
  simp only [stream, List.flatMap_append, List.flatMap_cons, List.flatMap_nil, List.append_nil,
    List.map_append, hHalves]

/-- An input at a place outside the interval is placed by both lists of sources in the same way. One
inside is placed by its half. -/
theorem placed_of_halved {pre post : List (Source .word)} {n : ℕ} {v v' : Visit .word}
    (hv : (stream (pre ++ [.interval whole] ++ post))[n]? = some v)
    (hv' : (stream (pre ++ [.interval left, .interval right] ++ post))[n]? = some v') :
    ((n < (stream pre).length ∨ (stream pre).length + whole.size ≤ n) ∧ v' = v) ∨
      ((stream pre).length ≤ n ∧ n < (stream pre).length + whole.size ∧
        ∃ k < whole.size, v = ⟨(Source.interval whole).label, k, whole.value k⟩ ∧
          (k < left.size → v'.phase = (Source.interval left).label ∧ v'.index = k) ∧
          (left.size ≤ k → v'.phase = (Source.interval right).label ∧
            v'.index + left.size = k)) := by
  have hSize := Source.length_visits_interval
  simp only [stream, List.flatMap_append, List.flatMap_cons, List.flatMap_nil, List.append_nil,
    List.append_assoc] at hv hv'
  rw [← List.append_assoc (Source.interval left).visits] at hv'
  have hLength : ((Source.interval left).visits ++ (Source.interval right).visits).length =
      (Source.interval whole).visits.length := by
    rw [List.length_append, hSize, hSize, hSize, h.size_eq]
  rcases place_of_replaced hLength hv hv' with ⟨hOutside, hSame⟩ | ⟨hLow, hHigh, hWhole, hHalf⟩
  · rw [hSize] at hOutside
    exact .inl ⟨hOutside, hSame⟩
  · rw [hSize] at hHigh
    obtain ⟨hk, rfl⟩ := Source.visit_interval hWhole
    refine .inr ⟨hLow, hHigh, _, hk, rfl, ?_, ?_⟩
    · intro hLeft
      rw [List.getElem?_append_left (by rwa [hSize])] at hHalf
      obtain ⟨-, rfl⟩ := Source.visit_interval hHalf
      exact ⟨rfl, rfl⟩
    · intro hRight
      rw [List.getElem?_append_right (by rwa [hSize]), hSize] at hHalf
      obtain ⟨-, rfl⟩ := Source.visit_interval hHalf
      exact ⟨rfl, Nat.sub_add_cancel hRight⟩

end Streams

/-! ## Runs -/

/-- The run whose calls these are ends in the phase of a source that comes after others. -/
def EndsWithin (pre : List (Source d)) (s : Source d) (calls : List d.Value) : Prop :=
  (stream pre).length < calls.length ∧ calls.length ≤ (stream pre).length + s.pass.toList.length

theorem endsWithin_interval_iff {pre : List (Source .word)} {i : Interval} {calls : List Int64}
    {n : ℕ} (h : calls.length = n + 1) : EndsWithin pre (.interval i) calls ↔
      (stream pre).length ≤ n ∧ n < (stream pre).length + i.size := by
  rw [EndsWithin, h, ← Source.length_visits, Source.length_visits_interval]
  omega

/-- The report of an answer by the halves, from that by the whole interval. -/
theorem relocated_of_halved {whole left right : Interval} (h : Interval.Halved whole left right)
    {pre post : List (Source .word)} {n : ℕ} {v v' : Visit .word}
    (hv : (stream (pre ++ [.interval whole] ++ post))[n]? = some v)
    (hv' : (stream (pre ++ [.interval left, .interval right] ++ post))[n]? = some v')
    {calls : List Int64} (hn : calls.length = n + 1) :
    (¬ EndsWithin pre (.interval whole) calls → v'.phase = v.phase ∧ v'.index = v.index) ∧
    (EndsWithin pre (.interval whole) calls →
      v.phase = (Source.interval whole).label ∧ whole.low ≤ v.input ∧ v.input ≤ whole.high ∧
      (v.input ≤ left.high →
        v'.phase = (Source.interval left).label ∧ v'.index = v.index) ∧
      (left.high < v.input → v'.phase = (Source.interval right).label ∧
        (v'.index : ℤ) = v.index - (left.high.toInt - whole.low.toInt + 1))) := by
  rw [endsWithin_interval_iff hn]
  rcases placed_of_halved h hv hv' with
    ⟨hOutside, rfl⟩ | ⟨hLow, hHigh, k, hk, rfl, hLeft, hRight⟩
  · exact ⟨fun _ => ⟨rfl, rfl⟩, fun hInside => absurd hInside (by omega)⟩
  · refine ⟨fun hOutside => absurd ⟨hLow, hHigh⟩ hOutside, fun _ => ⟨rfl,
      Interval.low_le_value hk, Interval.value_le_high hk, ?_, ?_⟩⟩
    · intro hInput
      exact hLeft ((h.value_le_iff hk).mp hInput)
    · intro hInput
      have hNot := mt (h.value_le_iff hk).mpr (Int64.not_le.mpr hInput)
      obtain ⟨hPhase, hIndex⟩ := hRight (Nat.le_of_not_lt hNot)
      refine ⟨hPhase, ?_⟩
      have hEnds := left.toInt_low_le_high
      have hSize : (left.size : ℤ) = left.high.toInt - left.low.toInt + 1 := by
        unfold Interval.size
        omega
      rw [← h.low]
      dsimp only
      omega

/-- Any interval is made of two halves that are split at a word below its high end. Whatever phases
come before and after, and whatever state the subject keeps, the runs over the whole and over the
halves ask for the same inputs and have the same verdict and, if they pass, the same total. If they
fail they report the same answer. Its place is the same, unless the phase that fails is the
interval: then it is the place in the half that the input is in. -/
theorem halved_verdict {low mid high : Int64} (hLow : low ≤ mid) (hHigh : mid < high) :
    ∃ whole left right : Interval, (Interval.make low high).result = .ok whole ∧
      (Interval.make low mid).result = .ok left ∧
      (Interval.make (mid + 1) high).result = .ok right ∧
      ∀ (pre post : List (Source .word)) (op : Operation .word) {τ σ σ' : Type}
        (target : Int64 → StateM τ Int64) (host : Host (StateM σ)) (host' : Host (StateM σ'))
        (observer observer' : Option Observer) (t : τ) (st : σ) (st' : σ'),
        let sources := pre ++ [.interval whole] ++ post
        let halved := pre ++ [.interval left, .interval right] ++ post
        (stream sources).length < 2 ^ 64 →
        let out := attend (run ⟨sources, observer⟩ (attended host target) op) [] t st
        let out' := attend (run ⟨halved, observer'⟩ (attended host' target) op) [] t st'
        out'.2.1 = out.2.1 ∧
        ((∃ summary, out'.1 = .ok summary) ↔ ∃ summary, out.1 = .ok summary) ∧
        (∀ summary summary', out.1 = .ok summary → out'.1 = .ok summary' →
          summary'.totalInputs = summary.totalInputs ∧ summary.totalInputs < 2 ^ 64) ∧
        (∀ fault, out.1 = .error fault → ∃ r r', fault = .mismatch r ∧
          out'.1 = .error (.mismatch r') ∧ r.SameAnswer r' ∧
          r.index < 2 ^ 64 ∧ r'.index < 2 ^ 64 ∧
          (¬ EndsWithin pre (.interval whole) out.2.1 →
            r'.phase = r.phase ∧ r'.index = r.index) ∧
          (EndsWithin pre (.interval whole) out.2.1 →
            r.phase = (Source.interval whole).label ∧
            ∃ x, r.input = .word x ∧ low ≤ x ∧ x ≤ high ∧
              (x ≤ mid → r'.phase = (Source.interval left).label ∧ r'.index = r.index) ∧
              (mid < x → r'.phase = (Source.interval right).label ∧
                (r'.index : ℤ) = r.index - (mid.toInt - low.toInt + 1)))) := by
  obtain ⟨whole, left, right, hWhole, hLeft, hRight, h, rfl, rfl, rfl⟩ :=
    Interval.exists_halved hLow hHigh
  refine ⟨whole, left, right, congrArg Attempt.result hWhole, congrArg Attempt.result hLeft,
    congrArg Attempt.result hRight, ?_⟩
  intro pre post op τ σ σ' target host host' observer observer' t st st' sources halved hFits out
    out'
  have hInputs := map_input_stream_halved h pre post
  have hLength : (stream halved).length = (stream sources).length := by
    simpa only [List.length_map] using congrArg List.length hInputs
  obtain ⟨hCalls, hVerdict⟩ := attend_run_of_same_inputs host target op observer hInputs host'
    observer' t st st'
  refine ⟨hCalls, ?_⟩
  rcases hVerdict with ⟨summary, summary', hOk, hOk', hTotal, hTotal'⟩ |
    ⟨n, o, v, v', hv, hv', hInput, hn, hError, hError'⟩
  · refine ⟨iff_of_true ⟨summary', hOk'⟩ ⟨summary, hOk⟩, ?_, ?_⟩
    · intro s s' hs hs'
      cases hOk.symm.trans hs
      cases hOk'.symm.trans hs'
      exact ⟨hTotal'.trans hTotal.symm, hTotal ▸ hFits⟩
    · intro fault hFault
      cases hOk.symm.trans hFault
  · have hNot {r : Except Fault RunSummary} {fault : Fault} (hr : r = .error fault) :
        ¬ ∃ summary, r = .ok summary := by
      rintro ⟨summary, hOk⟩
      cases hr.symm.trans hOk
    refine ⟨iff_of_false (hNot hError') (hNot hError), ?_, ?_⟩
    · intro s s' hs
      exact absurd ⟨s, hs⟩ (hNot hError)
    · intro fault hFault
      cases hError.symm.trans hFault
      have hIndex := index_lt_length_stream (List.mem_of_getElem? hv)
      have hIndex' := index_lt_length_stream (List.mem_of_getElem? hv')
      obtain ⟨hOutside, hInside⟩ := relocated_of_halved h hv hv' hn
      refine ⟨_, _, rfl, hError', ⟨rfl, rfl, rfl, rfl⟩,
        Nat.lt_trans hIndex hFits, Nat.lt_trans hIndex' (hLength ▸ hFits), hOutside, ?_⟩
      intro hEnds
      obtain ⟨hPhase, hPlace⟩ := hInside hEnds
      exact ⟨hPhase, v.input, congrArg Quantity.of hInput.symm, hPlace⟩

/-- The word that a run reports, with its position. -/
def reportedWord? : Except Fault RunSummary → Option (ℕ × Int64)
  | .error (.mismatch ⟨_, _, index, .word input, _, _⟩) => some (index, input)
  | _ => none

/-- The fifth answer is wrong: it is the last one in the interval, at the greatest word, and the
only one of the upper half. -/
theorem halved_verdict_greatest :
    let low : Int64 := Int64.maxValue - 2
    let mid : Int64 := Int64.maxValue - 1
    let target : Int64 → StateM ℕ Int64 := fun n asked =>
      (if asked = 4 then 0 else Expression.primary n, asked + 1)
    let host : Host (StateM (List Signal)) := (Bench.recording (d := .word) pure).toHost
    let first : Source .word := .interval ⟨5, 6, by decide⟩
    let sources : List (Source .word) := [first, .interval ⟨low, Int64.maxValue, by decide⟩, .edges]
    let halved : List (Source .word) := [first, .interval ⟨low, mid, by decide⟩,
      .interval ⟨mid + 1, Int64.maxValue, by decide⟩, .edges]
    low ≤ mid ∧ mid < Int64.maxValue ∧ (stream sources).length < 2 ^ 64 ∧
    ∃ r r', (attend (run ⟨sources, none⟩ (attended host target) .primary) [] 0 []).1 =
        .error (.mismatch r) ∧
      (attend (run ⟨halved, none⟩ (attended host target) .primary) [] 0 []).1 =
        .error (.mismatch r') ∧
      r.SameAnswer r' ∧ r.index = 2 ∧ r'.index = 0 := by
  intro low mid target host first sources halved
  have hLow : low ≤ mid := by decide
  have hHigh : mid < Int64.maxValue := by decide
  have hEnds : low ≤ Int64.maxValue := by decide
  obtain ⟨whole, left, right, hWhole, hLeft, hRight, hRuns⟩ := halved_verdict hLow hHigh
  rw [Interval.make_of_le hEnds] at hWhole
  rw [Interval.make_of_le hLow] at hLeft
  rw [Interval.make_of_le (Interval.next_le hHigh)] at hRight
  cases hWhole
  cases hLeft
  cases hRight
  have hFits : (stream sources).length < 2 ^ 64 := by
    rw [length_stream]
    decide +kernel
  obtain ⟨-, -, -, hReport⟩ :=
    hRuns [first] [.edges] .primary target host host none none 0 [] [] hFits
  have hCalls : (attend (run ⟨sources, none⟩ (attended host target) .primary) [] 0 []).2.1 =
      [5, 6, low, mid, Int64.maxValue] := by decide +kernel
  have hPlace : reportedWord?
      (attend (run ⟨sources, none⟩ (attended host target) .primary) [] 0 []).1 =
        some (2, Int64.maxValue) := by decide +kernel
  cases hOut : (attend (run ⟨sources, none⟩ (attended host target) .primary) [] 0 []).1 with
  | ok summary =>
    rw [hOut] at hPlace
    cases hPlace
  | error fault =>
    obtain ⟨r, r', rfl, hOut', hSame, -, -, -, hInside⟩ := hReport fault hOut
    have hEndsWithin : EndsWithin [first] (.interval ⟨low, Int64.maxValue, by decide⟩)
        [5, 6, low, mid, Int64.maxValue] := by
      rw [EndsWithin, length_stream]
      decide +kernel
    rw [← hCalls] at hEndsWithin
    obtain ⟨-, x, hInput, -, -, -, hUpper⟩ := hInside hEndsWithin
    obtain ⟨operation, phase, index, input, expected, actual⟩ := r
    cases hInput
    rw [hOut] at hPlace
    cases hPlace
    obtain ⟨-, hIndex⟩ := hUpper hHigh
    have hDistance : mid.toInt - low.toInt + 1 = 2 := by decide
    rw [hDistance] at hIndex
    have hFirst : r'.index = 0 := by
      dsimp only at hIndex
      omega
    exact ⟨hLow, hHigh, hFits, _, _, rfl, hOut', hSame, rfl, hFirst⟩

end Audit

end DivisionAudit
