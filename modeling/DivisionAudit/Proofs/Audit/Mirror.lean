import DivisionAudit.Proofs.Audit.Interval
import DivisionAudit.Proofs.Expression.Primary
import DivisionAudit.Subject

/-!
# Mirrored subjects

The primary expression is odd, so a mirrored function is right at a number exactly when the function
is right at its negation. Over an interval around zero both runs have the same verdict; where they
fail, the scan of the mirrored function meets the wrong answers from the other side, and its first
one is the last one of the function.

* `accepts_mirrored`: one input.
* `forall_mirrored_iff`, `exists_greatest_of_around`: an interval around zero.
* `mirrored_primary_verdict`: the verdicts and the report.
-/

namespace DivisionAudit.Audit

open Expression (primary primary_neg toInt_neg_of_ne)
open DivisionAudit.Interval (around ne_minValue_of_around neg_around toInt_neg_radius)

/-! ## One input -/

theorem accepts_mirrored (f : Int64 → Int64) {n : Int64} (h : n ≠ Int64.minValue) :
    Operation.primary.accepts (mirrored f) n = Operation.primary.accepts f (-n) := by
  rw [Bool.eq_iff_iff, Operation.accepts_word_iff, Operation.accepts_word_iff, mirrored, if_neg h]
  change -f (-n) = primary n ↔ f (-n) = primary (-n)
  rw [primary_neg h]
  constructor
  · intro e
    rw [← e, Int64.neg_neg]
  · intro e
    rw [e, Int64.neg_neg]

theorem accepts_mirrored_primary (n : Int64) :
    Operation.primary.accepts (mirrored Operation.primary.reference) n = true := by
  by_cases h : n = Int64.minValue
  · rw [Operation.accepts_word_iff, mirrored, if_pos h]
  · rw [accepts_mirrored _ h, Operation.accepts_word_iff]

/-! ## Intervals around zero -/

section Around

variable {R : Int64} (hR : 0 ≤ R) (f : Int64 → Int64)
include hR

theorem forall_mirrored_iff :
    (∀ n, -R ≤ n → n ≤ R → Operation.primary.accepts (mirrored f) n = true) ↔
      ∀ n, -R ≤ n → n ≤ R → Operation.primary.accepts f n = true := by
  constructor
  · intro h n hLow hHigh
    obtain ⟨hLow', hHigh'⟩ := neg_around hR hLow hHigh
    have hNeg := h (-n) hLow' hHigh'
    rwa [accepts_mirrored f (ne_minValue_of_around hR hLow'), Int64.neg_neg] at hNeg
  · intro h n hLow hHigh
    obtain ⟨hLow', hHigh'⟩ := neg_around hR hLow hHigh
    rw [accepts_mirrored f (ne_minValue_of_around hR hLow)]
    exact h (-n) hLow' hHigh'

/-- The least wrong answer of a mirrored function is the greatest one of the function. -/
theorem greatest_of_least_mirrored {a : Int64} (hLow : -R ≤ a) (hHigh : a ≤ R)
    (hBelow : ∀ n, -R ≤ n → n < a → Operation.primary.accepts (mirrored f) n = true) :
    ∀ n, -a < n → n ≤ R → Operation.primary.accepts f n = true := by
  intro n hLt hn
  have ha := ne_minValue_of_around hR hLow
  have hAbove : -R ≤ n := Int64.le_of_lt (Int64.lt_of_le_of_lt (neg_around hR hLow hHigh).1 hLt)
  obtain ⟨hl, -⟩ := neg_around hR hAbove hn
  -- The mirrored scan met `-n` before `a`, so it was right there.
  have hNegLt : -n < a := by
    have hInt := Int64.lt_iff_toInt_lt.mp hLt
    rw [toInt_neg_of_ne ha] at hInt
    rw [Int64.lt_iff_toInt_lt, toInt_neg_of_ne (ne_minValue_of_around hR hAbove)]
    omega
  have hAccepts := hBelow (-n) hl hNegLt
  rwa [accepts_mirrored f (ne_minValue_of_around hR hl), Int64.neg_neg] at hAccepts

variable {σ : Type} (host : Host (StateM σ)) (observer : Option Observer) (st : σ)

theorem exists_greatest_of_around
    (h : ¬ ∀ n, -R ≤ n → n ≤ R → Operation.primary.accepts f n = true) :
    ∃ b, -R ≤ b ∧ b ≤ R ∧ Operation.primary.accepts f b = false ∧
      (∀ n, b < n → n ≤ R → Operation.primary.accepts f n = true) ∧
      (execute (run ⟨[.interval (around hR)], observer⟩ (asking host (mirrored f)) .primary) []
          st).1 = .error (.mismatch {
        operation := Operation.primary.name
        phase := (Source.interval (around hR)).label
        index := (R.toInt - b.toInt).toNat
        input := .word (-b)
        expected := .word (primary (-b))
        actual := .word (mirrored f (-b)) }) := by
  rw [← forall_mirrored_iff hR] at h
  obtain ⟨a, hLow, hHigh, hWrong, hBelow, hVerdict⟩ :=
    exists_least_of_interval host (mirrored f) .primary observer (around hR) st h
  have ha := ne_minValue_of_around hR hLow
  obtain ⟨hLow', hHigh'⟩ := neg_around hR hLow hHigh
  have hIndex : (R.toInt - (-a).toInt).toNat = (around hR).position a := by
    simp only [Interval.position, around, toInt_neg_of_ne ha, toInt_neg_radius hR]
    omega
  refine ⟨-a, hLow', hHigh', ?_, greatest_of_least_mirrored hR f hLow hHigh hBelow, ?_⟩
  · rwa [accepts_mirrored f ha] at hWrong
  · rw [hVerdict, Int64.neg_neg, hIndex]
    rfl

end Around

/-! ## The verdicts -/

/-- The mirrored function is checked at a number as the function is at its negation, and the
mirrored reference passes. So over an interval around zero, which always fits the counters, both
runs pass or both fail; then the mirrored one reports the negation of the greatest input where the
function is wrong. -/
theorem mirrored_primary_verdict (f : Int64 → Int64) :
    (∀ n, n ≠ Int64.minValue →
      Operation.primary.accepts (mirrored f) n = Operation.primary.accepts f (-n)) ∧
    (∀ n, Operation.primary.accepts (mirrored Operation.primary.reference) n = true) ∧
    ∀ {σ : Type} (host : Host (StateM σ)) (observer : Option Observer) (st : σ) (R : Int64),
      0 ≤ R → ∃ i, (Interval.make (-R) R).result = .ok i ∧ i.size < 2 ^ 64 ∧
        let verdict (g : Int64 → Int64) : Except Fault RunSummary :=
          (execute (run ⟨[.interval i], observer⟩ (asking host g) .primary) [] st).1
        ((∃ summary, verdict (mirrored f) = .ok summary) ↔ ∃ summary, verdict f = .ok summary) ∧
        ((¬ ∃ summary, verdict f = .ok summary) →
          ∃ b, -R ≤ b ∧ b ≤ R ∧ Operation.primary.accepts f b = false ∧
            (∀ n, b < n → n ≤ R → Operation.primary.accepts f n = true) ∧
            verdict (mirrored f) = .error (.mismatch {
              operation := Operation.primary.name
              phase := (Source.interval i).label
              index := (R.toInt - b.toInt).toNat
              input := .word (-b)
              expected := .word (primary (-b))
              actual := .word (mirrored f (-b)) })) := by
  refine ⟨fun n => accepts_mirrored f, accepts_mirrored_primary, ?_⟩
  intro σ host observer st R hR
  have hMake : (Interval.make (-R) R).result = .ok (around hR) := by
    rw [Interval.make_around hR]
    rfl
  have hSize : (around hR).size < 2 ^ 64 := by
    have hu := R.toInt_lt
    rw [Interval.size_around hR]
    omega
  refine ⟨around hR, hMake, hSize, ?_⟩
  simp only [exists_ok_interval_iff]
  exact ⟨forall_mirrored_iff hR f, exists_greatest_of_around hR f host observer st⟩

/-- Two wrong answers: the mirrored run reports the greater one, from the other side. -/
theorem mirrored_primary_verdict_two_wrong :
    let f : Int64 → Int64 := fun n => if n = 77 ∨ n = -5 then 0 else primary n
    let host : Host (StateM (List Signal)) := (Bench.recording (d := .word) pure).toHost
    (3 : Int64) ≠ Int64.minValue ∧ Operation.primary.accepts (mirrored f) 3 = true ∧
    (0 : Int64) ≤ 100 ∧
    ∃ i, (Interval.make (-100) 100).result = .ok i ∧
      (execute (run ⟨[.interval i], none⟩ (asking host (mirrored f)) .primary) [] []).1 =
        .error (.mismatch ⟨"calculate_div_p2", (Source.interval i).label, 23, .word (-77),
          .word (primary (-77)), .word 0⟩) := by
  intro f host
  have hRadius : (0 : Int64) ≤ 100 := by decide
  obtain ⟨hInput, -, hRuns⟩ := mirrored_primary_verdict f
  obtain ⟨i, hMake, -, -, hReport⟩ := hRuns host none [] 100 hRadius
  have hAround : around hRadius = i := by
    rw [Interval.make_around hRadius] at hMake
    exact Except.ok.inj hMake
  have hWrong : Operation.primary.accepts f 77 = false := by decide +kernel
  have hFails : ¬ ∃ summary, (execute (run ⟨[.interval i], none⟩ (asking host f) .primary) []
      []).1 = .ok summary := by
    rw [exists_ok_interval_iff, ← hAround]
    intro h
    have hInside : (-100 : Int64) ≤ 77 ∧ (77 : Int64) ≤ 100 := by decide
    rw [h 77 hInside.1 hInside.2] at hWrong
    cases hWrong
  obtain ⟨b, -, -, hb, hAbove, hVerdict⟩ := hReport hFails
  have hPlace : b = 77 := by
    by_contra hOther
    by_cases hFive : b = -5
    · rw [hFive] at hAbove
      rw [hAbove 77 (by decide) (by decide)] at hWrong
      cases hWrong
    · have hRight : f b = primary b := if_neg (not_or.mpr ⟨hOther, hFive⟩)
      rw [Operation.accepts_word_iff.mpr hRight] at hb
      cases hb
  subst hPlace
  have hThree : (3 : Int64) ≠ Int64.minValue := by decide
  have hRight : Operation.primary.accepts f (-3) = true := by decide +kernel
  have hActual : mirrored f (-77) = 0 := by decide +kernel
  rw [hActual] at hVerdict
  exact ⟨hThree, (hInput 3 hThree).trans hRight, hRadius, i, hMake, hVerdict⟩

end DivisionAudit.Audit
