import DivisionAudit.Audit.Basic

/-!
# What agreement keeps

Values of one domain agree when they are the same or both are NaN, whatever their bits. No form in
which a value is shown has the bits of a NaN, so reports that compare equal are shown alike. Away
from NaN a result is right only if it has all bits of the reference, the sign of a zero among them.

* `Domain.agree_congr`: values that agree are right at the same time.
* `Quantity.agrees_iff`: which quantities agree.
* `Discrepancy.equivalence_beq`: reports compare by an equivalence.
* `Discrepancy.text_eq_of_beq`, `Discrepancy.json_eq_of_beq`, `Discrepancy.violation_eq_of_beq`:
  what equal reports have in common.
* `Outcome.mismatch_iff_of_isNaN_eq_false`: away from NaN, the results that are not right.
-/

namespace DivisionAudit

/-! ## Values -/

theorem Binary64.isFinite_of_isNaN {x : Binary64} (h : x.isNaN = true) : x.isFinite = false := by
  obtain ⟨hExponent, -⟩ := (Bool.and_eq_true_iff).mp h
  rw [isFinite, bne, hExponent, Bool.not_true]

theorem Binary64.isNaN_of_isZero {x : Binary64} (h : x.isZero = true) : x.isNaN = false := by
  obtain ⟨hExponent, -⟩ := (Bool.and_eq_true_iff).mp h
  rw [isNaN, beq_iff_eq.mp hExponent]
  rfl

namespace Domain

theorem agree_congr : (d : Domain) → {v w : d.Value} → d.agree v w = true →
    ∀ r, d.agree v r = d.agree w r
  | .word, v, w, h, r => by
    rw [agree, beq_iff_eq] at h
    rw [h]
  | .double, v, w, h, r => by
    rw [Bool.eq_iff_iff]
    exact ⟨Binary64.agrees_trans (Binary64.agrees_symm h), Binary64.agrees_trans h⟩

end Domain

namespace Quantity

/-- Quantities agree when they are the same, or NaN both. -/
theorem agrees_iff {p q : Quantity} : p.agrees q = true ↔
    p = q ∨ ∃ x y, p = .double x ∧ q = .double y ∧ x.isNaN = true ∧ y.isNaN = true := by
  cases p with
  | word m =>
    cases q with
    | word n => simp [agrees, Domain.agree]
    | double y => simp [agrees]
  | double x =>
    cases q with
    | word n => simp [agrees]
    | double y => simp [agrees, Domain.agree, Binary64.agrees_iff]

theorem equivalence_agrees : Equivalence fun p q : Quantity => p.agrees q = true where
  refl p := agrees_iff.mpr (.inl rfl)
  symm h := by
    rw [agrees_iff] at h ⊢
    rcases h with rfl | ⟨x, y, rfl, rfl, hx, hy⟩
    · exact .inl rfl
    · exact .inr ⟨y, x, rfl, rfl, hy, hx⟩
  trans h₁ h₂ := by
    rw [agrees_iff] at *
    rcases h₁ with rfl | ⟨x, y, rfl, rfl, hx, hy⟩
    · exact h₂
    · rcases h₂ with rfl | ⟨_, z, -, rfl, -, hz⟩
      · exact .inr ⟨x, y, rfl, rfl, hx, hy⟩
      · exact .inr ⟨x, z, rfl, rfl, hx, hz⟩

theorem text_eq_of_agrees {p q : Quantity} (h : p.agrees q = true) : p.text = q.text := by
  rcases agrees_iff.mp h with rfl | ⟨x, y, rfl, rfl, hx, hy⟩
  · rfl
  · rw [text, text, Diagnostic.doubleText, Diagnostic.doubleText, if_pos hx, if_pos hy]

theorem chars_json_eq_of_agrees {p q : Quantity} (h : p.agrees q = true) :
    p.json.chars = q.json.chars := by
  rcases agrees_iff.mp h with rfl | ⟨x, y, rfl, rfl, hx, hy⟩
  · rfl
  · rw [json, json, Json.chars, Json.chars, Binary64.isFinite_of_isNaN hx,
      Binary64.isFinite_of_isNaN hy, if_neg Bool.false_ne_true, if_neg Bool.false_ne_true]

end Quantity

/-! ## Reports -/

namespace Discrepancy

theorem beq_iff {r s : Discrepancy} : (r == s) = true ↔
    r.operation = s.operation ∧ r.phase = s.phase ∧ r.index = s.index ∧
      r.input.agrees s.input = true ∧ r.expected.agrees s.expected = true ∧
      r.actual.agrees s.actual = true := by
  have hFields : (r == s) = (r.operation == s.operation && r.phase == s.phase
    && r.index == s.index && r.input.agrees s.input && r.expected.agrees s.expected
    && r.actual.agrees s.actual) := rfl
  simp only [hFields, Bool.and_eq_true, beq_iff_eq, and_assoc]

/-- In particular the report of a NaN equals itself. -/
theorem equivalence_beq : Equivalence fun r s : Discrepancy => (r == s) = true where
  refl r := by
    have hRefl := Quantity.equivalence_agrees.refl
    exact beq_iff.mpr ⟨rfl, rfl, rfl, hRefl _, hRefl _, hRefl _⟩
  symm h := by
    rw [beq_iff] at *
    obtain ⟨hOperation, hPhase, hIndex, hInput, hExpected, hActual⟩ := h
    have hSymm {p q : Quantity} := Quantity.equivalence_agrees.symm (x := p) (y := q)
    exact ⟨hOperation.symm, hPhase.symm, hIndex.symm, hSymm hInput, hSymm hExpected, hSymm hActual⟩
  trans h₁ h₂ := by
    rw [beq_iff] at *
    obtain ⟨hOperation, hPhase, hIndex, hInput, hExpected, hActual⟩ := h₁
    obtain ⟨hOperation', hPhase', hIndex', hInput', hExpected', hActual'⟩ := h₂
    have hTrans {p q r : Quantity} := Quantity.equivalence_agrees.trans (x := p) (y := q) (z := r)
    exact ⟨hOperation.trans hOperation', hPhase.trans hPhase', hIndex.trans hIndex',
      hTrans hInput hInput', hTrans hExpected hExpected', hTrans hActual hActual'⟩

variable {r s : Discrepancy} (h : (r == s) = true)
include h

theorem text_eq_of_beq : r.text = s.text := by
  obtain ⟨hOperation, hPhase, hIndex, hInput, hExpected, hActual⟩ := beq_iff.mp h
  unfold text
  rw [hOperation, hPhase, hIndex, Quantity.text_eq_of_agrees hInput,
    Quantity.text_eq_of_agrees hExpected, Quantity.text_eq_of_agrees hActual]

theorem json_eq_of_beq : r.json.text = s.json.text := by
  obtain ⟨hOperation, hPhase, hIndex, hInput, hExpected, hActual⟩ := beq_iff.mp h
  simp only [json, Json.text, Json.chars, Json.fieldChars, hOperation, hPhase, hIndex,
    Quantity.chars_json_eq_of_agrees hInput, Quantity.chars_json_eq_of_agrees hExpected,
    Quantity.chars_json_eq_of_agrees hActual]

theorem violation_eq_of_beq : r.violation = s.violation := by
  obtain ⟨hOperation, hPhase, hIndex, hInput, hExpected, hActual⟩ := beq_iff.mp h
  unfold violation
  rw [hOperation, hPhase, hIndex, Quantity.text_eq_of_agrees hInput,
    Quantity.text_eq_of_agrees hExpected, Quantity.text_eq_of_agrees hActual]

end Discrepancy

/-! ## Outcomes over doubles -/

namespace Outcome

variable {op : Operation .double} {x y : Binary64}

/-- Of a result that is not NaN every bit counts. -/
theorem mismatch_iff_of_isNaN_eq_false (h : y.isNaN = false) :
    (compare op x y).verdict = .mismatch ↔ y.bits ≠ (op.reference x).bits := by
  have hAgree : Domain.double.agree y (op.reference x) = (y.bits == (op.reference x).bits) := by
    rw [Domain.agree, Binary64.agrees, h, Bool.false_and, Bool.or_false]
  simp [compare, hAgree]

theorem mismatch_of_isZero (hy : y.isZero = true)
    (hSign : y.isNegative ≠ (op.reference x).isNegative) :
    (compare op x y).verdict = .mismatch := by
  rw [mismatch_iff_of_isNaN_eq_false (Binary64.isNaN_of_isZero hy)]
  intro hBits
  rw [Binary64.isNegative, Binary64.isNegative, hBits] at hSign
  exact hSign rfl

-- minus zero where zero is expected
example : (compare (d := .double) ⟨"zero", fun _ => ⟨0⟩⟩ ⟨0⟩ ⟨Binary64.signMask⟩).verdict =
    .mismatch := by decide

end Outcome

end DivisionAudit
