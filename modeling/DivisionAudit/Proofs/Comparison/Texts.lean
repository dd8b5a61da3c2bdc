import DivisionAudit.Proofs.Comparison.Agreement
import DivisionAudit.Proofs.Decimal.Distinct
import DivisionAudit.Proofs.Text.Reading

/-!
# Reports by their JSON texts

The quantities of a report stand in its JSON form as bare numbers. A whole number is told from a
double, and one finite double from another, the two zeros among them, by the text of the number.
Only the doubles that are no numbers in JSON, the infinities and NaNs, are all written `null`, so a
report of an infinity has the text of one of a NaN though the two are not equal.

* `Quantity.WrittenAlike`: quantities that JSON does not tell apart.
* `Discrepancy.text_json_eq_iff`: the reports with the same text.
-/

namespace DivisionAudit

/-! ## Quantities -/

namespace Quantity

def isFinite : Quantity → Bool
  | .word _ => true
  | .double x => x.isFinite

/-- The quantities compare equal, or neither is a finite number. -/
def WrittenAlike (p q : Quantity) : Prop :=
  p.agrees q = true ∨ (p.isFinite = false ∧ q.isFinite = false)

theorem written_json_of_isFinite {x : Binary64} (h : x.isFinite = true) :
    (double x).json.written = .number (Json.layout.write x) := if_pos h

theorem written_json_of_not_isFinite {x : Binary64} (h : x.isFinite = false) :
    (double x).json.written = .null := if_neg (Bool.eq_false_iff.mp h)

theorem written_word_ne_double (n : Int64) (x : Binary64) :
    (word n).json.written ≠ (double x).json.written := by
  cases hFinite : x.isFinite with
  | true =>
    rw [written_json_of_isFinite hFinite]
    intro h
    exact Layout.write_ne_toString_int Json.layout x n.toInt (Json.Written.number.inj h).symm
  | false =>
    rw [written_json_of_not_isFinite hFinite]
    exact nofun

theorem writtenAlike_of_written_eq {p q : Quantity} (h : p.json.written = q.json.written) :
    p.WrittenAlike q := by
  cases p with
  | word m =>
    cases q with
    | word n =>
      have hValue := toList_toString_int_injective (Json.Written.number.inj h)
      exact .inl (agrees_iff.mpr (.inl (congrArg word (Int64.toInt_inj.mp hValue))))
    | double y => exact absurd h (written_word_ne_double m y)
  | double x =>
    cases q with
    | word n => exact absurd h.symm (written_word_ne_double n x)
    | double y =>
      cases hx : x.isFinite <;> cases hy : y.isFinite
      · exact .inr ⟨hx, hy⟩
      · rw [written_json_of_not_isFinite hx, written_json_of_isFinite hy] at h
        cases h
      · rw [written_json_of_isFinite hx, written_json_of_not_isFinite hy] at h
        cases h
      · rw [written_json_of_isFinite hx, written_json_of_isFinite hy] at h
        have hValue := Layout.write_injective (.inr rfl) (Json.Written.number.inj h)
        exact .inl (agrees_iff.mpr (.inl (congrArg double hValue)))

theorem chars_json_of_isFinite_eq_false {p : Quantity} (h : p.isFinite = false) :
    p.json.chars = "null".toList := by
  cases p with
  | word n => cases h
  | double x => exact if_neg (Bool.eq_false_iff.mp h)

theorem WrittenAlike.chars_json_eq {p q : Quantity} (h : p.WrittenAlike q) :
    p.json.chars = q.json.chars := by
  rcases h with h | ⟨hp, hq⟩
  · exact chars_json_eq_of_agrees h
  · rw [chars_json_of_isFinite_eq_false hp, chars_json_of_isFinite_eq_false hq]

end Quantity

/-! ## Reports -/

namespace Discrepancy

variable {r s : Discrepancy}

theorem text_json_eq_of_writtenAlike (hOperation : r.operation = s.operation)
    (hPhase : r.phase = s.phase) (hIndex : r.index = s.index)
    (hInput : r.input.WrittenAlike s.input) (hExpected : r.expected.WrittenAlike s.expected)
    (hActual : r.actual.WrittenAlike s.actual) : r.json.text = s.json.text := by
  simp only [json, Json.text, Json.chars, Json.fieldChars, hOperation, hPhase, hIndex,
    hInput.chars_json_eq, hExpected.chars_json_eq, hActual.chars_json_eq]

/-- The text of a report says all that its comparison looks at, but for which infinity or NaN
stands in a place where it says `null`. -/
theorem text_json_eq_iff (r s : Discrepancy) : r.json.text = s.json.text ↔
    r.operation = s.operation ∧ r.phase = s.phase ∧ r.index = s.index ∧
      r.input.WrittenAlike s.input ∧ r.expected.WrittenAlike s.expected ∧
        r.actual.WrittenAlike s.actual := by
  constructor
  · intro h
    have hWritten := Json.written_eq_of_text_eq h
    simp only [json, Json.written, Json.writtenFields, Json.ofNat, Json.Written.object.injEq,
      List.cons.injEq, Prod.mk.injEq, Json.Written.string.injEq, Json.Written.number.injEq,
      true_and, and_true] at hWritten
    obtain ⟨hOperation, hPhase, hIndex, hInput, hExpected, hActual⟩ := hWritten
    exact ⟨hOperation, hPhase, Int.ofNat.inj (toList_toString_int_injective hIndex),
      Quantity.writtenAlike_of_written_eq hInput, Quantity.writtenAlike_of_written_eq hExpected,
      Quantity.writtenAlike_of_written_eq hActual⟩
  · rintro ⟨hOperation, hPhase, hIndex, hInput, hExpected, hActual⟩
    exact text_json_eq_of_writtenAlike hOperation hPhase hIndex hInput hExpected hActual

/-- The report of an infinity has the text of the report of a NaN. -/
theorem text_json_eq_infinity_nan :
    let report (input : Binary64) : Discrepancy :=
      Outcome.discrepancy (d := .double) ⟨input, .nan, ⟨0⟩, .mismatch⟩ "calculate_fdiv_p2"
        "float_boundary" 2
    (report ⟨0x7FF0000000000000⟩).json.text = (report .nan).json.text ∧
      (report ⟨0x7FF0000000000000⟩ == report .nan) = false := by
  intro report
  have hRefl {p : Quantity} : p.WrittenAlike p := .inl (Quantity.equivalence_agrees.refl p)
  exact ⟨text_json_eq_of_writtenAlike rfl rfl rfl (.inr ⟨by decide, by decide⟩) hRefl hRefl,
    by decide⟩

end Discrepancy

end DivisionAudit
