import DivisionAudit.Expression.Reciprocal
import DivisionAudit.Expression.Weighted
import DivisionAudit.Number.Domain
import DivisionAudit.Text.Diagnostic
import DivisionAudit.Text.Json

/-!
# Comparing a result with its reference

An operation is a named reference function. The outcome of comparing a subject's result with it
passes when the two agree; a discrepancy is what is reported of an outcome, with the operation, the
phase and the position of the input in that phase.

* `Outcome.passes_compare`: the outcome passes exactly when the values agree.
* Discrepancies compare by agreement of their quantities, so a report of a NaN equals itself.
-/

namespace DivisionAudit

/-! ## Operations -/

/-- A reference function under the name that reports give it. -/
structure Operation (d : Domain) where
  name : String
  reference : d.Value → d.Value

namespace Operation

def primary : Operation .word := ⟨"calculate_div_p2", Expression.primary⟩

def extended : Operation .word := ⟨"calculate_div_ext", Expression.extended⟩

def doubles : Operation .double := ⟨"calculate_fdiv_p2", Expression.doubles⟩

end Operation

/-! ## Quantities in texts -/

namespace Quantity

def text : Quantity → String
  | .word n => toString n.toInt
  | .double x => Diagnostic.doubleText x

def diagnostic : Quantity → Diagnostic
  | .word n => .tuple "Int" [.word n]
  | .double x => .tuple "Float" [.double x]

/-- A bare number; what kind it is shows in its text only. -/
def json : Quantity → Json
  | .word n => .ofWord n
  | .double x => .double x

end Quantity

/-! ## Discrepancies -/

/-- A result that was reported, with the place of its input in a run. -/
structure Discrepancy where
  operation : String
  phase : String
  index : Nat
  input : Quantity
  expected : Quantity
  actual : Quantity

namespace Discrepancy

instance : BEq Discrepancy where
  beq a b := a.operation == b.operation && a.phase == b.phase && a.index == b.index
    && a.input == b.input && a.expected == b.expected && a.actual == b.actual

def text (r : Discrepancy) : String :=
  "Wrong value for " ++ r.operation ++ " at " ++ r.input.text ++ " (phase " ++ r.phase
    ++ ", index " ++ toString r.index ++ "): expected: " ++ r.expected.text
    ++ " actual: " ++ r.actual.text

def json (r : Discrepancy) : Json := .object [
  ("operation", .string r.operation),
  ("phase", .string r.phase),
  ("index", .ofNat r.index),
  ("input", r.input.json),
  ("expected", r.expected.json),
  ("actual", r.actual.json)]

def diagnostic (r : Discrepancy) : Diagnostic := .record "MismatchReport" [
  ("operation", .quoted r.operation),
  ("phase", .quoted r.phase),
  ("index", .nat r.index),
  ("input", r.input.diagnostic),
  ("expected", r.expected.diagnostic),
  ("actual", r.actual.diagnostic)]

end Discrepancy

/-! ## Outcomes -/

inductive Verdict
  | pass
  | mismatch
deriving DecidableEq

def Verdict.json : Verdict → Json
  | .pass => .string "pass"
  | .mismatch => .string "mismatch"

/-- The comparison of one result with its reference. -/
structure Outcome (d : Domain) where
  input : d.Value
  expected : d.Value
  actual : d.Value
  verdict : Verdict

namespace Outcome

variable {d : Domain}

def passes (o : Outcome d) : Bool := o.verdict = .pass

/-- Compares a result with what the operation expects at the input. -/
def compare (op : Operation d) (input actual : d.Value) : Outcome d :=
  let expected := op.reference input
  ⟨input, expected, actual, if d.agree actual expected then .pass else .mismatch⟩

theorem passes_compare (op : Operation d) (input actual : d.Value) :
    (compare op input actual).passes = d.agree actual (op.reference input) := by
  simp [passes, compare]

/-- The report of an outcome at a position of a phase. -/
def discrepancy (o : Outcome d) (operation phase : String) (index : Nat) : Discrepancy :=
  ⟨operation, phase, index, .of o.input, .of o.expected, .of o.actual⟩

end Outcome

end DivisionAudit
