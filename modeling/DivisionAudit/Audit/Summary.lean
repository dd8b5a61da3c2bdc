import DivisionAudit.Duration
import DivisionAudit.Text.Json

/-!
# Summaries of passed runs

A run that passes is summed up phase by phase: how many inputs each had and how long it took.
-/

namespace DivisionAudit

structure PhaseSummary where
  label : String
  inputs : Nat
  elapsed : Duration
deriving DecidableEq

structure RunSummary where
  operation : String
  phases : List PhaseSummary
  totalInputs : Nat
  elapsed : Duration
deriving DecidableEq

namespace PhaseSummary

/-- The number of inputs of all phases. -/
def total (phases : List PhaseSummary) : Nat := phases.foldl (fun n p => n + p.inputs) 0

def json (p : PhaseSummary) : Json := .object [
  ("label", .string p.label),
  ("inputs", .ofNat p.inputs),
  ("elapsed_ms", .double p.elapsed.milliseconds)]

def diagnostic (p : PhaseSummary) : Diagnostic := .record "PhaseSummary" [
  ("label", .quoted p.label),
  ("inputs", .nat p.inputs),
  ("elapsed", .atom p.elapsed.text)]

end PhaseSummary

namespace RunSummary

def json (r : RunSummary) : Json := .object [
  ("operation", .string r.operation),
  ("phases", .array (r.phases.map PhaseSummary.json)),
  ("total_inputs", .ofNat r.totalInputs),
  ("elapsed_ms", .double r.elapsed.milliseconds)]

def diagnostic (r : RunSummary) : Diagnostic := .record "RunSummary" [
  ("operation", .quoted r.operation),
  ("phases", .list (r.phases.map PhaseSummary.diagnostic)),
  ("total_inputs", .nat r.totalInputs),
  ("elapsed", .atom r.elapsed.text)]

/-- What is said of a run, up to its duration. -/
def headline (r : RunSummary) : String :=
  r.operation ++ ": " ++ toString r.totalInputs ++ " inputs passed in"

/-- One line on the run. -/
def line (r : RunSummary) : String := r.headline ++ " " ++ r.elapsed.rounded

end RunSummary

end DivisionAudit
