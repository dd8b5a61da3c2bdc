import DivisionAudit.Audit.Basic
import DivisionAudit.Workload

/-!
# Drafts of audits

A draft gathers what an audit is to be made of: a workload, sources of its own for either domain,
an observer. What is set last counts. Sources that are set take the place of the workload's, which
is then not looked at; an empty list of them is refused.

* `Draft.build`: the audit of a domain, or the fault that stands in its way.
* `Workload.run`: a whole run over the sources of a workload, without observer.
-/

namespace DivisionAudit

structure Draft where
  workload : Workload := .full
  words : Option (List (Source .word)) := none
  doubles : Option (List (Source .double)) := none
  observer : Option Observer := none

/-- How messages call the sources of a domain. -/
def Domain.suite : Domain → String
  | .word => "integer"
  | .double => "float"

namespace Draft

def withWorkload (b : Draft) (w : Workload) : Draft := { b with workload := w }

def withObserver (b : Draft) (o : Observer) : Draft := { b with observer := some o }

def withSources : {d : Domain} → Draft → List (Source d) → Draft
  | .word, b, sources => { b with words := some sources }
  | .double, b, sources => { b with doubles := some sources }

/-- The sources that were set for a domain. -/
def sources? (b : Draft) : (d : Domain) → Option (List (Source d))
  | .word => b.words
  | .double => b.doubles

def emptyList (d : Domain) : String := d.suite ++ " strategy list must not be empty"

def build (b : Draft) (d : Domain) : Attempt (Audit d) :=
  match b.sources? d with
  | some [] =>
    .refuse b.observer ("invalid builder configuration: " ++ emptyList d)
      "DivisionAudit.Draft.build" (.invalidConfiguration (emptyList d))
  | some (s :: rest) => pure ⟨s :: rest, b.observer⟩
  | none => do
    let sources ← b.workload.sources d
    pure ⟨sources, b.observer⟩

def diagnostic (b : Draft) : Diagnostic := .record "OracleBuilder" [
  ("config", b.workload.diagnostic),
  ("strategies", .option (fun l => .list (l.map Source.diagnostic)) b.words),
  ("float_strategies", .option (fun l => .list (l.map Source.diagnostic)) b.doubles),
  ("has_observer", .bool b.observer.isSome)]

end Draft

/-- Runs the sources of a workload, after its check. -/
@[specialize] def Workload.run {m : Type → Type} [Monad m] {d : Domain} (w : Workload)
    (bench : Bench m d) (op : Operation d) : m (Except Fault RunSummary) := do
  match ← (w.sources d).perform bench.toHost with
  | .error fault => pure (.error fault)
  | .ok sources => (Audit.ofSources sources).run bench op

/-- The run of a function over the sources of a workload, with its signals. -/
def Workload.trace {d : Domain} (w : Workload) (f : d.Value → d.Value) (op : Operation d) :
    Attempt RunSummary :=
  Bench.trace f fun bench => w.run bench op

end DivisionAudit
