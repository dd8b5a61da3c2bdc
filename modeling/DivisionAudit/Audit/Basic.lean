import DivisionAudit.Audit.Summary
import DivisionAudit.Source
import DivisionAudit.Traced

/-!
# Audits

An audit asks a subject for its result at every input of its sources, source after source, and
compares each result with the reference. It stops at the first discrepancy. Each source is one
phase, whose start and success are signalled; a discrepancy is raised to the audit's observer.

A run acts through a `Bench`: there the subject is asked, signals are taken and the time is read.
The bench may be of any monad, so that a subject can be a function, be counted, break off, or be
a program outside.

* `Audit.scan`: one phase, up to its first discrepancy.
* `Audit.run`: all phases.
* `Audit.trace`: the run of a function, with its signals as values.
* `Bench.tally`: keeps account of the inputs that the subject is asked for.
-/

namespace DivisionAudit

/-! ## Benches -/

/-- What a run acts on. -/
structure Bench (m : Type → Type) (d : Domain) extends Host m where
  subject : d.Value → m d.Value

namespace Bench

variable {d : Domain} {m : Type → Type}

/-- Keeps the signals in a list, oldest first; no time passes. -/
def recording [Monad m] [MonadStateOf (List Signal) m] (subject : d.Value → m d.Value) :
    Bench m d where
  subject := subject
  signal s := modifyThe (List Signal) (· ++ [s])
  clock := pure ⟨0⟩

/-- Keeps account of the inputs that the subject is asked for, before it answers. -/
def tally [Monad m] {σ : Type} (account : σ → d.Value → σ) (b : Bench m d) :
    Bench (StateT σ m) d where
  subject x := do
    modify (account · x)
    b.subject x
  signal s := b.signal s
  clock := b.clock

/-- What is done at a bench with a function for its subject, with the signals as values. -/
def trace {α : Type} (f : d.Value → d.Value)
    (action : Bench (StateM (List Signal)) d → StateM (List Signal) (Except Fault α)) :
    Attempt α :=
  let (result, signals) := (action (.recording fun x => pure (f x))).run []
  ExceptT.mk ⟨signals, result⟩

end Bench

/-! ## Audits -/

/-- Sources in the order of their phases, and who is told of a discrepancy. -/
structure Audit (d : Domain) where
  sources : List (Source d)
  observer : Option Observer

/-- The violation that is raised for a report. -/
def Discrepancy.violation (r : Discrepancy) : Violation :=
  Violation.plain .critical .mismatch (r.operation ++ " disagrees with reference")
      "DivisionAudit.Audit.run"
    |>.withIndex r.index
    |>.withEntry "phase" r.phase
    |>.withEntry "input" r.input.text
    |>.withEntry "expected" r.expected.text
    |>.withEntry "actual" r.actual.text

namespace Audit

variable {d : Domain} {m : Type → Type}

def ofSources (sources : List (Source d)) : Audit d := ⟨sources, none⟩

def withObserver (a : Audit d) (observer : Observer) : Audit d :=
  { a with observer := some observer }

/-! ## Runs -/

/-- How one phase ended. -/
inductive Scan (d : Domain)
  | clean (inputs : Nat)
  | differs (index : Nat) (outcome : Outcome d)

/-- Compares the results at the inputs of a pass, the first of which has the given index. -/
@[specialize] def scan [Monad m] (bench : Bench m d) (op : Operation d) (p : Pass d)
    (index : Nat) : m (Scan d) :=
  match _h : p.next? with
  | none => pure (.clean index)
  | some (input, p') => do
    let actual ← bench.subject input
    let outcome := Outcome.compare op input actual
    if outcome.passes then scan bench op p' (index + 1) else pure (.differs index outcome)
termination_by p.remaining
decreasing_by exact Pass.remaining_lt ‹_›

/-- Runs one phase after the other, until one has a discrepancy. -/
@[specialize] def phases [Monad m] (bench : Bench m d) (op : Operation d)
    (observer : Option Observer) : List (Source d) → m (Except Fault (List PhaseSummary))
  | [] => pure (.ok [])
  | s :: rest => do
    let started ← bench.clock
    bench.signal (.phaseStarted op.name s.label (s.inputCount.map UInt64.toNat))
    match ← scan bench op s.pass 0 with
    | .differs index outcome =>
      let report := outcome.discrepancy op.name s.label index
      bench.signal (.raised observer report.violation)
      pure (.error (.mismatch report))
    | .clean inputs =>
      let elapsed := (← bench.clock) - started
      bench.signal (.phasePassed op.name s.label inputs elapsed)
      match ← phases bench op observer rest with
      | .error fault => pure (.error fault)
      | .ok summaries => pure (.ok (⟨s.label, inputs, elapsed⟩ :: summaries))

/-- Runs all phases and sums them up. -/
@[specialize] def run [Monad m] (a : Audit d) (bench : Bench m d) (op : Operation d) :
    m (Except Fault RunSummary) := do
  let started ← bench.clock
  match ← phases bench op a.observer a.sources with
  | .error fault => pure (.error fault)
  | .ok summaries =>
    let stopped ← bench.clock
    pure (.ok ⟨op.name, summaries, PhaseSummary.total summaries, stopped - started⟩)

/-- The run of a function, with its signals. -/
def trace (a : Audit d) (f : d.Value → d.Value) (op : Operation d) : Attempt RunSummary :=
  Bench.trace f fun bench => a.run bench op

/-! ## Texts -/

def diagnostic (a : Audit d) : Diagnostic := .record "Orchestrator" [
  ("strategies", .list (a.sources.map Source.diagnostic)),
  ("has_observer", .bool a.observer.isSome)]

end Audit

end DivisionAudit
