import DivisionAudit.Audit.Draft
import DivisionAudit.Command.Options

/-!
# What the command does

The chosen operations are run one after the other over the workload that the options give; the
first that fails ends the command, and nothing is said then of those before it. The workload is
checked before any run, so that an unusable field counts whichever operation is chosen.

* `Command.execute`: from the arguments to the ending.
* `Ending.exitCode`, `Ending.output`, `Ending.complaint`: what an ending shows of itself.
-/

namespace DivisionAudit.Command

/-- Functions linked into the program, to be audited against the references. -/
structure Kernels where
  primary : Int64 → Int64
  extended : Int64 → Int64
  doubles : Binary64 → Binary64

inductive Ending
  | passed (json : Bool) (summaries : List RunSummary)
  | failed (fault : Fault)
  /-- Linked functions were asked for, and there are none. -/
  | notLinked
  | version
  | help
  | usage

namespace Ending

def exitCode : Ending → UInt32
  | .passed _ _ | .version | .help => 0
  | .failed (.mismatch _) => 1
  | .failed _ | .notLinked | .usage => 2

def helpText : String :=
  "Usage: oracle-runner [--target native|reference] [--preset full|smoke|stress] [--seed N]\n" ++
  "         [--log-count N] [--dense-radius N] [--random-count N] [--float-count N]\n" ++
  "         [--operation all|div-p2|div-ext|fdiv-p2] [--json] [-v|--verbose]\n" ++
  "         [-h|--help] [-V|--version]"

/-- The lines of standard output. -/
def output : Ending → List String
  | .passed true summaries => summaries.map fun s => s.json.text
  | .passed false summaries => summaries.map RunSummary.line
  | .failed (.mismatch report) => [report.text]
  | .version => ["oracle-runner 0.1.0"]
  | .help => [helpText]
  | .failed _ | .notLinked | .usage => []

/-- The line of standard error. -/
def complaint : Ending → Option String
  | .failed (.mismatch _) => none
  | .failed fault => some ("error: " ++ fault.text)
  | .notLinked => some "error: --target native requires building with `--features native`"
  | .usage => some helpText
  | .passed _ _ | .version | .help => none

end Ending

variable {m : Type → Type} [Monad m]

/-- The linked function for an operation over words. -/
def Kernels.forWords (k : Kernels) (op : Operation .word) : Int64 → Int64 :=
  if op.name = Operation.extended.name then k.extended else k.primary

/-- Runs an operation on a function over a workload. -/
@[specialize] def runOn {d : Domain} (host : Host m) (w : Workload) (op : Operation d)
    (f : d.Value → d.Value) : m (Except Fault RunSummary) :=
  w.run { host with subject := fun x => pure (f x) } op

/-- Runs the operations of a list, up to the first that fails. -/
@[specialize] def runWords (host : Host m) (w : Workload) (f : Operation .word → Int64 → Int64) :
    List (Operation .word) → m (Except Fault (List RunSummary))
  | [] => pure (.ok [])
  | op :: rest => do
    match ← runOn host w op (f op) with
    | .error fault => pure (.error fault)
    | .ok summary =>
      match ← runWords host w f rest with
      | .error fault => pure (.error fault)
      | .ok summaries => pure (.ok (summary :: summaries))

/-- Runs the operations that the options choose, on linked functions or on the references. -/
@[specialize] def runAll (host : Host m) (o : Options) (linked : Option Kernels) :
    m (Except Fault (List RunSummary)) := do
  let w := o.workload
  let forWords (op : Operation .word) := (linked.map fun k => k.forWords op).getD op.reference
  let forDoubles := (linked.map Kernels.doubles).getD Operation.doubles.reference
  match ← w.validate.perform host with
  | .error fault => pure (.error fault)
  | .ok () =>
    match ← runWords host w forWords o.wordOperations with
    | .error fault => pure (.error fault)
    | .ok summaries =>
      if o.runsDoubles then
        match ← runOn host w .doubles forDoubles with
        | .error fault => pure (.error fault)
        | .ok summary => pure (.ok (summaries ++ [summary]))
      else pure (.ok summaries)

/-- Runs the options. Linked functions are audited where there are some, unless the references are
asked for. -/
@[specialize] def perform (host : Host m) (linked : Option Kernels) (o : Options) : m Ending := do
  let audited (result : Except Fault (List RunSummary)) : Ending :=
    match result with
    | .error fault => .failed fault
    | .ok summaries => .passed o.json summaries
  match o.target, linked with
  | some .native, none => pure .notLinked
  | some .reference, _ => audited <$> runAll host o none
  | _, linked => audited <$> runAll host o linked

/-- Reads the arguments and does what they ask for. -/
@[specialize] def execute (host : Host m) (linked : Option Kernels) (arguments : List String) :
    m Ending :=
  match read arguments with
  | .run o => perform host linked o
  | .version => pure .version
  | .help => pure .help
  | .usage => pure .usage

end DivisionAudit.Command
