import DivisionAudit.Command.Execute
import DivisionAudit.Command.Log

/-!
# The command line

Reads the arguments, runs what they ask for, and prints what the ending shows of itself. The log
goes to standard error.
-/

namespace DivisionAudit.Command

/-- The clock of the machine, and its standard error for the log. -/
def machine (verbosity : Nat) : Host IO where
  signal s := (logLines verbosity s).forM fun line => IO.eprintln line
  clock := Duration.mk <$> IO.monoNanosNow

def verbosityOf : Request → Nat
  | .run o => o.verbosity
  | _ => 0

end DivisionAudit.Command

/-- Exits with the code of the ending. -/
def main (arguments : List String) : IO UInt32 := do
  let request := DivisionAudit.Command.read arguments
  let host := DivisionAudit.Command.machine (DivisionAudit.Command.verbosityOf request)
  let ending ← DivisionAudit.Command.execute host none arguments
  ending.output.forM fun line => IO.println line
  ending.complaint.forM fun line => IO.eprintln line
  return ending.exitCode
