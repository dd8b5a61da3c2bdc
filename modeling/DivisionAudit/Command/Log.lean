import DivisionAudit.Event

/-!
# The log of the command

Violations are always logged; the success of phases is logged at the first degree of verbosity and
their start at the second.
-/

namespace DivisionAudit.Command

/-- The lines that a signal adds to the log. -/
def logLines (verbosity : Nat) : Signal → List String
  | .phaseStarted operation phase _ =>
    if 2 ≤ verbosity then ["DEBUG phase started: " ++ operation ++ ", " ++ phase] else []
  | .phasePassed operation phase inputs _ =>
    if 1 ≤ verbosity then
      ["INFO phase passed: " ++ operation ++ ", " ++ phase ++ ", " ++ toString inputs ++ " inputs"]
    else []
  | .raised sink v => (logged (deliver sink v)).map fun v => v.severity.level.text ++ " " ++ v.text

end DivisionAudit.Command
