import DivisionAudit.Traced

/-!
# Events of the log

What the log shows: of a phase its start and its success, of a violation that is told to the log all
that belongs to it. An event has a level, a message and named fields.

* `Signal.events`: the events of a signal; a violation is an event for each time the log is told.
-/

namespace DivisionAudit

inductive Level
  | error
  | warn
  | info
  | debug
deriving DecidableEq

def Level.text : Level → String
  | .error => "ERROR"
  | .warn => "WARN"
  | .info => "INFO"
  | .debug => "DEBUG"

def Severity.level : Severity → Level
  | .warning => .warn
  | .error | .critical => .error

structure Event where
  level : Level
  message : String
  fields : List (String × String)
deriving DecidableEq

namespace Event

def phaseStarted (operation phase : String) (expected : Option Nat) : Event where
  level := .debug
  message := "phase started"
  fields := [("operation", operation), ("phase", phase),
    ("expected_inputs", (Diagnostic.option .nat expected).inline)]

def phasePassed (operation phase : String) (inputs : Nat) (elapsed : Duration) : Event where
  level := .info
  message := "phase passed"
  fields := [("operation", operation), ("phase", phase), ("inputs", toString inputs),
    ("elapsed_ms", toString elapsed.wholeMilliseconds.toNat)]

def ofViolation (v : Violation) : Event where
  level := v.severity.level
  message := v.message
  fields := [("severity", v.severity.label), ("kind", v.kind.label), ("location", v.location),
    ("index", (Diagnostic.option .nat v.index).inline), ("context", v.context.diagnostic.inline)]

end Event

/-- The events that a signal adds to the log. -/
def Signal.events : Signal → List Event
  | .phaseStarted operation phase expected => [.phaseStarted operation phase expected]
  | .phasePassed operation phase inputs elapsed => [.phasePassed operation phase inputs elapsed]
  | .raised sink v => (logged (deliver sink v)).map .ofViolation

end DivisionAudit
