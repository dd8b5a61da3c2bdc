import DivisionAudit.Violation.Context

/-!
# Violations

A violation records one thing that went wrong: how grave it is, of which kind, where it was found
and what belongs to it. It has a one-line text, a JSON form and a diagnostic form, all of which
list the context in the order of its keys.
-/

namespace DivisionAudit

inductive Severity
  | warning
  | error
  | critical
deriving DecidableEq, Ord

def Severity.label : Severity → String
  | .warning => "warning"
  | .error => "error"
  | .critical => "critical"

def Severity.diagnostic : Severity → Diagnostic
  | .warning => .atom "Warning"
  | .error => .atom "Error"
  | .critical => .atom "Critical"

def Severity.json (s : Severity) : Json := .string s.label

inductive Kind
  | mismatch
  | configuration
deriving DecidableEq, Ord

def Kind.label : Kind → String
  | .mismatch => "mismatch"
  | .configuration => "configuration"

def Kind.diagnostic : Kind → Diagnostic
  | .mismatch => .atom "Mismatch"
  | .configuration => .atom "Configuration"

def Kind.json (k : Kind) : Json := .string k.label

structure Violation where
  severity : Severity
  kind : Kind
  message : String
  /-- The place in a program that found it. -/
  location : String
  /-- The position of the offending input within its phase. -/
  index : Option Nat
  context : Context
deriving DecidableEq

namespace Violation

/-- A violation without index and context. -/
def plain (severity : Severity) (kind : Kind) (message location : String) : Violation :=
  ⟨severity, kind, message, location, none, .empty⟩

def withIndex (v : Violation) (index : Nat) : Violation := { v with index := some index }

/-- Adds an entry to the context; an earlier one with its key is overwritten. -/
def withEntry (v : Violation) (key value : String) : Violation :=
  { v with context := v.context.insert key value }

/-- One line: severity, kind and message, then index and context, last the location. -/
def text (v : Violation) : String :=
  let index := match v.index with
    | none => ""
    | some i => " at index " ++ toString i
  let context := String.join (v.context.entries.map fun e => " " ++ e.1 ++ "=" ++ e.2)
  v.severity.label ++ " " ++ v.kind.label ++ ": " ++ v.message ++ index ++ context
    ++ " (" ++ v.location ++ ")"

def json (v : Violation) : Json := .object [
  ("severity", v.severity.json),
  ("kind", v.kind.json),
  ("message", .string v.message),
  ("location", .string v.location),
  ("index", .ofNat? v.index),
  ("context", v.context.json)]

def diagnostic (v : Violation) : Diagnostic := .record "OracleViolation" [
  ("severity", v.severity.diagnostic),
  ("kind", v.kind.diagnostic),
  ("message", .quoted v.message),
  ("location", .quoted v.location),
  ("index", .option .nat v.index),
  ("context", v.context.diagnostic)]

end Violation

end DivisionAudit
