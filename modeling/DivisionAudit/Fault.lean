import DivisionAudit.Comparison

/-!
# Faults

What ends an attempt: a result that differs from its reference, a range of inputs that cannot be
made, or a configuration that cannot be used.
-/

namespace DivisionAudit

/-- Why bounds do not make a range of inputs. -/
inductive RangeFlaw
  | zeroBound
  | crossesZero
  | noSamples
  | lowAboveHigh
deriving DecidableEq

def RangeFlaw.reason : RangeFlaw → String
  | .zeroBound => "bounds must be non-zero"
  | .crossesZero => "range crosses zero"
  | .noSamples => "count must be positive"
  | .lowAboveHigh => "low exceeds high"

inductive Fault
  | mismatch (report : Discrepancy)
  | invalidRange (start stop : Int64) (count : Option UInt64) (reason : String)
  | invalidConfiguration (info : String)

namespace Fault

instance : BEq Fault where
  beq
    | .mismatch r, .mismatch s => r == s
    | .invalidRange a b n r, .invalidRange a' b' n' r' => a == a' && b == b' && n == n' && r == r'
    | .invalidConfiguration i, .invalidConfiguration j => i == j
    | _, _ => false

def text : Fault → String
  | .mismatch r => r.text
  | .invalidRange start stop count reason =>
    let samples := match count with
      | none => ""
      | some n => " with " ++ toString n.toNat ++ " samples"
    "Invalid range [" ++ toString start.toInt ++ ", " ++ toString stop.toInt ++ "]" ++ samples
      ++ ": " ++ reason
  | .invalidConfiguration info => "Invalid configuration: " ++ info

def diagnostic : Fault → Diagnostic
  | .mismatch r => .tuple "Mismatch" [r.diagnostic]
  | .invalidRange start stop count reason => .record "InvalidRange" [
      ("start", .word start),
      ("end", .word stop),
      ("count", .option .unsigned count),
      ("reason", .quoted reason)]
  | .invalidConfiguration info => .record "InvalidConfig" [("info", .quoted info)]

end Fault

end DivisionAudit
