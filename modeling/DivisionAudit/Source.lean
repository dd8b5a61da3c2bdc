import DivisionAudit.Input.Edges
import DivisionAudit.Input.Interval
import DivisionAudit.Input.Pass
import DivisionAudit.Input.Sweep

/-!
# Sources of inputs

A source says where the inputs of one phase come from. It has a label, which names the phase in
reports, and it knows how many inputs a pass over it has, unless there are too many for a word.

* `Source.pass`: the pass over the inputs, always the same one.
* `Source.inputCount`: the number of inputs, from the parameters alone.
-/

namespace DivisionAudit

inductive Source : Domain → Type
  | edges : Source .word
  | sweep (sweep : Sweep) : Source .word
  | interval (interval : Interval) : Source .word
  | uniform (seed count : UInt64) : Source .word
  | specials : Source .double
  | powers : Source .double
  | decades (seed count : UInt64) : Source .double
deriving DecidableEq

/-- The seed of uniform words that is used where none is asked for. -/
def uniformSeed : UInt64 := 42

/-- The pass over `count` words of a generator. -/
def uniformPass (seed count : UInt64) : Pass .word := .words (.ofSeed seed) count.toNat

/-- The pass over `count` random doubles. -/
def decadesPass (seed count : UInt64) : Pass .double :=
  .doubles (.ofSeed seed Permuted.defaultStream) count.toNat

namespace Source

def pass : {d : Domain} → Source d → Pass d
  | _, .edges => .walk Edges.walk
  | _, .sweep s => .walk s.walk
  | _, .interval i => .walk i.walk
  | _, .uniform seed count => uniformPass seed count
  | _, .specials => .walk Specials.walk
  | _, .powers => .walk Powers.walk
  | _, .decades seed count => decadesPass seed count

/-- The number of inputs of a pass; not told for an interval whose length is the greatest word. -/
def inputCount : {d : Domain} → Source d → Option UInt64
  | _, .edges => some (UInt64.ofNat Edges.count)
  | _, .sweep s => some s.count
  | _, .interval i => if i.length = UInt64.ofNat (UInt64.size - 1) then none else some i.length
  | _, .uniform _ count => some count
  | _, .specials => some 13
  | _, .powers => some (UInt64.ofNat Powers.count)
  | _, .decades _ count => some count

/-! ## Texts -/

def bounds (low high : Int64) : String :=
  "[" ++ toString low.toInt ++ ", " ++ toString high.toInt ++ "]"

def label : {d : Domain} → Source d → String
  | _, .edges => "boundary"
  | _, .sweep s => "log_magnitude" ++ bounds s.start s.stop
  | _, .interval i => "dense_range" ++ bounds i.low i.high
  | _, .uniform seed _ => "uniform_random(seed=" ++ toString seed.toNat ++ ")"
  | _, .specials => "float_boundary"
  | _, .powers => "powers_of_two"
  | _, .decades seed _ => "float_random(seed=" ++ toString seed.toNat ++ ")"

def seededJson (seed count : UInt64) : Json := .object [("uniform_random",
  .object [("seed", .ofNat seed.toNat), ("count", .ofNat count.toNat)])]

def json : {d : Domain} → Source d → Json
  | _, .edges => .string "boundary"
  | _, .sweep s => .object [("log_magnitude", s.json)]
  | _, .interval i => .object [("dense_range", i.json)]
  | _, .uniform seed count => seededJson seed count
  | _, .specials => .string "boundary"
  | _, .powers => .string "powers_of_two"
  | _, .decades seed count => seededJson seed count

def seededDiagnostic (seed count : UInt64) : Diagnostic :=
  .record "UniformRandom" [("seed", .unsigned seed), ("count", .unsigned count)]

def diagnostic : {d : Domain} → Source d → Diagnostic
  | _, .edges => .atom "Boundary"
  | _, .sweep s => .tuple "LogMagnitude" [s.diagnostic]
  | _, .interval i => .tuple "DenseRange" [i.diagnostic]
  | _, .uniform seed count => seededDiagnostic seed count
  | _, .specials => .atom "Boundary"
  | _, .powers => .atom "PowersOfTwo"
  | _, .decades seed count => seededDiagnostic seed count

end Source

end DivisionAudit
