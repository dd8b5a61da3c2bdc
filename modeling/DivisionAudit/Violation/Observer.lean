import DivisionAudit.Violation.Basic

/-!
# Who is told of a violation

An observer is a recorder, the log, or a fan-out that tells its children in order. Recorders are
named by numbers, so that one recorder may stand at several places of an observer and is told once
for each. A violation that no observer was named for goes to the log.

* `Observer.deliveries`: what telling an observer amounts to, in depth-first order.
* `recordedBy`: what a recorder holds after a series of deliveries.
* `Network.observers`: observers described bottom-up, each fan-out by the places of its children.
-/

namespace DivisionAudit

inductive Observer
  | recorder (id : Nat)
  | log
  | fanOut (children : List Observer)

/-- A violation arrived in the log or with a recorder. -/
inductive Delivery
  | logged (violation : Violation)
  | recorded (id : Nat) (violation : Violation)
deriving DecidableEq

namespace Observer

mutual

def deliveries (v : Violation) : Observer → List Delivery
  | .recorder id => [.recorded id v]
  | .log => [.logged v]
  | .fanOut children => childDeliveries v children

def childDeliveries (v : Violation) : List Observer → List Delivery
  | [] => []
  | o :: os => o.deliveries v ++ childDeliveries v os

end

/-- Only a fan-out shows what it is. -/
def diagnostic? : Observer → Option Diagnostic
  | .fanOut children => some (.record "CompositeObserver" [("children", .nat children.length)])
  | _ => none

end Observer

/-- Tells the observer, or the log when there is none. -/
def deliver (sink : Option Observer) (v : Violation) : List Delivery :=
  (sink.getD .log).deliveries v

/-! ## Records -/

/-- The violations a recorder was told of, oldest first. -/
def recordedBy (id : Nat) (deliveries : List Delivery) : List Violation :=
  deliveries.filterMap fun
    | .recorded i v => if i = id then some v else none
    | .logged _ => none

/-- The logged violations, oldest first. -/
def logged (deliveries : List Delivery) : List Violation :=
  deliveries.filterMap fun
    | .recorded _ _ => none
    | .logged v => some v

def ofKind (kind : Kind) (violations : List Violation) : List Violation :=
  violations.filter fun v => v.kind = kind

def hasKind (kind : Kind) (violations : List Violation) : Bool :=
  violations.any fun v => v.kind = kind

/-! ## Expectations on a record -/

def recordText (violations : List Violation) : String :=
  (Diagnostic.list (violations.map Violation.diagnostic)).indented 0

/-- Fails, with a text that shows the record, unless it is empty. -/
def expectNone (violations : List Violation) : Except String Unit :=
  if violations.isEmpty then .ok ()
  else .error ("expected no violations, found " ++ toString violations.length ++ ":\n"
    ++ recordText violations)

/-- Fails, with a text that shows the record, unless it holds a violation of the kind. -/
def expectKind (kind : Kind) (violations : List Violation) : Except String Unit :=
  if hasKind kind violations then .ok ()
  else .error ("expected a " ++ kind.label ++ " violation, found:\n" ++ recordText violations)

/-! ## Networks of observers -/

/-- An observer of a network; a fan-out names its children by their places, all before its own. -/
inductive Node
  | recorder
  | log
  | fanOut (children : List Nat)

/-- A node at a place, over the observers at the places before it. The recorder at a place is
named by that place, so whoever names it as a child tells the same recorder. -/
def Node.observer (before : List Observer) : Node → Observer
  | .recorder => .recorder before.length
  | .log => .log
  | .fanOut children => .fanOut (children.filterMap (before[·]?))

/-- The nodes in the order of their places. -/
abbrev Network := List Node

/-- The observers at the places of a network. -/
def Network.observers (n : Network) : List Observer :=
  n.foldl (fun before node => before ++ [node.observer before]) []

end DivisionAudit
