import DivisionAudit.Comparison

/-!
# Subjects with known defects

To see that an audit finds what it should, it is run on subjects that are right everywhere, wrong at
chosen inputs, or right for another reason than the reference is. A subject may have no function
at all: then it breaks off when it is asked for the first time.

* `mirrored`: asks a function on the other side of zero and negates its answer.
* `Subject.function?`: the function of a subject against an operation.
-/

namespace DivisionAudit

open Expression (Undefined)

/-! ## Mirrored functions -/

/-- The negated value at the negated input; the least word, which has no negation, is left as it
is. -/
def mirrored (f : Int64 → Int64) (n : Int64) : Int64 :=
  if n = Int64.minValue then f n else -f (-n)

/-- The negated value at the negated input; the zeros are left as they are. -/
def mirroredDouble (f : Binary64 → Binary64) (x : Binary64) : Binary64 :=
  if x.isZero then f x else -f (-x)

/-! ## Subjects -/

inductive Subject : Domain → Type
  | reference {d : Domain} : Subject d
  | identity {d : Domain} : Subject d
  | constant {d : Domain} (value : d.Value) : Subject d
  | primary : Subject .word
  | extended : Subject .word
  | weighted (divisors : List Int64) : Subject .word
  /-- Off by a difference at the listed inputs. -/
  | offAt (inputs : List Int64) (difference : Int64) : Subject .word
  /-- Off by one from `low` to `high`. -/
  | offIn (low high : Int64) : Subject .word
  | orMask (mask : Int64) : Subject .word
  | mirror (of : Subject .word) : Subject .word
  /-- Of the wrong sign at the listed inputs, a NaN being replaced by zero. -/
  | negatedAt (inputs : List Binary64) : Subject .double
  | absolute : Subject .double
  /-- Negative where it should be zero. -/
  | negativeZero : Subject .double
  /-- A value in place of NaN. -/
  | nanAs (value : Binary64) : Subject .double
  | mirrorDouble : Subject .double
  | byReciprocal : Subject .double

/-- The function that a subject computes; a list of divisors may not have one. -/
def Subject.function? : {d : Domain} → Subject d → Operation d →
    Except Undefined (d.Value → d.Value)
  | _, .reference, op => .ok op.reference
  | _, .identity, _ => .ok id
  | _, .constant v, _ => .ok fun _ => v
  | _, .primary, _ => .ok Expression.primary
  | _, .extended, _ => .ok Expression.extended
  | _, .weighted divisors, _ =>
    if Expression.allPositive divisors then .ok (Expression.weighted divisors)
    else .error .nonPositiveDivisor
  | _, .offAt inputs difference, op => .ok fun n =>
    if n ∈ inputs then op.reference n + difference else op.reference n
  | _, .offIn low high, op => .ok fun n =>
    if low ≤ n ∧ n ≤ high then op.reference n + 1 else op.reference n
  | _, .orMask mask, op => .ok fun n => op.reference n ||| mask
  | _, .mirror of, op => (of.function? op).map mirrored
  | _, .negatedAt inputs, op => .ok fun x =>
    let r := op.reference x
    if x ∈ inputs then (if r.isNaN then 0.0 else -r) else r
  | _, .absolute, op => .ok fun x => (op.reference x).abs
  | _, .negativeZero, op => .ok fun x =>
    let r := op.reference x
    if r.isZero then -0.0 else r
  | _, .nanAs v, op => .ok fun x =>
    let r := op.reference x
    if r.isNaN then v else r
  | _, .mirrorDouble, op => .ok (mirroredDouble op.reference)
  | _, .byReciprocal, _ => .ok Expression.doublesByReciprocal

end DivisionAudit
