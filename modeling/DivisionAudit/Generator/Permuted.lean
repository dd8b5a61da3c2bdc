import DivisionAudit.Text.Diagnostic

/-!
# The permuted congruential generator

The state moves by one affine step modulo `2 ^ 64`, whose odd increment selects the stream; an
output is a permutation of the state before the step, cut to 32 bits.

* `Permuted.ofSeed`: seed and stream; the stream's top bit is lost, for the increment is
  `2 · stream + 1`.
* `Permuted.step`, `Permuted.output`: the state's move and what is shown of a state.
-/

namespace DivisionAudit

structure Permuted where
  state : UInt64
  increment : UInt64
deriving DecidableEq

namespace Permuted

def multiplier : UInt64 := 6364136223846793005

/-- The stream taken when none is named. -/
def defaultStream : UInt64 := 1442695040888963407

/-- The affine step of the state. -/
def step (g : Permuted) : Permuted := { g with state := g.state * multiplier + g.increment }

def addToState (g : Permuted) (n : UInt64) : Permuted := { g with state := g.state + n }

/-- One step from zero, the seed added, and one step more. -/
def ofSeed (seed : UInt64) (stream : UInt64) : Permuted :=
  ((Permuted.mk 0 ((stream <<< 1) ||| 1)).step.addToState seed).step

def rotateRight (x : UInt32) (n : UInt32) : UInt32 := (x >>> n) ||| (x <<< (32 - n))

/-- The upper bits of a state folded onto lower ones and rotated by the top five. -/
def output (state : UInt64) : UInt32 :=
  rotateRight (((state >>> 18) ^^^ state) >>> 27).toUInt32 (state >>> 59).toUInt32

/-- The output of the state before the step. -/
def next (g : Permuted) : UInt32 × Permuted := (output g.state, g.step)

def diagnostic (g : Permuted) : Diagnostic :=
  .record "Pcg32" [("state", .unsigned g.state), ("inc", .unsigned g.increment)]

end Permuted

end DivisionAudit
