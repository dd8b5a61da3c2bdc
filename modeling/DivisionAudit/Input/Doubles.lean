import DivisionAudit.Generator.Draw
import DivisionAudit.Input.Walk

/-!
# Doubles to test with

* `Specials`: zeros, units, infinities, NaN, and the greatest, the least normal and the least
  positive numbers of either sign.
* `Powers`: every power of two that is a double, from `2 ^ 0` up and then from `2 ^ (-1)` down,
  each followed by its negation.
* `Decades`: random numbers below a random power of ten, so that all magnitudes are met.
-/

namespace DivisionAudit

namespace Specials

def greatest : Binary64 := ⟨0x7FEFFFFFFFFFFFFF⟩

def leastNormal : Binary64 := .powerOfTwo (-1022)

def leastPositive : Binary64 := .powerOfTwo (-1074)

def infinity : Binary64 := ⟨0x7FF0000000000000⟩

def values : Vector Binary64 13 :=
  #v[0.0, -0.0, 1.0, -1.0, infinity, -infinity, .nan, greatest, -greatest, leastNormal,
    -leastNormal, leastPositive, -leastPositive]

def walk : Walk Binary64 := .ofSize 13 fun i => values[i]?.getD .nan

end Specials

namespace Powers

/-- Both signs of the exponents from `-1074` to `1023`. -/
def count : Nat := 2 * (1023 + 1074 + 1)

/-- The exponents in their order: 0 to 1023, then -1 down to -1074. -/
def exponent (step : Nat) : Int := if step ≤ 1023 then step else 1023 - step

def value (i : Nat) : Binary64 :=
  let power := Binary64.powerOfTwo (exponent (i / 2))
  if i % 2 = 1 then -power else power

def walk : Walk Binary64 := .ofSize count value

end Powers

namespace Decades

def defaultSeed : UInt64 := 181601433

/-- The exponents of ten: `10 ^ lowest` is the least decade above zero. -/
def lowest : Int32 := -323

def highest : Int32 := 309

/-- A number drawn below a drawn power of ten, with powers of any precision; `none` when no exponent
is drawn. -/
def drawOver? (powerOfTen : Int → Binary64) (g : Permuted) : Option (Binary64 × Permuted) :=
  (drawSignedRange? lowest highest g).map fun (e, g) =>
    let (unit, g) := drawFraction g
    (powerOfTen e.toInt * (2.0 * unit - 1.0), g)

/-- A power of ten as the platform computes it. -/
def powerOfTen (e : Int) : Binary64 := .ofFloat (Float.pow 10.0 (Float.ofInt e))

def draw? (g : Permuted) : Option (Binary64 × Permuted) := drawOver? powerOfTen g

end Decades

end DivisionAudit
