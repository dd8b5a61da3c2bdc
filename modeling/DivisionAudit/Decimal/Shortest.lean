import DivisionAudit.Number.Binary64

/-!
# The shortest decimal that reads back

A positive finite double is `significand · 2 ^ exponent`; the reals that round to it form an
interval, closed when the significand is even. The shortest decimal is sought on coarser and then
finer grids `10 ^ k`: the first grid with a point in the interval wins, and of two such points the
nearer. All comparisons are exact, over natural numbers.

* `Magnitude.readsBack`: a point of a grid lies in the interval.
* `Magnitude.nearest?`: the point of a grid that stands for the number, if one reads back.
* `Magnitude.shortest`: the search from the coarsest grid that can matter.
-/

namespace DivisionAudit

/-- The number `coefficient · 10 ^ exponent`. -/
structure Decimal where
  coefficient : Nat
  exponent : Int
deriving DecidableEq

/-- Which of two neighbours on a grid an exact half goes to. -/
inductive Tie
  | up
  | even
deriving DecidableEq

/-- The choice between `c` and `c + 1` at an exact half. -/
def Tie.choose : Tie → Nat → Nat
  | .up, c => c + 1
  | .even, c => if c % 2 = 0 then c else c + 1

/-- The number `significand · 2 ^ exponent`, with its place among the doubles. -/
structure Magnitude where
  significand : Nat
  exponent : Int
  /-- The double below is half as far as the double above: so it is at a power of two. -/
  narrowBelow : Bool
deriving DecidableEq

namespace Magnitude

/-! ## The interval that rounds to the number

Its ends are whole numbers of quarters, a quarter being `2 ^ (exponent - 2)`. -/

def center (m : Magnitude) : Nat := 4 * m.significand

def lower (m : Magnitude) : Nat := m.center - if m.narrowBelow then 1 else 2

def upper (m : Magnitude) : Nat := m.center + 2

/-- `u` quarters and `c` steps of the grid `10 ^ k` compare as `u * quarterScale k` and
`c * gridScale k`. -/
def quarterScale (m : Magnitude) (k : Int) : Nat :=
  Nat.pow 2 (m.exponent - 2).toNat * Nat.pow 10 (-k).toNat

def gridScale (m : Magnitude) (k : Int) : Nat :=
  Nat.pow 10 k.toNat * Nat.pow 2 (2 - m.exponent).toNat

/-- The decimal `c · 10 ^ k` rounds to the number; at an end of the interval, to the even
significand. -/
def readsBack (m : Magnitude) (k : Int) (c : Nat) : Bool :=
  let point := c * m.gridScale k
  let low := m.lower * m.quarterScale k
  let high := m.upper * m.quarterScale k
  if m.significand % 2 = 0 then decide (low ≤ point ∧ point ≤ high)
  else decide (low < point ∧ point < high)

/-! ## The search -/

/-- The point of the grid `10 ^ k` nearest to the number, among its two neighbours there that
read back. -/
def nearest? (tie : Tie) (m : Magnitude) (k : Int) : Option Nat :=
  let value := m.center * m.quarterScale k
  let step := m.gridScale k
  let c := value / step
  let rest := value % step
  match m.readsBack k c, m.readsBack k (c + 1) with
  | true, true =>
    some (if 2 * rest < step then c else if step < 2 * rest then c + 1 else tie.choose c)
  | true, false => some c
  | false, true => some (c + 1)
  | false, false => none

/-- The number itself, with all its digits: `s · 2 ^ e = s · 5 ^ (-e) · 10 ^ e`. -/
def exact (m : Magnitude) : Decimal :=
  if 0 ≤ m.exponent then ⟨m.significand * Nat.pow 2 m.exponent.toNat, 0⟩
  else ⟨m.significand * Nat.pow 5 (-m.exponent).toNat, m.exponent⟩

/-- The first hit on the grids `10 ^ k`, `10 ^ (k - 1)`, …; the exact decimal where the grids end
without one. -/
def search (tie : Tie) (m : Magnitude) : Nat → Int → Decimal
  | 0, _ => m.exact
  | grids + 1, k =>
    match m.nearest? tie k with
    | some c => ⟨c, k⟩
    | none => search tie m grids (k - 1)

/-- A grid coarser than the number: the decimal exponent is at most `0.30103` times the binary
one. -/
def coarsestGrid (m : Magnitude) : Int :=
  (m.significand.log2 + 1 + m.exponent) * 30103 / 100000 + 2

/-- The shortest decimal that reads back; seventeen digits always do, and 24 grids hold them. -/
def shortest (tie : Tie) (m : Magnitude) : Decimal := m.search tie 24 m.coarsestGrid

end Magnitude

/-- The magnitude of a finite number; a subnormal one has the least exponent and no hidden bit. -/
def Binary64.magnitude (x : Binary64) : Magnitude :=
  let e := x.exponentField.toNat
  let f := x.fractionField.toNat
  if e = 0 then ⟨f, -1074, false⟩
  else ⟨Nat.pow 2 52 + f, (e : Int) - 1075, f == 0 && decide (1 < e)⟩

end DivisionAudit
