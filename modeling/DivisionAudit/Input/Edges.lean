import DivisionAudit.Input.Walk

/-!
# Edge words

The words where division is most likely to go wrong: zero, the small and the extreme words, and
then every power of two with its neighbours and its negation with its neighbours. Powers wrap, so
the last one is the least word.
-/

namespace DivisionAudit.Edges

/-- The words that come before the powers of two. -/
def extremes : Vector Int64 9 :=
  #v[0, 1, -1, 2, -2, Int64.minValue, Int64.minValue + 1, Int64.maxValue, Int64.maxValue - 1]

/-- The six words around `2 ^ k` and its negation. -/
def aroundPower (k : Nat) : Nat → Int64
  | 0 => 1 <<< Int64.ofNat k
  | 1 => (1 <<< Int64.ofNat k) + 1
  | 2 => (1 <<< Int64.ofNat k) - 1
  | 3 => -(1 <<< Int64.ofNat k)
  | 4 => -(1 <<< Int64.ofNat k) + 1
  | _ => -(1 <<< Int64.ofNat k) - 1

def count : Nat := 9 + 6 * 64

/-- The word at a position. -/
def value (i : Nat) : Int64 :=
  if h : i < 9 then extremes[i] else aroundPower ((i - 9) / 6) ((i - 9) % 6)

def walk : Walk Int64 := .ofSize count value

end DivisionAudit.Edges
