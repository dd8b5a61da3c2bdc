import DivisionAudit.Text.Diagnostic

/-!
# Durations

A duration is a number of nanoseconds. It is shown in the largest unit of which it has a whole
one, exactly and without trailing zeros, or rounded to a number of places.
-/

namespace DivisionAudit

structure Duration where
  nanoseconds : Nat
deriving DecidableEq

namespace Duration

instance : Sub Duration := ⟨fun a b => ⟨a.nanoseconds - b.nanoseconds⟩⟩

/-- The name of the unit and the number of decimal places of a nanosecond in it. -/
def unit (d : Duration) : String × Nat :=
  if Nat.pow 10 9 ≤ d.nanoseconds then ("s", 9)
  else if Nat.pow 10 6 ≤ d.nanoseconds then ("ms", 6)
  else if Nat.pow 10 3 ≤ d.nanoseconds then ("µs", 3)
  else ("ns", 0)

/-- The decimals of a number, `places` of them. -/
def decimals (places n : Nat) : List Char :=
  let digits := Nat.toDigits 10 n
  if places = 0 then [] else List.replicate (places - digits.length) '0' ++ digits

def dropTrailingZeros (cs : List Char) : List Char := (cs.reverse.dropWhile (· = '0')).reverse

/-- Whole units, with a point and decimals where there are some. -/
def assemble (whole : Nat) (decimals : List Char) (unit : String) : String :=
  toString whole ++ (if decimals.isEmpty then "" else "." ++ String.ofList decimals) ++ unit

def text (d : Duration) : String :=
  let (unit, places) := d.unit
  let rest := dropTrailingZeros (decimals places (d.nanoseconds % Nat.pow 10 places))
  assemble (d.nanoseconds / Nat.pow 10 places) rest unit

/-- The quotient rounded to nearest, a half to the even neighbour. -/
def roundQuotient (n d : Nat) : Nat :=
  if 2 * (n % d) < d then n / d
  else if d < 2 * (n % d) then n / d + 1
  else if n / d % 2 = 0 then n / d else n / d + 1

/-- Rounded to two places. -/
def rounded (d : Duration) : String :=
  let (unit, places) := d.unit
  let hundredths := roundQuotient (100 * d.nanoseconds) (Nat.pow 10 places)
  assemble (hundredths / 100) (decimals 2 (hundredths % 100)) unit

/-- Milliseconds, computed in doubles from the whole seconds and the rest. -/
def milliseconds (d : Duration) : Binary64 :=
  let seconds := UInt64.ofNat (d.nanoseconds / Nat.pow 10 9)
  let rest := UInt64.ofNat (d.nanoseconds % Nat.pow 10 9)
  (.ofFloat seconds.toFloat + .ofFloat rest.toFloat / 1e9) * 1000.0

/-- Whole milliseconds; a word keeps what it can of them. -/
def wholeMilliseconds (d : Duration) : UInt64 := UInt64.ofNat (d.nanoseconds / Nat.pow 10 6)

end Duration

end DivisionAudit
