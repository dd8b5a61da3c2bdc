import DivisionAudit.Decimal.Shortest

/-!
# How a double is written

The digits are the shortest that read back; a layout says where the positional form ends and how
an exponent is written. The positional form has at least one digit on either side of the point,
the exponent form one digit before it and no point after a single digit.
-/

namespace DivisionAudit

/-- The decisions of a format for finite doubles. -/
structure Layout where
  /-- The least decimal exponent of the leading digit that is written positionally. -/
  lowest : Int
  /-- The first decimal exponent of the leading digit that is not. -/
  highest : Int
  /-- What stands before an exponent that is not negative. -/
  exponentSign : List Char
  tie : Tie

namespace Decimal

def digits (d : Decimal) : List Char := Nat.toDigits 10 d.coefficient

/-- The exponent of the leading digit. -/
def leading (d : Decimal) : Int := d.exponent + d.digits.length - 1

/-- The positional form. -/
def positional (d : Decimal) : List Char :=
  let whole := d.leading + 1
  if 0 ≤ d.exponent then d.digits ++ List.replicate d.exponent.toNat '0' ++ ['.', '0']
  else if 0 < whole then d.digits.take whole.toNat ++ '.' :: d.digits.drop whole.toNat
  else ['0', '.'] ++ List.replicate (-whole).toNat '0' ++ d.digits

/-- The exponent form. -/
def scientific (sign : List Char) (d : Decimal) : List Char :=
  let mantissa := match d.digits with
    | [] => []
    | [c] => [c]
    | c :: rest => c :: '.' :: rest
  let power :=
    if d.leading < 0 then '-' :: Nat.toDigits 10 d.leading.natAbs
    else sign ++ Nat.toDigits 10 d.leading.natAbs
  mantissa ++ 'e' :: power

end Decimal

namespace Layout

def writeDecimal (l : Layout) (d : Decimal) : List Char :=
  if l.lowest ≤ d.leading ∧ d.leading < l.highest then d.positional
  else d.scientific l.exponentSign

/-- The text of a finite number; a negative one, `-0.0` included, has a sign. -/
def write (l : Layout) (x : Binary64) : List Char :=
  let sign := if x.isNegative then ['-'] else []
  let size := if x.isZero then ['0', '.', '0'] else l.writeDecimal (x.magnitude.shortest l.tie)
  sign ++ size

end Layout

end DivisionAudit
