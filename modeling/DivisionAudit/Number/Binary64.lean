/-!
# Binary64 numbers by their bits

A number is its 64-bit pattern, so two patterns of NaN stay two values and the sign of a zero is
seen. Arithmetic goes through `Float`, whose results carry one pattern of NaN only.

* `Binary64.agrees`: two numbers agree when their bits are equal or both are NaN. Unlike the
  comparison of floats it is reflexive, and it tells `0.0` from `-0.0`.
* `Binary64.agrees_refl`, `Binary64.agrees_symm`, `Binary64.agrees_trans`: it is an equivalence.
-/

namespace DivisionAudit

/-- A number of the IEEE-754 binary64 format, given by its bit pattern. -/
structure Binary64 where
  bits : UInt64
deriving DecidableEq

namespace Binary64

/-! ## Fields of the pattern -/

def signMask : UInt64 := 0x8000000000000000

def exponentField (x : Binary64) : UInt64 := (x.bits >>> 52) &&& 0x7FF

def fractionField (x : Binary64) : UInt64 := x.bits &&& 0xFFFFFFFFFFFFF

/-- The sign bit is set; so it is for `-0.0` and may be for a NaN. -/
def isNegative (x : Binary64) : Bool := x.bits >>> 63 == 1

def isNaN (x : Binary64) : Bool := x.exponentField == 0x7FF && x.fractionField != 0

def isInfinite (x : Binary64) : Bool := x.exponentField == 0x7FF && x.fractionField == 0

def isFinite (x : Binary64) : Bool := x.exponentField != 0x7FF

/-- Either zero. -/
def isZero (x : Binary64) : Bool := x.exponentField == 0 && x.fractionField == 0

/-- The pattern of NaN that arithmetic produces. -/
def nan : Binary64 := ⟨0x7FF8000000000000⟩

/-! ## Arithmetic -/

def ofFloat (x : Float) : Binary64 := ⟨x.toBits⟩

def toFloat (x : Binary64) : Float := Float.ofBits x.bits

/-- A decimal literal stands for the nearest number. -/
instance : OfScientific Binary64 := ⟨fun m s e => ofFloat (Float.ofScientific m s e)⟩

instance : Add Binary64 := ⟨fun x y => ofFloat (x.toFloat + y.toFloat)⟩

instance : Sub Binary64 := ⟨fun x y => ofFloat (x.toFloat - y.toFloat)⟩

instance : Mul Binary64 := ⟨fun x y => ofFloat (x.toFloat * y.toFloat)⟩

instance : Div Binary64 := ⟨fun x y => ofFloat (x.toFloat / y.toFloat)⟩

/-- Negation flips the sign bit, of zeros and NaNs too. -/
instance : Neg Binary64 := ⟨fun x => ⟨x.bits ^^^ signMask⟩⟩

def abs (x : Binary64) : Binary64 := ⟨x.bits &&& ~~~signMask⟩

/-- The power of two `2 ^ e` for the exponents `-1074 ≤ e ≤ 1023`, normal from `-1022` on. -/
def powerOfTwo (e : Int) : Binary64 :=
  if -1022 ≤ e then ⟨UInt64.ofNat (e + 1023).toNat <<< 52⟩
  else ⟨1 <<< UInt64.ofNat (e + 1074).toNat⟩

/-! ## Agreement -/

/-- Equal bits, or two NaNs of whatever pattern. -/
def agrees (x y : Binary64) : Bool := x.bits == y.bits || (x.isNaN && y.isNaN)

theorem agrees_refl (x : Binary64) : x.agrees x = true := by simp [agrees]

theorem agrees_iff {x y : Binary64} :
    x.agrees y = true ↔ x = y ∨ (x.isNaN = true ∧ y.isNaN = true) := by
  cases x; cases y; simp [agrees]

theorem agrees_symm {x y : Binary64} (h : x.agrees y = true) : y.agrees x = true := by
  rw [agrees_iff] at h ⊢
  exact h.imp Eq.symm And.symm

theorem agrees_trans {x y z : Binary64} (h₁ : x.agrees y = true) (h₂ : y.agrees z = true) :
    x.agrees z = true := by
  rw [agrees_iff] at *
  rcases h₁ with rfl | ⟨hx, hy⟩
  · exact h₂
  · rcases h₂ with rfl | ⟨-, hz⟩
    · exact .inr ⟨hx, hy⟩
    · exact .inr ⟨hx, hz⟩

end Binary64

end DivisionAudit
