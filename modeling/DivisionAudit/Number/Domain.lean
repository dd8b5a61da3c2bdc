import DivisionAudit.Number.Binary64

/-!
# The two domains of numbers

An audit runs either over 64-bit words, read as signed integers, or over binary64 numbers. What
both kinds share is written once, with the domain as a parameter; a `Quantity` is a value whose
domain is seen only at run time, as it stands in a report.

* `Domain.agree`: when a result counts as right. Words must be equal; doubles must have equal
  bits or both be NaN.
* `Quantity.agrees_of`: quantities of one domain agree exactly as their values do.
-/

namespace DivisionAudit

/-- The kinds of number an operation works on. -/
inductive Domain
  | word
  | double
deriving DecidableEq

/-- The numbers of a domain. -/
abbrev Domain.Value : Domain → Type
  | .word => Int64
  | .double => Binary64

/-- Whether two values of a domain count as the same result. -/
def Domain.agree : (d : Domain) → d.Value → d.Value → Bool
  | .word, m, n => m == n
  | .double, x, y => Binary64.agrees x y

theorem Domain.agree_refl : (d : Domain) → (v : d.Value) → d.agree v v = true
  | .word, n => by simp [Domain.agree]
  | .double, x => Binary64.agrees_refl x

/-- A number of either domain. -/
inductive Quantity
  | word (value : Int64)
  | double (value : Binary64)

namespace Quantity

def of : {d : Domain} → d.Value → Quantity
  | .word, n => .word n
  | .double, x => .double x

/-- Quantities agree when they are of one domain and agree there. -/
def agrees : Quantity → Quantity → Bool
  | .word m, .word n => Domain.word.agree m n
  | .double x, .double y => Domain.double.agree x y
  | _, _ => false

instance : BEq Quantity := ⟨agrees⟩

@[simp] theorem agrees_of {d : Domain} (v w : d.Value) : (of v).agrees (of w) = d.agree v w := by
  cases d <;> rfl

end Quantity

end DivisionAudit
