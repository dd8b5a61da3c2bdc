import DivisionAudit.Proofs.Decimal.Value
import DivisionAudit.Text.Json

/-!
# Texts of numbers

A number in JSON is written with digits, signs, a point and the letter of an exponent, so its text
ends where any other character stands. A whole number has digits and a sign only; a double has a
point or an exponent besides, so the two are told apart by their texts.

* `ofNumber_toString_int`, `Layout.ofNumber_write`: the characters of a number.
* `readPower_toString_int`: a whole number is read back from its text.
* `Layout.write_ne_toString_int`: no double is written as a whole number is.
-/

namespace DivisionAudit

/-- A digit, a sign, a point or the letter of an exponent. -/
def isNumberChar (c : Char) : Bool := c.isDigit || ['-', '+', '.', 'e'].contains c

/-- The characters are those of a number. -/
def OfNumber (cs : List Char) : Prop := ∀ c ∈ cs, isNumberChar c = true

instance : DecidablePred OfNumber := List.decidableBAll fun c => isNumberChar c = true

namespace OfNumber

theorem append {cs ds : List Char} (hcs : OfNumber cs) (hds : OfNumber ds) : OfNumber (cs ++ ds) :=
  List.forall_mem_append.mpr ⟨hcs, hds⟩

theorem cons {c : Char} {cs : List Char} (hc : isNumberChar c = true) (hcs : OfNumber cs) :
    OfNumber (c :: cs) := List.forall_mem_cons.mpr ⟨hc, hcs⟩

theorem of_isDigit {cs : List Char} (h : ∀ c ∈ cs, c.isDigit = true) : OfNumber cs :=
  fun c hc => Bool.or_eq_true_iff.mpr (.inl (h c hc))

theorem replicate_zero (n : ℕ) : OfNumber (List.replicate n '0') := by
  intro c hc
  rw [List.eq_of_mem_replicate hc]
  decide

end OfNumber

/-! ## Whole numbers -/

theorem ofNumber_toDigits (n : ℕ) : OfNumber (Nat.toDigits 10 n) :=
  .of_isDigit fun _ => Nat.isDigit_of_mem_toDigits (by decide) (by decide)

/-- The digits of the size, after a sign where the number is below zero. -/
theorem toList_toString_int (n : Int) : (toString n).toList =
    if n < 0 then '-' :: Nat.toDigits 10 n.natAbs else Nat.toDigits 10 n.natAbs := by
  rw [Int.toString_eq_repr, Int.repr_eq_if]
  split
  · next h =>
    rw [if_neg (not_lt.mpr h), Nat.toList_repr]
    congr 1
    omega
  · next h =>
    have hSign : "-".toList = ['-'] := rfl
    rw [if_pos (not_le.mp h), String.toList_append, Nat.toList_repr, hSign, List.singleton_append]
    congr 2
    omega

theorem ofNumber_toString_int (n : Int) : OfNumber (toString n).toList := by
  rw [toList_toString_int]
  split
  · exact .cons (by decide) (ofNumber_toDigits _)
  · exact ofNumber_toDigits _

theorem toList_toString_int_ne_nil (n : Int) : (toString n).toList ≠ [] := by
  rw [toList_toString_int]
  split
  · exact List.cons_ne_nil _ _
  · exact Nat.toDigits_ne_nil

/-- Reading a whole number gives it back. -/
theorem readPower_toString_int (n : Int) : readPower (toString n).toList = n := by
  rw [toList_toString_int]
  exact Decimal.readPower_leading (.inl rfl) n

theorem toList_toString_int_injective :
    Function.Injective fun n : Int => (toString n).toList :=
  Function.LeftInverse.injective readPower_toString_int

/-! ## Doubles -/

namespace Decimal

theorem ofNumber_positional (d : Decimal) : OfNumber d.positional := by
  obtain ⟨whole, fraction, hText, hDigits, -⟩ := d.positional_eq
  obtain ⟨hWhole, hFraction⟩ := List.forall_mem_append.mp hDigits
  rw [hText]
  exact .append (.of_isDigit hWhole) (.cons (by decide) (.of_isDigit hFraction))

theorem point_mem_positional (d : Decimal) : '.' ∈ d.positional := by
  obtain ⟨whole, fraction, hText, -⟩ := d.positional_eq
  rw [hText]
  exact List.mem_append_right _ List.mem_cons_self

theorem ofNumber_scientific {sign : List Char} (hSign : OfNumber sign) (d : Decimal) :
    OfNumber (d.scientific sign) := by
  have hDigits : OfNumber d.digits := ofNumber_toDigits _
  have hPower : OfNumber (Nat.toDigits 10 d.leading.natAbs) := ofNumber_toDigits _
  unfold scientific
  refine .append ?_ (.cons (by decide) ?_)
  · generalize d.digits = cs at hDigits
    match cs with
    | [] => exact hDigits
    | [c] => exact hDigits
    | c :: c' :: rest =>
      have hRest := List.forall_mem_cons.mp hDigits
      exact .cons hRest.1 (.cons (by decide) hRest.2)
  · split
    · exact .cons (by decide) hPower
    · exact hSign.append hPower

end Decimal

namespace Layout

theorem ofNumber_write {l : Layout} (hSign : OfNumber l.exponentSign) (x : Binary64) :
    OfNumber (l.write x) := by
  unfold write
  refine .append ?_ ?_
  · split
    · decide
    · decide
  · split
    · decide
    · unfold writeDecimal
      split
      · exact Decimal.ofNumber_positional _
      · exact Decimal.ofNumber_scientific hSign _

/-- A double has a point or an exponent. -/
theorem mem_write (l : Layout) (x : Binary64) : '.' ∈ l.write x ∨ 'e' ∈ l.write x := by
  have hSize : ∃ c ∈ ['.', 'e'], c ∈ if x.isZero then ['0', '.', '0']
      else l.writeDecimal (x.magnitude.shortest l.tie) := by
    split
    · exact ⟨'.', by decide, by decide⟩
    unfold writeDecimal
    split
    · exact ⟨'.', by decide, Decimal.point_mem_positional _⟩
    · exact ⟨'e', by decide, List.mem_append_right _ List.mem_cons_self⟩
  obtain ⟨c, hc, hMem⟩ := hSize
  have hWrite : c ∈ l.write x := List.mem_append_right _ hMem
  simp only [List.mem_cons, List.not_mem_nil, or_false] at hc
  rcases hc with rfl | rfl
  · exact .inl hWrite
  · exact .inr hWrite

theorem write_ne_nil (l : Layout) (x : Binary64) : l.write x ≠ [] := by
  rcases l.mem_write x with hMem | hMem
  · exact List.ne_nil_of_mem hMem
  · exact List.ne_nil_of_mem hMem

/-- A whole number has neither a point nor an exponent. -/
theorem write_ne_toString_int (l : Layout) (x : Binary64) (n : Int) :
    l.write x ≠ (toString n).toList := by
  intro h
  have hDigits (c : Char) (hc : c ∈ (toString n).toList) : c.isDigit = true ∨ c = '-' := by
    rw [toList_toString_int] at hc
    split at hc
    · rcases List.mem_cons.mp hc with hc | hc
      · exact .inr hc
      · exact .inl (Nat.isDigit_of_mem_toDigits (by decide) (by decide) hc)
    · exact .inl (Nat.isDigit_of_mem_toDigits (by decide) (by decide) hc)
  rcases mem_write l x with hMem | hMem
  · exact absurd (hDigits _ (h ▸ hMem)) (by decide)
  · exact absurd (hDigits _ (h ▸ hMem)) (by decide)

end Layout

end DivisionAudit
