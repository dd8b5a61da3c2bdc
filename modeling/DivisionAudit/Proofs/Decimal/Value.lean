import DivisionAudit.Decimal.Layout
import Mathlib.Algebra.Field.Rat
import Mathlib.Algebra.Order.Field.Rat
import Mathlib.Tactic.Ring

/-!
# The value of a decimal text

The two forms of a decimal, with a point only and with an exponent, are read back to the number
they stand for: all digits in one, shifted by the digits after the point and by the exponent. So
two decimals that are written alike have one value, whatever form a layout chose.

* `Decimal.positional_eq`: the parts of the positional form.
* `Decimal.readNumber_writeDecimal`: both forms have the value of the decimal.
-/

namespace DivisionAudit

/-! ## Reading a text -/

/-- What stands before the first such mark, and what stands after it. -/
def splitMark (mark : Char) (cs : List Char) : List Char × List Char :=
  (cs.takeWhile (· ≠ mark), (cs.dropWhile (· ≠ mark)).tail)

/-- Digits, with a point among them or without. -/
def readFixed (cs : List Char) : ℚ :=
  let (whole, fraction) := splitMark '.' cs
  Nat.ofDigitChars 10 (whole ++ fraction) 0 * 10 ^ (-(fraction.length : ℤ))

def readPower : List Char → ℤ
  | '-' :: cs => -Nat.ofDigitChars 10 cs 0
  | '+' :: cs => Nat.ofDigitChars 10 cs 0
  | cs => Nat.ofDigitChars 10 cs 0

/-- A number without its sign. -/
def readNumber (cs : List Char) : ℚ :=
  let (fixed, power) := splitMark 'e' cs
  readFixed fixed * 10 ^ readPower power

theorem splitMark_append {mark : Char} {cs : List Char} (h : mark ∉ cs) (ds : List Char) :
    splitMark mark (cs ++ mark :: ds) = (cs, ds) := by
  have hBefore : ∀ c ∈ cs, decide (c ≠ mark) = true := fun c hc =>
    decide_eq_true (ne_of_mem_of_not_mem hc h)
  rw [splitMark, List.takeWhile_append_of_pos hBefore, List.dropWhile_append_of_pos hBefore,
    List.takeWhile_cons, List.dropWhile_cons, if_neg (by simp), if_neg (by simp), List.append_nil,
    List.tail_cons]

theorem splitMark_of_notMem {mark : Char} {cs : List Char} (h : mark ∉ cs) :
    splitMark mark cs = (cs, []) := by
  have hBefore : ∀ c ∈ cs, decide (c ≠ mark) = true := fun c hc =>
    decide_eq_true (ne_of_mem_of_not_mem hc h)
  conv_lhs => rw [splitMark, ← List.append_nil cs]
  rw [List.takeWhile_append_of_pos hBefore, List.dropWhile_append_of_pos hBefore,
    List.takeWhile_nil, List.dropWhile_nil, List.append_nil, List.tail_nil]

theorem readFixed_point {whole : List Char} (h : '.' ∉ whole) (fraction : List Char) :
    readFixed (whole ++ '.' :: fraction) =
      Nat.ofDigitChars 10 (whole ++ fraction) 0 * 10 ^ (-(fraction.length : ℤ)) := by
  rw [readFixed, splitMark_append h]

theorem readFixed_whole {whole : List Char} (h : '.' ∉ whole) :
    readFixed whole = Nat.ofDigitChars 10 whole 0 := by
  rw [readFixed, splitMark_of_notMem h]
  dsimp only
  rw [List.append_nil]
  exact mul_one _

theorem readNumber_of_notMem {fixed : List Char} (h : 'e' ∉ fixed) :
    readNumber fixed = readFixed fixed := by
  rw [readNumber, splitMark_of_notMem h]
  exact mul_one _

theorem readNumber_power {fixed : List Char} (h : 'e' ∉ fixed) (power : List Char) :
    readNumber (fixed ++ 'e' :: power) = readFixed fixed * 10 ^ readPower power := by
  rw [readNumber, splitMark_append h]

theorem readNumber_zero : readNumber ['0', '.', '0'] = 0 := by
  have hPoint : '.' ∉ ['0'] := by decide
  have hFixed := readFixed_point hPoint ['0']
  have hDigits : Nat.ofDigitChars 10 (['0'] ++ ['0']) 0 = 0 := by decide
  rw [hDigits, Nat.cast_zero, zero_mul] at hFixed
  rw [readNumber_of_notMem (by decide)]
  exact hFixed

/-! ## Decimals -/

theorem notMem_toDigits {c : Char} (h : c.isDigit = false) (n : ℕ) : c ∉ Nat.toDigits 10 n := by
  intro hc
  rw [Nat.isDigit_of_mem_toDigits (by decide) (by decide) hc] at h
  cases h

theorem ne_minus_of_isDigit {c : Char} (h : c.isDigit = true) : c ≠ '-' := by
  rintro rfl
  cases h

theorem head?_ne_of_ne {c d : Char} (h : c ≠ d) (cs : List Char) : (c :: cs).head? ≠ some d :=
  fun hHead => h (Option.some.inj hHead)

namespace Decimal

def value (d : Decimal) : ℚ := d.coefficient * 10 ^ d.exponent

theorem ofDigitChars_digits (d : Decimal) : Nat.ofDigitChars 10 d.digits 0 = d.coefficient :=
  Nat.ofDigitChars_ten_toDigits

theorem isDigit_of_mem_digits {d : Decimal} {c : Char} (h : c ∈ d.digits) : c.isDigit = true :=
  Nat.isDigit_of_mem_toDigits (by decide) (by decide) h

theorem digits_length_pos (d : Decimal) : 0 < d.digits.length := Nat.length_toDigits_pos

/-- The point stands between digits that make up the value. -/
theorem positional_eq (d : Decimal) : ∃ whole fraction : List Char,
    d.positional = whole ++ '.' :: fraction ∧ (∀ c ∈ whole ++ fraction, c.isDigit = true) ∧
      (Nat.ofDigitChars 10 (whole ++ fraction) 0 : ℚ) * 10 ^ (-(fraction.length : ℤ)) =
        d.value := by
  have hDigits : ∀ c ∈ d.digits, c.isDigit = true := fun c => isDigit_of_mem_digits
  have hZeros (n : ℕ) : ∀ c ∈ List.replicate n '0', c.isDigit = true := fun c hc => by
    rw [List.eq_of_mem_replicate hc]
    decide
  have hLength := d.digits_length_pos
  unfold positional
  dsimp only
  split
  · next hWhole =>
    obtain ⟨n, hn⟩ := Int.eq_ofNat_of_zero_le hWhole
    refine ⟨d.digits ++ List.replicate n '0', ['0'], ?_, ?_, ?_⟩
    · rw [hn, Int.toNat_natCast]
    · simp only [List.forall_mem_append]
      exact ⟨⟨hDigits, hZeros n⟩, hZeros 1⟩
    · have hAll : Nat.ofDigitChars 10 (d.digits ++ List.replicate n '0' ++ ['0']) 0 =
          10 * (10 ^ n * d.coefficient) := by
        rw [Nat.ofDigitChars_append, Nat.ofDigitChars_append, ofDigitChars_digits,
          Nat.ofDigitChars_replicate_zero]
        rfl
      rw [hAll, value, hn, zpow_natCast, List.length_singleton]
      push_cast
      ring
  split
  · next hFraction hPoint =>
    refine ⟨d.digits.take (d.leading + 1).toNat, d.digits.drop (d.leading + 1).toNat, rfl, ?_, ?_⟩
    · rwa [List.take_append_drop]
    · rw [List.take_append_drop, ofDigitChars_digits, value, List.length_drop]
      congr 2
      unfold leading at hPoint ⊢
      omega
  · next hFraction hPoint =>
    refine ⟨['0'], List.replicate (-(d.leading + 1)).toNat '0' ++ d.digits, rfl, ?_, ?_⟩
    · simp only [List.forall_mem_append]
      exact ⟨hZeros 1, hZeros _, hDigits⟩
    · have hAll : Nat.ofDigitChars 10
          (['0'] ++ (List.replicate (-(d.leading + 1)).toNat '0' ++ d.digits)) 0 =
            d.coefficient := by
        rw [Nat.ofDigitChars_append, Nat.ofDigitChars_append, Nat.ofDigitChars_cons,
          Nat.ofDigitChars_nil, Nat.ofDigitChars_replicate_zero]
        exact ofDigitChars_digits d
      rw [hAll, value, List.length_append, List.length_replicate]
      congr 2
      unfold leading at hPoint ⊢
      omega

theorem readNumber_positional (d : Decimal) : readNumber d.positional = d.value := by
  obtain ⟨whole, fraction, hText, hDigits, hValue⟩ := d.positional_eq
  have hNot {c : Char} (hc : c.isDigit = false) : c ∉ whole ++ fraction := fun hMem => by
    rw [hDigits c hMem] at hc
    cases hc
  have hPoint : '.' ∉ whole := fun h => hNot (by decide) (List.mem_append_left _ h)
  have hPower : 'e' ∉ whole ++ '.' :: fraction := by
    have hNone := hNot (c := 'e') (by decide)
    simp only [List.mem_append, List.mem_cons, not_or] at hNone ⊢
    exact ⟨hNone.1, by decide, hNone.2⟩
  rw [hText, readNumber_of_notMem hPower, readFixed_point hPoint, hValue]

theorem head?_positional (d : Decimal) : d.positional.head? ≠ some '-' := by
  obtain ⟨whole, fraction, hText, hDigits, -⟩ := d.positional_eq
  rw [hText]
  match whole with
  | [] => exact head?_ne_of_ne (by decide) _
  | c :: rest => exact head?_ne_of_ne (ne_minus_of_isDigit (hDigits c List.mem_cons_self)) _

/-! ## The exponent form -/

/-- The sign of an exponent that is not negative. -/
abbrev IsPlus (sign : List Char) : Prop := sign = [] ∨ sign = ['+']

theorem readPower_digits (n : ℕ) : readPower (Nat.toDigits 10 n) = n := by
  have hMinus := notMem_toDigits (c := '-') (by decide) n
  have hPlus := notMem_toDigits (c := '+') (by decide) n
  rw [readPower, Nat.ofDigitChars_ten_toDigits]
  · rintro cs hcs
    exact hMinus (hcs ▸ List.mem_cons_self)
  · rintro cs hcs
    exact hPlus (hcs ▸ List.mem_cons_self)

theorem readPower_leading {sign : List Char} (hSign : IsPlus sign) (n : ℤ) :
    readPower (if n < 0 then '-' :: Nat.toDigits 10 n.natAbs
      else sign ++ Nat.toDigits 10 n.natAbs) = n := by
  split
  · next h =>
    rw [readPower, Nat.ofDigitChars_ten_toDigits]
    omega
  · next h =>
    rcases hSign with rfl | rfl
    · rw [List.nil_append, readPower_digits]
      omega
    · rw [List.cons_append, List.nil_append, readPower, Nat.ofDigitChars_ten_toDigits]
      omega

theorem readNumber_scientific {sign : List Char} (hSign : IsPlus sign) (d : Decimal) :
    readNumber (d.scientific sign) = d.value := by
  have hPoint : '.' ∉ d.digits := notMem_toDigits (by decide) _
  have hPower : 'e' ∉ d.digits := notMem_toDigits (by decide) _
  have hAll := d.ofDigitChars_digits
  have hLength := d.digits_length_pos
  have hTen : (10 : ℚ) ≠ 0 := by norm_num
  unfold scientific
  dsimp only
  generalize hText : d.digits = cs at hPoint hPower hAll hLength
  match cs with
  | [c] =>
    have hLeading : d.leading = d.exponent := by
      rw [leading, hText]
      exact Int.add_sub_cancel _ _
    dsimp only
    rw [readNumber_power hPower, readPower_leading hSign, readFixed_whole hPoint, hAll, hLeading,
      value]
  | c :: c' :: rest =>
    have hLeading : d.leading = d.exponent + (c' :: rest).length := by
      rw [leading, hText, List.length_cons (a := c)]
      push_cast
      ring
    have hFirst : '.' ∉ [c] := fun h => hPoint (List.mem_cons.mpr (.inl (List.mem_singleton.mp h)))
    have hPower' : 'e' ∉ c :: '.' :: c' :: rest := by
      simp only [List.mem_cons, not_or] at hPower ⊢
      exact ⟨hPower.1, by decide, hPower.2⟩
    dsimp only
    have hFixed := readFixed_point hFirst (c' :: rest)
    rw [List.cons_append, List.nil_append, List.cons_append, List.nil_append, hAll] at hFixed
    rw [readNumber_power hPower', readPower_leading hSign, hFixed, hLeading, value, mul_assoc,
      ← zpow_add₀ hTen]
    congr 2
    ring

theorem head?_scientific (d : Decimal) (sign : List Char) :
    (d.scientific sign).head? ≠ some '-' := by
  have hDigits : ∀ c ∈ d.digits, c.isDigit = true := fun c => isDigit_of_mem_digits
  have hLength := d.digits_length_pos
  unfold scientific
  generalize d.digits = cs at hDigits hLength
  match cs with
  | [c] => exact head?_ne_of_ne (ne_minus_of_isDigit (hDigits c List.mem_cons_self)) _
  | c :: c' :: rest => exact head?_ne_of_ne (ne_minus_of_isDigit (hDigits c List.mem_cons_self)) _

theorem readNumber_writeDecimal {l : Layout} (hSign : IsPlus l.exponentSign) (d : Decimal) :
    readNumber (l.writeDecimal d) = d.value := by
  unfold Layout.writeDecimal
  split
  · exact readNumber_positional d
  · exact readNumber_scientific hSign d

end Decimal

end DivisionAudit
