import DivisionAudit.Audit.Summary
import DivisionAudit.Proofs.Text.Numbers

/-!
# Texts of one line

Compact JSON has no line break, whatever strings it holds: a break inside a string is escaped, and
none stands between the parts. A number and a duration have none either. So a summary is said in
one line, in words and as JSON.

* `Json.oneLine_text`: compact JSON.
* `Duration.oneLine_rounded`: durations.
-/

namespace DivisionAudit

/-- No character ends the line. -/
def OneLine (cs : List Char) : Prop := '\n' ∉ cs

instance : DecidablePred OneLine := fun cs => inferInstanceAs (Decidable ('\n' ∉ cs))

namespace OneLine

theorem nil : OneLine [] := List.not_mem_nil

theorem cons {c : Char} {cs : List Char} (hc : c ≠ '\n') (hcs : OneLine cs) : OneLine (c :: cs) :=
  List.not_mem_cons_of_ne_of_not_mem hc.symm hcs

theorem append {cs ds : List Char} (hcs : OneLine cs) (hds : OneLine ds) : OneLine (cs ++ ds) :=
  List.not_mem_append hcs hds

theorem flatMap {α : Type} {f : α → List Char} {xs : List α} (h : ∀ x, OneLine (f x)) :
    OneLine (xs.flatMap f) := by
  intro hMem
  obtain ⟨x, -, hx⟩ := List.mem_flatMap.mp hMem
  exact h x hx

end OneLine

theorem OfNumber.oneLine {cs : List Char} (h : OfNumber cs) : OneLine cs :=
  fun hMem => absurd (h _ hMem) (by decide)

theorem oneLine_toString_nat (n : ℕ) : OneLine (toString n).toList := by
  rw [Nat.toString_eq_repr, Nat.toList_repr]
  exact (ofNumber_toDigits n).oneLine

/-! ## JSON -/

namespace Json

theorem digitChar_ne_newline : ∀ n < 16, Nat.digitChar n ≠ '\n' := by decide

/-- A line break is escaped by its short name. -/
theorem oneLine_escapeChar (c : Char) : OneLine (escapeChar c) := by
  by_cases hBreak : c = '\n'
  · subst hBreak
    decide
  unfold escapeChar
  -- the six other characters with a short name
  iterate 6
    split
    · decide
  split
  · next hControl =>
    have hHigh := digitChar_ne_newline (c.toNat / 16) (by omega)
    have hLow := digitChar_ne_newline (c.toNat % 16) (by omega)
    exact .append (by decide : OneLine ['\\', 'u', '0', '0']) (.cons hHigh (.cons hLow .nil))
  · exact .cons hBreak .nil

theorem oneLine_quote (s : String) : OneLine (quote s) :=
  .append (.cons (by decide) (.flatMap oneLine_escapeChar)) (by decide)

mutual

theorem oneLine_chars : (v : Json) → OneLine v.chars
  | .null => by decide
  | .bool true => by decide
  | .bool false => by decide
  | .int n => (ofNumber_toString_int n).oneLine
  | .double x => by
    unfold chars
    split
    · exact (Layout.ofNumber_write (by decide) x).oneLine
    · decide
  | .string s => oneLine_quote s
  | .array items => .append (.cons (by decide) (oneLine_itemChars items)) (by decide)
  | .object fields => .append (.cons (by decide) (oneLine_fieldChars fields)) (by decide)

theorem oneLine_itemChars : (items : List Json) → OneLine (itemChars items)
  | [] => .nil
  | [v] => oneLine_chars v
  | v :: w :: rest =>
    .append (oneLine_chars v) (.cons (by decide) (oneLine_itemChars (w :: rest)))

theorem oneLine_fieldChars : (fields : List (String × Json)) → OneLine (fieldChars fields)
  | [] => .nil
  | [(k, v)] => .append (oneLine_quote k) (.cons (by decide) (oneLine_chars v))
  | (k, v) :: f :: rest =>
    .append (.append (oneLine_quote k) (.cons (by decide) (oneLine_chars v)))
      (.cons (by decide) (oneLine_fieldChars (f :: rest)))

end

theorem oneLine_text (v : Json) : OneLine v.text.toList := by
  rw [text, String.toList_ofList]
  exact oneLine_chars v

end Json

/-! ## Durations -/

namespace Duration

theorem oneLine_decimals (places n : ℕ) : OneLine (decimals places n) := by
  unfold decimals
  dsimp only
  split
  · exact .nil
  · exact ((OfNumber.replicate_zero _).append (ofNumber_toDigits n)).oneLine

theorem oneLine_unit (d : Duration) : OneLine d.unit.1.toList := by
  unfold unit
  split_ifs
  · decide
  · decide
  · decide
  · decide

theorem oneLine_assemble (whole : ℕ) {cs : List Char} {unit : String} (hcs : OneLine cs)
    (hUnit : OneLine unit.toList) : OneLine (assemble whole cs unit).toList := by
  unfold assemble
  rw [String.toList_append, String.toList_append]
  refine .append (.append (oneLine_toString_nat whole) ?_) hUnit
  split
  · decide
  · have hDecimals : OneLine (String.ofList cs).toList := by rwa [String.toList_ofList]
    rw [String.toList_append]
    exact .append (by decide) hDecimals

theorem oneLine_rounded (d : Duration) : OneLine d.rounded.toList :=
  oneLine_assemble _ (oneLine_decimals _ _) d.oneLine_unit

end Duration

end DivisionAudit
