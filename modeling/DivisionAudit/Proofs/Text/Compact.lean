import DivisionAudit.Proofs.Text.Numbers

/-!
# How compact JSON is put together

The text of an array is that of its items between brackets, that of an object its fields between
braces, with commas and without blanks. A string stands in quotes as it is when none of its
characters is escaped; texts of letters and numbers are of this kind.

* `Json.Plain`: no character is escaped.
* `Json.text_array`, `Json.text_object`: the texts of values with parts.
-/

namespace DivisionAudit.Json

/-! ## Strings and numbers -/

/-- No character of the text is escaped. -/
def Plain (s : String) : Prop := ∀ c ∈ s.toList, escapeChar c = [c]

instance : DecidablePred Plain := fun s => List.decidableBAll (fun c => escapeChar c = [c]) s.toList

theorem Plain.append {s t : String} (hs : Plain s) (ht : Plain t) : Plain (s ++ t) := by
  rw [Plain, String.toList_append]
  exact List.forall_mem_append.mpr ⟨hs, ht⟩

theorem escapeChar_of_isNumberChar {c : Char} (h : isNumberChar c = true) :
    escapeChar c = [c] := by
  have hNe (d : Char) (hd : isNumberChar d = false) : c ≠ d := by
    rintro rfl
    rw [h] at hd
    cases hd
  have hHigh : ¬ c.toNat < 0x20 := by
    intro hLow
    have hNone : ∀ n < 0x20, isNumberChar (Char.ofNat n) = false := by decide
    exact hNe _ (hNone _ hLow) c.ofNat_toNat.symm
  simp only [escapeChar, if_neg (hNe '"' rfl), if_neg (hNe '\\' rfl), if_neg (hNe '\x08' rfl),
    if_neg (hNe '\x0c' rfl), if_neg (hNe '\n' rfl), if_neg (hNe '\r' rfl), if_neg (hNe '\t' rfl),
    if_neg hHigh]

theorem plain_toString_int (n : ℤ) : Plain (toString n) :=
  fun c hc => escapeChar_of_isNumberChar (ofNumber_toString_int n c hc)

theorem text_string {s : String} (h : Plain s) : (string s).text = "\"" ++ s ++ "\"" := by
  have hEscape : s.toList.flatMap escapeChar = s.toList := by
    rw [List.flatMap_def, List.map_congr_left h, ← List.flatMap_def, List.flatMap_singleton']
  apply String.toList_inj.mp
  simp [text, chars, quote, hEscape]

theorem text_int (n : ℤ) : (int n).text = toString n := String.ofList_toList

theorem text_ofNat (n : ℕ) : (ofNat n).text = toString n := text_int n

/-! ## Values with parts -/

theorem itemChars_eq_intercalate (items : List Json) :
    itemChars items = [','].intercalate (items.map chars) := by
  induction items with
  | nil => rfl
  | cons v rest ih =>
    cases rest with
    | nil => simp [itemChars]
    | cons w rest =>
      rw [itemChars, ih, List.map_cons, List.map_cons, List.map_cons, List.intercalate_cons_cons]
      simp

theorem fieldChars_eq_intercalate (fields : List (String × Json)) : fieldChars fields =
    [','].intercalate (fields.map fun f => quote f.1 ++ ':' :: f.2.chars) := by
  induction fields with
  | nil => rfl
  | cons f rest ih =>
    cases rest with
    | nil => simp [fieldChars]
    | cons g rest =>
      rw [fieldChars, ih, List.map_cons, List.map_cons, List.map_cons, List.intercalate_cons_cons]
      simp

theorem text_array (items : List Json) :
    (array items).text = "[" ++ ",".intercalate (items.map text) ++ "]" := by
  apply String.toList_inj.mp
  simp [text, chars, itemChars_eq_intercalate, Function.comp_def]

theorem text_object (fields : List (String × Json)) : (object fields).text =
    "\x7b" ++ ",".intercalate (fields.map fun f => (string f.1).text ++ ":" ++ f.2.text) ++
      "\x7d" := by
  apply String.toList_inj.mp
  simp [text, chars, fieldChars_eq_intercalate, Function.comp_def]

end DivisionAudit.Json
