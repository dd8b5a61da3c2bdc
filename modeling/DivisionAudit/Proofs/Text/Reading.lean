import DivisionAudit.Proofs.Text.Numbers

/-!
# Reading compact JSON

Compact JSON is read back from its text: a string ends at the first quote that is not escaped, a
number where no character of a number stands, and an array or an object where its last part is not
followed by a comma. What is read are the strings, keys and parts themselves, and the numbers as
they are written, since a text does not say of which kind a number is. So values with the same text
have the same parts in the same order.

* `readString_escape`: a string and what stands after it.
* `readValue_chars`: a value and what stands after it.
* `read?_text`: a whole text.
-/

namespace DivisionAudit.Json

/-! ## What a text says -/

/-- A value whose numbers are kept as they are written. -/
inductive Written
  | null
  | bool (value : Bool)
  | number (text : List Char)
  | string (value : String)
  | array (items : List Written)
  | object (fields : List (String × Written))

mutual

def written : Json → Written
  | .null => .null
  | .bool b => .bool b
  | .int n => .number (toString n).toList
  | .double x => if x.isFinite then .number (layout.write x) else .null
  | .string s => .string s
  | .array items => .array (writtenItems items)
  | .object fields => .object (writtenFields fields)

def writtenItems : List Json → List Written
  | [] => []
  | v :: rest => v.written :: writtenItems rest

def writtenFields : List (String × Json) → List (String × Written)
  | [] => []
  | (k, v) :: rest => (k, v.written) :: writtenFields rest

end

namespace Written

def string? : Written → Option String
  | .string s => some s
  | _ => none

/-- A whole number that may be missing. -/
def natural? : Written → Option (Option ℕ)
  | .null => some none
  | .number cs => if cs.all Char.isDigit then some (some (Nat.ofDigitChars 10 cs 0)) else none
  | _ => none

/-- The fields of an object of texts. -/
def texts? : Written → Option (List (String × String))
  | .object fields => fields.mapM fun (f : String × Written) => f.2.string?.map (f.1, ·)
  | _ => none

/-- The first field with a name. -/
def field? (name : String) : Written → Option Written
  | .object fields => fields.lookup name
  | _ => none

end Written

theorem natural?_written_ofNat? (index : Option ℕ) :
    (ofNat? index).written.natural? = some index := by
  cases index with
  | none => rfl
  | some n =>
    have hDigits : (Nat.toDigits 10 n).all Char.isDigit = true :=
      List.all_eq_true.mpr fun c hc => Nat.isDigit_of_mem_toDigits (by decide) (by decide) hc
    rw [ofNat?, ofNat, written, toList_toString_int, if_neg (not_lt.mpr (Int.natCast_nonneg n)),
      Int.natAbs_natCast, Written.natural?, if_pos hDigits, Nat.ofDigitChars_ten_toDigits]

theorem texts?_written (entries : List (String × String)) :
    (object (entries.map fun e => (e.1, .string e.2))).written.texts? = some entries := by
  rw [written, Written.texts?]
  induction entries with
  | nil => rfl
  | cons e rest ih =>
    rw [List.map_cons, writtenFields, List.mapM_cons, ih]
    rfl

/-! ## The reader -/

/-- The character with a short name. -/
def ofShortName? : Char → Option Char
  | '"' => some '"'
  | '\\' => some '\\'
  | 'b' => some '\x08'
  | 'f' => some '\x0c'
  | 'n' => some '\n'
  | 'r' => some '\r'
  | 't' => some '\t'
  | _ => none

def hexValue (c : Char) : ℕ := if c.isDigit then c.toNat - '0'.toNat else c.toNat - 'a'.toNat + 10

/-- A string up to its closing quote, and what stands after it. -/
def readString : List Char → Option (List Char × List Char)
  | [] => none
  | '"' :: rest => some ([], rest)
  | '\\' :: 'u' :: '0' :: '0' :: high :: low :: rest =>
    (readString rest).map (Prod.map (Char.ofNat (16 * hexValue high + hexValue low) :: ·) id)
  | '\\' :: name :: rest => do
    let c ← ofShortName? name
    (readString rest).map (Prod.map (c :: ·) id)
  | c :: rest => (readString rest).map (Prod.map (c :: ·) id)

/-- A value without parts. -/
def readAtom : List Char → Option (Written × List Char)
  | 'n' :: 'u' :: 'l' :: 'l' :: rest => some (.null, rest)
  | 't' :: 'r' :: 'u' :: 'e' :: rest => some (.bool true, rest)
  | 'f' :: 'a' :: 'l' :: 's' :: 'e' :: rest => some (.bool false, rest)
  | '"' :: rest => (readString rest).map (Prod.map (fun s => .string (.ofList s)) id)
  | c :: cs =>
    if isNumberChar c then
      some (.number ((c :: cs).takeWhile isNumberChar), (c :: cs).dropWhile isNumberChar)
    else none
  | [] => none

mutual

/-- A value and what stands after it; the fuel bounds how deep and how far it is read. -/
def readValue : ℕ → List Char → Option (Written × List Char)
  | 0, _ => none
  | _ + 1, '[' :: ']' :: rest => some (.array [], rest)
  | fuel + 1, '[' :: rest => (readItems fuel rest).map (Prod.map .array id)
  | _ + 1, '\x7b' :: '\x7d' :: rest => some (.object [], rest)
  | fuel + 1, '\x7b' :: rest => (readFields fuel rest).map (Prod.map .object id)
  | _ + 1, cs => readAtom cs

/-- The items of an array, up to its closing mark. -/
def readItems : ℕ → List Char → Option (List Written × List Char)
  | 0, _ => none
  | fuel + 1, cs => do
    let (v, rest) ← readValue fuel cs
    match rest with
    | ',' :: rest => (readItems fuel rest).map (Prod.map (v :: ·) id)
    | ']' :: rest => some ([v], rest)
    | _ => none

/-- The fields of an object, up to its closing mark. -/
def readFields : ℕ → List Char → Option (List (String × Written) × List Char)
  | fuel + 1, '"' :: cs => do
    let (k, rest) ← readString cs
    let (v, rest) ← readField fuel rest
    match rest with
    | ',' :: rest => (readFields fuel rest).map (Prod.map ((.ofList k, v) :: ·) id)
    | '\x7d' :: rest => some ([(.ofList k, v)], rest)
    | _ => none
  | _, _ => none

/-- The value of a field, after its colon. -/
def readField : ℕ → List Char → Option (Written × List Char)
  | fuel + 1, ':' :: rest => readValue fuel rest
  | _, _ => none

end

/-- A text that holds one value and nothing else. -/
def read? (text : String) : Option Written :=
  match readValue text.length text.toList with
  | some (v, []) => some v
  | _ => none

/-! ## Strings -/

theorem hexValue_digitChar : ∀ n < 16, hexValue (Nat.digitChar n) = n := by decide

theorem readString_cons {c : Char} (hQuote : c ≠ '"') (hEscape : c ≠ '\\') (rest : List Char) :
    readString (c :: rest) = (readString rest).map (Prod.map (c :: ·) id) := by
  rw [readString]
  · exact hQuote
  · intro high low rest' h
    exact absurd h hEscape
  · intro name rest' h
    exact absurd h hEscape

theorem readString_escapeChar (c : Char) (rest : List Char) :
    readString (escapeChar c ++ rest) = (readString rest).map (Prod.map (c :: ·) id) := by
  by_cases hQuote : c = '"'
  · subst hQuote
    rfl
  by_cases hEscape : c = '\\'
  · subst hEscape
    rfl
  unfold escapeChar
  rw [if_neg hQuote, if_neg hEscape]
  -- the five other characters with a short name
  iterate 5
    split
    · next h =>
      subst h
      rfl
  split
  · next hControl =>
    have hCode : Char.ofNat (16 * hexValue (Nat.digitChar (c.toNat / 16))
        + hexValue (Nat.digitChar (c.toNat % 16))) = c := by
      rw [hexValue_digitChar _ (by omega), hexValue_digitChar _ (by omega), Nat.div_add_mod]
      exact Char.ofNat_toNat c
    simp only [List.cons_append, List.nil_append, readString, hCode]
  · exact readString_cons hQuote hEscape rest

theorem readString_escape (s rest : List Char) :
    readString (s.flatMap escapeChar ++ '"' :: rest) = some (s, rest) := by
  induction s with
  | nil => rfl
  | cons c s ih =>
    rw [List.flatMap_cons, List.append_assoc, readString_escapeChar, ih]
    rfl

/-! ## Numbers and other atoms -/

/-- A number that stands before this ends there. -/
def Ends (rest : List Char) : Prop := ∀ c ∈ rest.head?, isNumberChar c = false

theorem Ends.nil : Ends [] := nofun

theorem Ends.cons {c : Char} (h : isNumberChar c = false) (rest : List Char) :
    Ends (c :: rest) := by
  intro d hd
  rwa [← Option.some.inj hd]

theorem Ends.takeWhile_eq_nil {rest : List Char} (h : Ends rest) :
    rest.takeWhile isNumberChar = [] := by
  cases rest with
  | nil => rfl
  | cons c rest => rw [List.takeWhile_cons, h c rfl, if_neg Bool.false_ne_true]

theorem Ends.dropWhile_eq {rest : List Char} (h : Ends rest) :
    rest.dropWhile isNumberChar = rest := by
  cases rest with
  | nil => rfl
  | cons c rest => rw [List.dropWhile_cons, h c rfl, if_neg Bool.false_ne_true]

theorem readAtom_cons {c : Char} (h : isNumberChar c = true) (cs : List Char) :
    readAtom (c :: cs) = some (.number ((c :: cs).takeWhile isNumberChar),
      (c :: cs).dropWhile isNumberChar) := by
  have hne (d : Char) (hd : isNumberChar d = false) : c ≠ d := by
    rintro rfl
    rw [h] at hd
    exact Bool.noConfusion hd
  rw [readAtom, if_pos h]
  · exact fun rest e => absurd e (hne 'n' rfl)
  · exact fun rest e => absurd e (hne 't' rfl)
  · exact fun rest e => absurd e (hne 'f' rfl)
  · exact fun e => absurd e (hne '"' rfl)

theorem readAtom_number {cs rest : List Char} (hcs : OfNumber cs) (hNonempty : cs ≠ [])
    (hEnds : Ends rest) : readAtom (cs ++ rest) = some (.number cs, rest) := by
  obtain ⟨c, cs', rfl⟩ := List.exists_cons_of_ne_nil hNonempty
  rw [List.cons_append, readAtom_cons (hcs c List.mem_cons_self), ← List.cons_append,
    List.takeWhile_append_of_pos hcs, List.dropWhile_append_of_pos hcs, hEnds.takeWhile_eq_nil,
    hEnds.dropWhile_eq, List.append_nil]

theorem readValue_atom {c : Char} (hArray : c ≠ '[') (hObject : c ≠ '\x7b') (fuel : ℕ)
    (cs : List Char) : readValue (fuel + 1) (c :: cs) = readAtom (c :: cs) := by
  rw [readValue]
  · exact fun rest e => hArray (List.head_eq_of_cons_eq e)
  · exact fun rest e => hArray (List.head_eq_of_cons_eq e)
  · exact fun rest e => hObject (List.head_eq_of_cons_eq e)
  · exact fun rest e => hObject (List.head_eq_of_cons_eq e)

/-! ## Values -/

theorem readValue_number {cs rest : List Char} (hcs : OfNumber cs) (hNonempty : cs ≠ [])
    (hEnds : Ends rest) {fuel : ℕ} (h : cs.length ≤ fuel) :
    readValue fuel (cs ++ rest) = some (.number cs, rest) := by
  rw [← readAtom_number hcs hNonempty hEnds]
  obtain ⟨c, cs, rfl⟩ := List.exists_cons_of_ne_nil hNonempty
  obtain ⟨fuel, rfl⟩ := Nat.exists_eq_add_one.mpr (Nat.lt_of_lt_of_le (Nat.zero_lt_succ _) h)
  have hc := hcs c List.mem_cons_self
  refine readValue_atom ?_ ?_ fuel _
  · rintro rfl
    exact absurd hc (by decide)
  · rintro rfl
    exact absurd hc (by decide)

theorem quote_append (s : String) (rest : List Char) :
    quote s ++ rest = '"' :: (s.toList.flatMap escapeChar ++ '"' :: rest) := by
  simp only [quote, List.cons_append, List.append_assoc, List.nil_append]

theorem readValue_quote (s : String) (rest : List Char) {fuel : ℕ} (h : 0 < fuel) :
    readValue fuel (quote s ++ rest) = some (.string s, rest) := by
  obtain ⟨fuel, rfl⟩ := Nat.exists_eq_add_one.mpr h
  rw [quote_append, readValue_atom (by decide) (by decide), readAtom, readString_escape,
    Option.map_some, Prod.map_apply, String.ofList_toList]
  rfl

theorem readFields_quote (k : String) (rest : List Char) (fuel : ℕ) :
    readFields (fuel + 1) (quote k ++ rest) = (readField fuel rest).bind fun (v, rest) =>
      match rest with
      | ',' :: rest => (readFields fuel rest).map (Prod.map ((k, v) :: ·) id)
      | '\x7d' :: rest => some ([(k, v)], rest)
      | _ => none := by
  rw [quote_append, readFields, readString_escape]
  simp only [Option.bind_eq_bind, Option.bind_some, String.ofList_toList]

theorem readItems_bracket (fuel : ℕ) (rest : List Char) : readItems fuel (']' :: rest) = none := by
  match fuel with
  | 0 => rfl
  | 1 => rfl
  | fuel + 2 =>
    rw [readItems, readValue_atom (by decide) (by decide)]
    rfl

/-- An array with items, for its items do not start with its closing mark. -/
theorem readValue_array {fuel : ℕ} {cs rest : List Char} {items : List Written}
    (h : readItems fuel cs = some (items, rest)) :
    readValue (fuel + 1) ('[' :: cs) = some (.array items, rest) := by
  rw [readValue, h]
  · rfl
  · rintro rest' rfl
    rw [readItems_bracket] at h
    cases h

/-- An object with fields, whose first key starts with a quote. -/
theorem readValue_object {fuel : ℕ} {cs rest : List Char} {fields : List (String × Written)}
    (h : readFields fuel cs = some (fields, rest)) :
    readValue (fuel + 1) ('\x7b' :: cs) = some (.object fields, rest) := by
  rw [readValue, h]
  · rfl
  · rintro rest' rfl
    rw [readFields] at h
    · cases h
    · intro fuel' cs' _ e
      exact absurd (List.head_eq_of_cons_eq e) (by decide)

mutual

theorem readValue_chars : (v : Json) → {rest : List Char} → Ends rest → {fuel : ℕ} →
    v.chars.length ≤ fuel → readValue fuel (v.chars ++ rest) = some (v.written, rest)
  | .null, rest, _, fuel + 1, _ => rfl
  | .bool true, rest, _, fuel + 1, _ => rfl
  | .bool false, rest, _, fuel + 1, _ => rfl
  | .int n, rest, hEnds, fuel, h =>
    readValue_number (ofNumber_toString_int n) (toList_toString_int_ne_nil n) hEnds h
  | .double x, rest, hEnds, fuel, h => by
    rw [chars] at h ⊢
    rw [written]
    split at h
    · next hFinite =>
      rw [if_pos hFinite, if_pos hFinite]
      exact readValue_number (Layout.ofNumber_write (by decide) x) (layout.write_ne_nil x) hEnds h
    · next hFinite =>
      obtain ⟨fuel, rfl⟩ := Nat.exists_eq_add_one.mpr (Nat.lt_of_lt_of_le (by decide) h)
      rw [if_neg hFinite, if_neg hFinite]
      rfl
  | .string s, rest, _, _, h => readValue_quote s rest (Nat.lt_of_lt_of_le (Nat.zero_lt_succ _) h)
  | .array [], rest, _, fuel + 1, _ => rfl
  | .array (v :: items), rest, _, fuel + 1, h => by
    rw [chars, List.length_append, List.length_cons] at h
    rw [chars, List.cons_append, List.cons_append, List.append_assoc]
    exact readValue_array (readItems_itemChars (v :: items) (List.cons_ne_nil _ _) rest
      (Nat.lt_of_succ_le (Nat.le_of_succ_le_succ h)))
  | .object [], rest, _, fuel + 1, _ => rfl
  | .object (f :: fields), rest, _, fuel + 1, h => by
    rw [chars, List.length_append, List.length_cons] at h
    rw [chars, List.cons_append, List.cons_append, List.append_assoc]
    exact readValue_object (readFields_fieldChars (f :: fields) (List.cons_ne_nil _ _) rest
      (Nat.lt_of_succ_le (Nat.le_of_succ_le_succ h)))

theorem readItems_itemChars : (items : List Json) → items ≠ [] → (rest : List Char) → {fuel : ℕ} →
    (itemChars items).length < fuel →
      readItems fuel (itemChars items ++ ']' :: rest) = some (writtenItems items, rest)
  | [], hNonempty, rest, fuel, h => absurd rfl hNonempty
  | [v], _, rest, fuel + 1, h => by
    rw [itemChars] at h ⊢
    rw [readItems, readValue_chars v (.cons (by decide) rest) (Nat.lt_succ_iff.mp h)]
    rfl
  | v :: w :: items, _, rest, fuel + 1, h => by
    rw [itemChars] at h ⊢
    rw [List.length_append, List.length_cons] at h
    rw [readItems, List.append_assoc, List.cons_append,
      readValue_chars v (.cons (by decide) _) (by omega)]
    simp only [Option.bind_eq_bind, Option.bind_some]
    rw [readItems_itemChars (w :: items) (List.cons_ne_nil _ _) rest (by omega)]
    rfl

theorem readFields_fieldChars : (fields : List (String × Json)) → fields ≠ [] →
    (rest : List Char) → {fuel : ℕ} → (fieldChars fields).length < fuel →
      readFields fuel (fieldChars fields ++ '\x7d' :: rest) = some (writtenFields fields, rest)
  | [], hNonempty, rest, fuel, h => absurd rfl hNonempty
  | [(k, v)], _, rest, fuel + 2, h => by
    rw [fieldChars] at h ⊢
    rw [List.length_append, List.length_cons] at h
    rw [List.append_assoc, readFields_quote, List.cons_append, readField,
      readValue_chars v (.cons (by decide) rest) (by omega)]
    rfl
  | (k, v) :: f :: fields, _, rest, fuel + 2, h => by
    rw [fieldChars] at h ⊢
    simp only [List.length_append, List.length_cons] at h
    rw [List.append_assoc, List.append_assoc, readFields_quote, List.cons_append, readField,
      List.cons_append, readValue_chars v (.cons (by decide) _) (by omega)]
    simp only [Option.bind_some]
    rw [readFields_fieldChars (f :: fields) (List.cons_ne_nil _ _) rest (by omega)]
    rfl

end

theorem read?_text (v : Json) : read? v.text = some v.written := by
  have h := readValue_chars v .nil (Nat.le_refl _)
  rw [List.append_nil] at h
  rw [read?, text, String.toList_ofList, String.length_ofList, h]

/-- Values with the same text are the same but for the kinds of their numbers. -/
theorem written_eq_of_text_eq {v w : Json} (h : v.text = w.text) : v.written = w.written := by
  have hv := read?_text v
  rw [h, read?_text w] at hv
  exact (Option.some.inj hv).symm

end DivisionAudit.Json
