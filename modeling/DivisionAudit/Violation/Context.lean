import DivisionAudit.Text.Diagnostic
import DivisionAudit.Text.Json

/-!
# Context entries

The context of a violation maps texts to texts. Its entries are kept in the order of the bytes of
their keys, each key once, so that two contexts with the same entries are equal and are written
alike in every form.

* `Context.insert`: adds an entry or overwrites the one with its key; the order is kept.
* `Context.get?_insert`: after it the key has the new value, and every other key what it had.
-/

namespace DivisionAudit

/-! ## The order of keys -/

/-- The bytes of a text in UTF-8. -/
def keyBytes (key : String) : List UInt8 := key.toByteArray.data.toList

theorem keyBytes_injective {k l : String} (h : keyBytes k = keyBytes l) : k = l :=
  String.toByteArray_inj.mp (ByteArray.ext (Array.toList_inj.mp h))

/-- The keys stand in the order of their bytes. -/
def KeyBefore (k l : String) : Prop := keyBytes k < keyBytes l

instance (k l : String) : Decidable (KeyBefore k l) :=
  inferInstanceAs (Decidable (keyBytes k < keyBytes l))

theorem KeyBefore.irrefl (k : String) : ¬KeyBefore k k := Std.lt_irrefl

theorem KeyBefore.trans {k l m : String} (h₁ : KeyBefore k l) (h₂ : KeyBefore l m) :
    KeyBefore k m := Std.lt_trans h₁ h₂

theorem KeyBefore.of_not {k l : String} (h : ¬KeyBefore k l) (hne : k ≠ l) : KeyBefore l k :=
  Std.lt_of_le_of_ne (Std.not_lt.mp h) fun he => hne (keyBytes_injective he.symm)

/-! ## Entries -/

/-- Puts an entry into its place among entries in order. -/
def insertEntry (key value : String) : List (String × String) → List (String × String)
  | [] => [(key, value)]
  | (k, v) :: rest =>
    if KeyBefore key k then (key, value) :: (k, v) :: rest
    else if key = k then (key, value) :: rest
    else (k, v) :: insertEntry key value rest

theorem key_of_mem_insertEntry {key value : String} {entries : List (String × String)}
    {e : String × String} (h : e ∈ insertEntry key value entries) :
    e.1 = key ∨ e ∈ entries := by
  induction entries with
  | nil => simp_all [insertEntry]
  | cons head rest ih =>
    simp only [insertEntry] at h
    split at h
    · simp only [List.mem_cons] at h ⊢
      rcases h with rfl | h
      · exact .inl rfl
      · exact .inr h
    · split at h
      · simp only [List.mem_cons] at h ⊢
        rcases h with rfl | h
        · exact .inl rfl
        · exact .inr (.inr h)
      · simp only [List.mem_cons] at h ⊢
        rcases h with rfl | h
        · exact .inr (.inl rfl)
        · exact (ih h).imp_right .inr

/-- Entries in strictly increasing order of their keys. -/
abbrev Ordered (entries : List (String × String)) : Prop :=
  entries.Pairwise fun e f => KeyBefore e.1 f.1

theorem ordered_insertEntry {key value : String} {entries : List (String × String)}
    (h : Ordered entries) : Ordered (insertEntry key value entries) := by
  induction entries with
  | nil => simp [insertEntry, Ordered]
  | cons head rest ih =>
    obtain ⟨hHead, hRest⟩ := List.pairwise_cons.mp h
    simp only [insertEntry]
    split
    · next hlt =>
      refine List.pairwise_cons.mpr ⟨fun e he => ?_, h⟩
      rcases List.mem_cons.mp he with rfl | he
      · exact hlt
      · exact hlt.trans (hHead e he)
    · next hnot =>
      split
      · next heq => exact List.pairwise_cons.mpr ⟨fun e he => heq ▸ hHead e he, hRest⟩
      · next hne =>
        refine List.pairwise_cons.mpr ⟨fun e he => ?_, ih hRest⟩
        rcases key_of_mem_insertEntry he with hk | he
        · exact hk ▸ KeyBefore.of_not hnot hne
        · exact hHead e he

/-- A finite map of texts, its entries in the order of their keys. -/
structure Context where
  entries : List (String × String)
  ordered : Ordered entries
deriving DecidableEq

namespace Context

def empty : Context := ⟨[], .nil⟩

def insert (c : Context) (key value : String) : Context :=
  ⟨insertEntry key value c.entries, ordered_insertEntry c.ordered⟩

def get? (c : Context) (key : String) : Option String := c.entries.lookup key

/-- The context with the entries of a list put in one after the other. -/
def ofList (entries : List (String × String)) : Context :=
  entries.foldl (fun c e => c.insert e.1 e.2) empty

theorem get?_insert (c : Context) (key value k : String) :
    (c.insert key value).get? k = if k = key then some value else c.get? k := by
  obtain ⟨entries, hOrdered⟩ := c
  simp only [insert, get?]
  clear hOrdered
  induction entries with
  | nil => simp only [insertEntry, List.lookup_cons, List.lookup_nil]; split <;> simp_all
  | cons head rest ih =>
    obtain ⟨k', v'⟩ := head
    simp only [insertEntry]
    split
    · simp only [List.lookup_cons]; split <;> simp_all
    · split
      · next heq => simp only [List.lookup_cons, heq]; split <;> simp_all
      · next hne =>
        simp only [List.lookup_cons]
        split
        · next h => rw [beq_iff_eq] at h; rw [if_neg]; exact fun e => hne (e.symm.trans h)
        · exact ih

def diagnostic (c : Context) : Diagnostic :=
  .map (c.entries.map fun e => (e.1, .quoted e.2))

def json (c : Context) : Json := .object (c.entries.map fun e => (e.1, .string e.2))

end Context

end DivisionAudit
