import DivisionAudit.Proofs.Text.Reading
import DivisionAudit.Violation.Basic

/-!
# Reading a violation back

The JSON form of a violation is read back field by field, by the names of the fields: severity and
kind by their labels, the index as a whole number or as missing, and the context entry by entry.
Entries that stand in the order of their keys make up the same context again, whatever their texts
hold. So no two violations have the same JSON text.

* `Context.ofList_entries`: a context from its own entries.
* `Violation.ofWritten?_written`: a violation from what its JSON form says.
* `Violation.read_text_json`: reading, and what follows for violations with the same text.
-/

namespace DivisionAudit

/-! ## Contexts -/

theorem insertEntry_of_last {key value : String} {entries : List (String × String)}
    (h : ∀ e ∈ entries, KeyBefore e.1 key) :
    insertEntry key value entries = entries ++ [(key, value)] := by
  induction entries with
  | nil => rfl
  | cons e rest ih =>
    obtain ⟨k, v⟩ := e
    have hHead : KeyBefore k key := h (k, v) List.mem_cons_self
    have hNot : ¬KeyBefore key k := fun hBack => KeyBefore.irrefl k (hHead.trans hBack)
    have hne : key ≠ k := fun e => KeyBefore.irrefl k (e ▸ hHead)
    rw [insertEntry, if_neg hNot, if_neg hne, ih fun e he => h e (List.mem_cons_of_mem _ he)]
    rfl

namespace Context

theorem ext_entries {c d : Context} (h : c.entries = d.entries) : c = d := by
  cases c
  cases d
  simpa using h

/-- Entries that come in order are put at the end one after the other. -/
theorem entries_foldl_insert {done todo : List (String × String)} (hDone : Ordered done)
    (h : Ordered (done ++ todo)) :
    (todo.foldl (fun (c : Context) e => c.insert e.1 e.2) ⟨done, hDone⟩).entries =
      done ++ todo := by
  induction todo generalizing done with
  | nil => rw [List.foldl_nil, List.append_nil]
  | cons e rest ih =>
    have hLast : insertEntry e.1 e.2 done = done ++ [e] :=
      insertEntry_of_last fun f hf => (List.pairwise_append.mp h).2.2 f hf e List.mem_cons_self
    have hOrdered : Ordered (done ++ [e]) := hLast ▸ ordered_insertEntry hDone
    rw [List.append_cons] at h ⊢
    rw [List.foldl_cons, ← ih hOrdered h]
    simp only [insert, hLast]

/-- Entries in order make up the context that has them. -/
theorem ofList_entries (c : Context) : ofList c.entries = c :=
  ext_entries (entries_foldl_insert .nil c.ordered)

/-- The context that an object of texts says. -/
def ofWritten? (w : Json.Written) : Option Context := w.texts?.map ofList

theorem ofWritten?_written (c : Context) : ofWritten? c.json.written = some c := by
  rw [ofWritten?, json, Json.texts?_written, Option.map_some, ofList_entries]

end Context

/-! ## Labels -/

def Severity.ofLabel? (label : String) : Option Severity :=
  [Severity.warning, .error, .critical].find? fun s => s.label = label

theorem Severity.ofLabel?_label (s : Severity) : ofLabel? s.label = some s := by
  cases s <;> decide

def Kind.ofLabel? (label : String) : Option Kind :=
  [Kind.mismatch, .configuration].find? fun k => k.label = label

theorem Kind.ofLabel?_label (k : Kind) : ofLabel? k.label = some k := by
  cases k <;> decide

/-! ## Violations -/

namespace Violation

/-- The violation that an object says by the names of its fields. -/
def ofWritten? (w : Json.Written) : Option Violation := do
  let severity ← Severity.ofLabel? (← (← w.field? "severity").string?)
  let kind ← Kind.ofLabel? (← (← w.field? "kind").string?)
  let message ← (← w.field? "message").string?
  let location ← (← w.field? "location").string?
  let index ← (← w.field? "index").natural?
  let context ← Context.ofWritten? (← w.field? "context")
  some ⟨severity, kind, message, location, index, context⟩

/-- The violation whose JSON text this is. -/
def read? (text : String) : Option Violation := (Json.read? text).bind ofWritten?

theorem ofWritten?_written (v : Violation) : ofWritten? v.json.written = some v := by
  have hSeverity : v.json.written.field? "severity" = some (.string v.severity.label) := rfl
  have hKind : v.json.written.field? "kind" = some (.string v.kind.label) := rfl
  have hMessage : v.json.written.field? "message" = some (.string v.message) := rfl
  have hLocation : v.json.written.field? "location" = some (.string v.location) := rfl
  have hIndex : v.json.written.field? "index" = some (Json.ofNat? v.index).written := rfl
  have hContext : v.json.written.field? "context" = some v.context.json.written := rfl
  simp only [ofWritten?, hSeverity, hKind, hMessage, hLocation, hIndex, hContext,
    Json.Written.string?, Option.bind_eq_bind, Option.bind_some, Severity.ofLabel?_label,
    Kind.ofLabel?_label, Json.natural?_written_ofNat?, Context.ofWritten?_written]

/-- Nothing of a violation is lost in its JSON text. -/
theorem read_text_json : (∀ v : Violation, read? v.json.text = some v) ∧
    ∀ v w : Violation, v.json.text = w.json.text ↔
      v.severity = w.severity ∧ v.kind = w.kind ∧ v.message = w.message ∧
        v.location = w.location ∧ v.index = w.index ∧ v.context = w.context := by
  have hRead (v : Violation) : read? v.json.text = some v := by
    rw [read?, Json.read?_text, Option.bind_some, ofWritten?_written]
  refine ⟨hRead, fun v w => ⟨fun hText => ?_, ?_⟩⟩
  · have hEq : some v = some w := by rw [← hRead v, hText, hRead w]
    cases hEq
    exact ⟨rfl, rfl, rfl, rfl, rfl, rfl⟩
  · obtain ⟨severity, kind, message, location, index, context⟩ := v
    rintro ⟨rfl, rfl, rfl, rfl, rfl, rfl⟩
    rfl

end Violation

end DivisionAudit
