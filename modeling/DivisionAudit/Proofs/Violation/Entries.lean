import DivisionAudit.Proofs.Violation.Reading
import Mathlib.Data.List.Induction
import Mathlib.Data.List.Sort

/-!
# Entries added one after the other

Any entries may be added to the context of a violation, in any order and with keys that come again.
What the context holds for a key then is the last value that was given with it, or what it held
before. As the entries stay in the order of their keys, this alone decides what they are, and so
every text of the violation; the order in which they came leaves no trace.

* `lastValue?`: the last value that is given with a key.
* `Context.get?_foldl_insert`: what is held after any entries, by induction from the last one.
* `Context.ext_get?`: contexts that hold the same for every key are equal.
* `Violation.last_entries_win`: what a violation holds and how it is written after any entries.
-/

namespace DivisionAudit

/-! ## The last value of a key -/

/-- The value of the last of the entries that have the key. -/
def lastValue? (key : String) (entries : List (String × String)) : Option String :=
  (entries.filter fun e => e.1 = key).getLast?.map Prod.snd

theorem lastValue?_concat (key : String) (entries : List (String × String)) (e : String × String) :
    lastValue? key (entries ++ [e]) = if e.1 = key then some e.2 else lastValue? key entries := by
  unfold lastValue?
  rw [List.filter_append, List.filter_cons, List.filter_nil]
  by_cases h : e.1 = key
  · rw [if_pos (decide_eq_true h), if_pos h, List.getLast?_concat, Option.map_some]
  · rw [if_neg (mt of_decide_eq_true h), if_neg h, List.append_nil]

/-! ## What a context holds -/

namespace Context

/-- The last entry decides for its own key, and all others are left to those before it. -/
theorem get?_foldl_insert (c : Context) (entries : List (String × String)) (key : String) :
    (entries.foldl (fun (c : Context) e => c.insert e.1 e.2) c).get? key =
      (lastValue? key entries).or (c.get? key) := by
  induction entries using List.reverseRecOn with
  | nil => rfl
  | append_singleton entries e ih =>
    rw [List.foldl_concat, get?_insert, lastValue?_concat, ih]
    by_cases h : e.1 = key
    · rw [if_pos h.symm, if_pos h, Option.some_or]
    · rw [if_neg (Ne.symm h), if_neg h]

/-- No key comes twice, so looking it up finds every entry. -/
theorem mem_entries_iff {c : Context} {key value : String} :
    (key, value) ∈ c.entries ↔ c.get? key = some value := by
  rw [get?, List.lookup_eq_some_iff]
  constructor
  · intro hMem
    obtain ⟨before, after, hEntries⟩ := List.append_of_mem hMem
    refine ⟨before, after, hEntries, fun e he => bne_iff_ne.mpr ?_⟩
    rintro rfl
    have hOrdered := c.ordered
    rw [hEntries] at hOrdered
    exact KeyBefore.irrefl e.1
      ((List.pairwise_append.mp hOrdered).2.2 e he (e.1, value) List.mem_cons_self)
  · rintro ⟨before, after, hEntries, -⟩
    rw [hEntries]
    exact List.mem_append_right before List.mem_cons_self

instance : Std.Irrefl fun e f : String × String => KeyBefore e.1 f.1 :=
  ⟨fun e => KeyBefore.irrefl e.1⟩

instance : Std.Antisymm fun e f : String × String => KeyBefore e.1 f.1 :=
  ⟨fun e _ hef hfe => absurd (hef.trans hfe) (KeyBefore.irrefl e.1)⟩

/-- Entries in the order of their keys are known by what they say of each key. -/
theorem ext_get? {c d : Context} (h : ∀ key, c.get? key = d.get? key) : c = d := by
  -- Two lists in one strict order are equal once they have the same members.
  refine ext_entries (c.ordered.eq_of_mem_iff d.ordered fun e => ?_)
  obtain ⟨key, value⟩ := e
  rw [mem_entries_iff, h, mem_entries_iff]

end Context

/-! ## Violations -/

namespace Violation

/-- The violation with entries added to its context one after the other. -/
def withEntries (v : Violation) (entries : List (String × String)) : Violation :=
  entries.foldl (fun v e => v.withEntry e.1 e.2) v

/-- Only the context is touched. -/
theorem withEntries_eq (v : Violation) (entries : List (String × String)) :
    v.withEntries entries = { v with
      context := entries.foldl (fun (c : Context) e => c.insert e.1 e.2) v.context } := by
  induction entries using List.reverseRecOn with
  | nil => rfl
  | append_singleton entries e ih =>
    unfold withEntries at ih ⊢
    rw [List.foldl_concat, List.foldl_concat, ih]
    rfl

theorem get?_context_withEntries (v : Violation) (entries : List (String × String))
    (key : String) : (v.withEntries entries).context.get? key =
      (lastValue? key entries).or (v.context.get? key) := by
  rw [withEntries_eq]
  exact v.context.get?_foldl_insert entries key

/-- Only the last value of each key counts, not the order in which the entries come. -/
theorem withEntries_congr (v : Violation) {entries entries' : List (String × String)}
    (h : ∀ key, lastValue? key entries = lastValue? key entries') :
    v.withEntries entries = v.withEntries entries' := by
  have hContext : (v.withEntries entries).context = (v.withEntries entries').context :=
    Context.ext_get? fun key => by
      rw [get?_context_withEntries, get?_context_withEntries, h key]
  rw [withEntries_eq, withEntries_eq] at hContext ⊢
  exact congrArg (fun context => { v with context }) hContext

/-- After any entries the context of a violation holds for each key the last value that was given
with it, and what it held before for a key that was given none. It has no other entries than these,
in strictly increasing order of the bytes of their keys. Entries that agree in the last value of
every key lead to the same one-line text, the same diagnostic text on one line or on several, and
the same JSON text, in whatever order they came. -/
theorem last_entries_win (v : Violation) (entries : List (String × String)) :
    let w := v.withEntries entries
    (∀ key, w.context.get? key = (lastValue? key entries).or (v.context.get? key)) ∧
    (∀ key value, (key, value) ∈ w.context.entries ↔ w.context.get? key = some value) ∧
    (w.context.entries.map Prod.fst).Pairwise (fun k l => keyBytes k < keyBytes l) ∧
    ∀ entries', (∀ key, lastValue? key entries' = lastValue? key entries) →
      let w' := v.withEntries entries'
      w'.text = w.text ∧ w'.diagnostic.inline = w.diagnostic.inline ∧
        (∀ depth, w'.diagnostic.indented depth = w.diagnostic.indented depth) ∧
        w'.json.text = w.json.text := by
  intro w
  refine ⟨v.get?_context_withEntries entries, fun _ _ => Context.mem_entries_iff,
    List.pairwise_map.mpr w.context.ordered, ?_⟩
  intro entries' hLast w'
  have hSame : w' = w := v.withEntries_congr hLast
  rw [hSame]
  exact ⟨rfl, rfl, fun _ => rfl, rfl⟩

/-- A key that is given again, one that the context had before and one beyond ASCII, which stands
behind them. -/
theorem last_entries_win_overwritten :
    let v := (plain .error .configuration "radius is negative" "place").withEntry "radius" "0"
    let entries := [("é", "1"), ("radius", "-2"), ("limit", "3"), ("é", "4")]
    let entries' := [("limit", "3"), ("radius", "1"), ("é", "4"), ("radius", "-2")]
    (∀ key, lastValue? key entries' = lastValue? key entries) ∧
    (v.withEntries entries).text =
      "error configuration: radius is negative limit=3 radius=-2 é=4 (place)" ∧
    (v.withEntries entries').text = (v.withEntries entries).text ∧
    (v.withEntries entries').json.text = (v.withEntries entries).json.text := by
  intro v entries entries'
  have hLast (key : String) : lastValue? key entries' = lastValue? key entries := by
    by_cases hLimit : key = "limit"
    · subst hLimit
      decide
    by_cases hRadius : key = "radius"
    · subst hRadius
      decide
    by_cases hAccent : key = "é"
    · subst hAccent
      decide
    · simp [lastValue?, entries, entries', Ne.symm hLimit, Ne.symm hRadius, Ne.symm hAccent]
  obtain ⟨-, -, -, hTexts⟩ := last_entries_win v entries
  obtain ⟨hText, -, -, hJson⟩ := hTexts entries' hLast
  exact ⟨hLast, by decide, hText, hJson⟩

end Violation

end DivisionAudit
