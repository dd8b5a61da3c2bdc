import DivisionAudit.Audit.Basic
import DivisionAudit.Proofs.Input.Pass
import Mathlib.Algebra.Ring.Nat

/-!
# The stream of a run

The inputs of all sources, one source after the other, each with the phase it belongs to and its
position there. A run goes along this stream.

* `Source.visits`, `Audit.stream`: the inputs of one source and of a list of sources.
* `Visit.Agrees`, `Visit.report`: whether a function is right at an input, and the report when it is
  not.
* `Operation.accepts`: whether the check of a function passes at an input.
-/

namespace DivisionAudit

variable {d : Domain}

/-- An input of a run with its phase and its position there. -/
structure Visit (d : Domain) where
  phase : String
  index : Nat
  input : d.Value

namespace Visit

def Agrees (op : Operation d) (f : d.Value → d.Value) (v : Visit d) : Prop :=
  d.agree (f v.input) (op.reference v.input) = true

instance (op : Operation d) (f : d.Value → d.Value) : DecidablePred (Visit.Agrees op f) := fun v =>
  inferInstanceAs (Decidable (d.agree (f v.input) (op.reference v.input) = true))

/-- The report of a function at an input. -/
def report (op : Operation d) (f : d.Value → d.Value) (v : Visit d) : Discrepancy where
  operation := op.name
  phase := v.phase
  index := v.index
  input := .of v.input
  expected := .of (op.reference v.input)
  actual := .of (f v.input)

end Visit

/-- Whether the check of a function passes at an input. -/
def Operation.accepts {d : Domain} (op : Operation d) (f : d.Value → d.Value) (x : d.Value) :
    Bool :=
  (Outcome.compare op x (f x)).passes

theorem Operation.accepts_word_iff {op : Operation .word} {f : Int64 → Int64} {n : Int64} :
    op.accepts f n = true ↔ f n = op.reference n := by
  unfold accepts
  rw [Outcome.passes_compare]
  exact beq_iff_eq

theorem Visit.agrees_iff_accepts {d : Domain} {op : Operation d} {f : d.Value → d.Value}
    {v : Visit d} : v.Agrees op f ↔ op.accepts f v.input = true := by
  unfold Operation.accepts
  rw [Outcome.passes_compare]
  rfl

/-- The inputs of a source as visits of its phase. -/
def Source.visits (s : Source d) : List (Visit d) :=
  s.pass.toList.mapIdx fun i v => ⟨s.label, i, v⟩

/-- The inputs of a run over sources. -/
def Audit.stream (sources : List (Source d)) : List (Visit d) := sources.flatMap Source.visits

namespace Source

theorem map_input_visits (s : Source d) : s.visits.map Visit.input = s.pass.toList := by
  apply List.ext_getElem
  · simp [visits]
  · intro i h h'
    simp [visits]

theorem length_visits (s : Source d) : s.visits.length = s.pass.toList.length := by
  rw [← map_input_visits, List.length_map]

theorem eq_of_visits_eq_append {s : Source d} {pre post : List (Visit d)} {v : Visit d}
    (h : s.visits = pre ++ v :: post) : v = ⟨s.label, pre.length, v.input⟩ := by
  have hLt : pre.length < s.visits.length := by rw [h]; simp
  have hv : s.visits[pre.length] = v := by simp [h]
  rw [← hv]
  simp [visits]

theorem index_lt_of_mem {s : Source d} {v : Visit d} (h : v ∈ s.visits) :
    v.index < s.visits.length := by
  obtain ⟨pre, post, hs⟩ := List.append_of_mem h
  rw [eq_of_visits_eq_append hs, hs, List.length_append, List.length_cons]
  dsimp only
  omega

theorem visits_interval (i : Interval) : (interval i).visits =
    (List.range i.size).map fun n => ⟨(interval i).label, n, i.value n⟩ := by
  rw [visits, pass, Pass.toList_walk]
  apply List.ext_getElem
  · simp [Interval.walk, Walk.ofSize, Walk.remaining]
  · intro n h h'
    simp [Interval.walk, Walk.ofSize]

end Source

namespace Audit

theorem stream_cons (s : Source d) (rest : List (Source d)) :
    stream (s :: rest) = s.visits ++ stream rest := List.flatMap_cons

/-- An input of the stream is one of the first source, or the first source comes before it. -/
theorem eq_or_eq_of_stream_cons {s : Source d} {rest : List (Source d)} {pre post : List (Visit d)}
    {v : Visit d} (h : stream (s :: rest) = pre ++ v :: post) :
    (∃ post', s.visits = pre ++ v :: post') ∨
      (∃ pre', pre = s.visits ++ pre' ∧ stream rest = pre' ++ v :: post) := by
  rw [stream_cons] at h
  rcases List.append_eq_append_iff.mp h with ⟨pre', hPre, hRest⟩ | ⟨mid, hs, hMid⟩
  · exact .inr ⟨pre', hPre, hRest⟩
  · cases mid with
    | nil => exact .inr ⟨[], by rw [hs, List.append_nil, List.append_nil], hMid.symm⟩
    | cons u mid =>
      cases hMid
      exact .inl ⟨mid, hs⟩

theorem forall_agrees_iff {op : Operation d} {f : d.Value → d.Value} (sources : List (Source d)) :
    (∀ v ∈ stream sources, v.Agrees op f) ↔
      ∀ s ∈ sources, ∀ x ∈ s.pass.toList, op.accepts f x = true := by
  constructor
  · intro h s hs x hx
    rw [← Source.map_input_visits] at hx
    obtain ⟨v, hv, rfl⟩ := List.mem_map.mp hx
    exact Visit.agrees_iff_accepts.mp (h v (List.mem_flatMap.mpr ⟨s, hs, hv⟩))
  · intro h v hv
    obtain ⟨s, hs, hVisit⟩ := List.mem_flatMap.mp hv
    have hInput := List.mem_map_of_mem (f := Visit.input) hVisit
    rw [Source.map_input_visits] at hInput
    exact Visit.agrees_iff_accepts.mpr (h s hs v.input hInput)

theorem exists_first_disagreement {op : Operation d} {f : d.Value → d.Value} {vs : List (Visit d)}
    (h : ¬ ∀ v ∈ vs, v.Agrees op f) :
    ∃ pre v post, vs = pre ++ v :: post ∧ (∀ u ∈ pre, u.Agrees op f) ∧ ¬ v.Agrees op f := by
  induction vs with
  | nil => exact absurd (fun v hv => absurd hv List.not_mem_nil) h
  | cons w vs ih =>
    by_cases hw : w.Agrees op f
    · have hRest : ¬ ∀ v ∈ vs, v.Agrees op f := fun hAll => h (List.forall_mem_cons.mpr ⟨hw, hAll⟩)
      obtain ⟨pre, v, post, rfl, hPre, hv⟩ := ih hRest
      exact ⟨w :: pre, v, post, rfl, List.forall_mem_cons.mpr ⟨hw, hPre⟩, hv⟩
    · exact ⟨[], w, vs, rfl, fun u hu => absurd hu List.not_mem_nil, hw⟩

theorem total_eq_sum (phases : List PhaseSummary) :
    PhaseSummary.total phases = (phases.map PhaseSummary.inputs).sum := by
  rw [PhaseSummary.total, List.sum_eq_foldl_nat, List.foldl_map]

theorem length_stream (sources : List (Source d)) :
    (stream sources).length = (sources.map fun s => s.pass.toList.length).sum := by
  induction sources with
  | nil => rfl
  | cons s rest ih =>
    rw [stream_cons, List.length_append, ih, Source.length_visits, List.map_cons, List.sum_cons]

theorem map_inputs_of_map {summaries : List PhaseSummary} {sources : List (Source d)}
    (h : summaries.map (fun p => (p.label, p.inputs)) =
      sources.map fun s => (s.label, s.pass.toList.length)) :
    summaries.map PhaseSummary.inputs = sources.map fun s => s.pass.toList.length := by
  have hInputs := congrArg (List.map Prod.snd) h
  rwa [List.map_map, List.map_map] at hInputs

theorem total_eq_length_stream {summaries : List PhaseSummary} {sources : List (Source d)}
    (h : summaries.map (fun p => (p.label, p.inputs)) =
      sources.map fun s => (s.label, s.pass.toList.length)) :
    PhaseSummary.total summaries = (stream sources).length := by
  rw [total_eq_sum, map_inputs_of_map h, length_stream]

theorem index_lt_length_stream {sources : List (Source d)} {v : Visit d}
    (h : v ∈ stream sources) : v.index < (stream sources).length := by
  obtain ⟨s, hs, hv⟩ := List.mem_flatMap.mp h
  have hIndex := Source.index_lt_of_mem hv
  obtain ⟨before, after, rfl⟩ := List.append_of_mem hs
  rw [stream, List.flatMap_append, List.length_append, List.flatMap_cons, List.length_append]
  omega

end Audit

end DivisionAudit
