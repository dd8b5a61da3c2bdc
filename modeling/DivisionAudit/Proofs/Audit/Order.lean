import DivisionAudit.Proofs.Audit.Run

/-!
# The order of the phases

Sources in another order have the same inputs, met at other times. So a run over them has the same
verdict, and each source its summary. When it fails the report may be of another input; but where a
function is wrong at one input only it is of that one, at the first place where the order meets it.

* `Audit.exists_source_of_stream`: an input of the stream in its source, with what comes before.
* `Audit.ReportsFirst`: a verdict that reports the first time that an input is met.
* `Audit.permuted_verdict`: the verdicts of two orders.
-/

namespace DivisionAudit.Audit

variable {d : Domain} {σ σ' : Type}

/-- An input of the stream is an input of one source; before it come all inputs of the sources
before, and those of its own that stand before it. -/
theorem exists_source_of_stream {sources : List (Source d)} {pre post : List (Visit d)}
    {v : Visit d} (h : stream sources = pre ++ v :: post) :
    ∃ before s after front back, sources = before ++ s :: after ∧ pre = stream before ++ front ∧
      s.visits = front ++ v :: back := by
  induction sources generalizing pre with
  | nil => simp [stream] at h
  | cons s rest ih =>
    rcases eq_or_eq_of_stream_cons h with ⟨back, hs⟩ | ⟨pre', rfl, hRest⟩
    · exact ⟨[], s, rest, pre, back, rfl, rfl, hs⟩
    · obtain ⟨before, s', after, front, back, rfl, rfl, hs'⟩ := ih hRest
      refine ⟨s :: before, s', after, front, back, rfl, ?_, hs'⟩
      rw [stream_cons, List.append_assoc]

/-- The verdict reports an input at its first position in the first source that has it. -/
def ReportsFirst (op : Operation d) (f : d.Value → d.Value) (a : d.Value)
    (sources : List (Source d)) (verdict : Except Fault RunSummary) : Prop :=
  ∃ before s after front back, sources = before ++ s :: after ∧
    (∀ u ∈ before, a ∉ u.pass.toList) ∧ s.pass.toList = front ++ a :: back ∧ a ∉ front ∧
    verdict = .error (.mismatch ⟨op.name, s.label, front.length, .of a, .of (op.reference a),
      .of (f a)⟩)

/-- The sources with the labels and the numbers of inputs that a summary has for them. -/
def summarized (sources : List (Source d)) (summary : RunSummary) :
    List (Source d × String × ℕ) :=
  sources.zip (summary.phases.map fun p => (p.label, p.inputs))

section Verdict

variable (host : Host (StateM σ)) (f : d.Value → d.Value) (op : Operation d)
  (observer : Option Observer)

/-- The only input where a function is wrong is reported where it is met first. -/
theorem reportsFirst_of_only {a : d.Value} (hOnly : ∀ x, x ≠ a → op.accepts f x = true)
    {sources : List (Source d)} (h : ¬ ∀ v ∈ stream sources, v.Agrees op f) (st : σ) :
    ReportsFirst op f a sources
      (execute (run ⟨sources, observer⟩ (asking host f) op) [] st).1 := by
  obtain ⟨pre, v, post, hStream, hPre, hv⟩ := exists_first_disagreement h
  obtain ⟨st', hRun⟩ := execute_run_differs host f op observer hStream hPre hv [] st
  obtain ⟨before, s, after, front, back, hSources, rfl, hs⟩ := exists_source_of_stream hStream
  have hInput : v.input = a := by
    by_contra hOther
    exact hv (Visit.agrees_iff_accepts.mpr (hOnly v.input hOther))
  have hNot {u : Visit d} (hu : u ∈ stream before ++ front) : u.input ≠ a := by
    intro hSame
    have hAgrees := hPre u hu
    rw [Visit.Agrees, hSame, ← hInput] at hAgrees
    exact hv hAgrees
  refine ⟨before, s, after, front.map Visit.input, back.map Visit.input, hSources, ?_, ?_, ?_, ?_⟩
  · intro u hu ha
    rw [← Source.map_input_visits] at ha
    obtain ⟨w, hw, hSame⟩ := List.mem_map.mp ha
    exact hNot (List.mem_append_left _ (List.mem_flatMap.mpr ⟨u, hu, hw⟩)) hSame
  · rw [← Source.map_input_visits, hs, List.map_append, List.map_cons, hInput]
  · intro ha
    obtain ⟨w, hw, hSame⟩ := List.mem_map.mp ha
    exact hNot (List.mem_append_right _ hw) hSame
  · rw [hRun, Source.eq_of_visits_eq_append hs, hInput, List.length_map]
    rfl

theorem summarized_of_ok {sources : List (Source d)} {st : σ} {summary : RunSummary}
    (hOk : (execute (run ⟨sources, observer⟩ (asking host f) op) [] st).1 = .ok summary) :
    summary.phases.length = sources.length ∧
      summarized sources summary = sources.map (fun s => (s, s.label, s.pass.toList.length)) ∧
      summary.totalInputs = (stream sources).length := by
  have hAll := (exists_ok_iff host f op observer sources [] st).mp ⟨summary, hOk⟩
  obtain ⟨summary', st', hRun, -, hPhases, hTotal⟩ :=
    execute_run_clean host f op observer hAll [] st
  rw [hRun] at hOk
  cases hOk
  refine ⟨?_, ?_, hTotal.trans (length_stream sources).symm⟩
  · simpa only [List.length_map] using congrArg List.length hPhases
  · rw [summarized, hPhases, ← List.map_prod_left_eq_zip]

end Verdict

/-- Two orders of the same sources, whose inputs a counter can count. The runs over them pass or
fail together. If they pass, they have the same total, and each source the same summary. If they
fail because a function is wrong at one input, both report this one, each where its order first
meets it. -/
theorem permuted_verdict {sources sources' : List (Source d)} (hPerm : sources'.Perm sources)
    (hFits : (stream sources).length < 2 ^ 64) (op : Operation d) (f : d.Value → d.Value)
    (host : Host (StateM σ)) (host' : Host (StateM σ')) (observer observer' : Option Observer)
    (st : σ) (st' : σ') :
    let verdict := (execute (run ⟨sources, observer⟩ (asking host f) op) [] st).1
    let verdict' := (execute (run ⟨sources', observer'⟩ (asking host' f) op) [] st').1
    ((∃ summary, verdict' = .ok summary) ↔ ∃ summary, verdict = .ok summary) ∧
    (∀ summary summary', verdict = .ok summary → verdict' = .ok summary' →
      summary'.totalInputs = summary.totalInputs ∧ summary.totalInputs < 2 ^ 64 ∧
      summary.phases.length = sources.length ∧ summary'.phases.length = sources'.length ∧
      (summarized sources' summary').Perm (summarized sources summary)) ∧
    ∀ a, op.accepts f a = false → (∀ x, x ≠ a → op.accepts f x = true) →
      (¬ ∃ summary, verdict = .ok summary) →
      ReportsFirst op f a sources verdict ∧ ReportsFirst op f a sources' verdict' := by
  intro verdict verdict'
  have hStreams : (stream sources').Perm (stream sources) := hPerm.flatMap_right _
  have hAll : (∀ v ∈ stream sources', v.Agrees op f) ↔ ∀ v ∈ stream sources, v.Agrees op f := by
    simp only [hStreams.mem_iff]
  refine ⟨?_, ?_, ?_⟩
  · rw [exists_ok_iff, exists_ok_iff, hAll]
  · intro summary summary' hOk hOk'
    obtain ⟨hLength, hSources, hTotal⟩ := summarized_of_ok host f op observer hOk
    obtain ⟨hLength', hSources', hTotal'⟩ := summarized_of_ok host' f op observer' hOk'
    rw [hTotal, hTotal', hStreams.length_eq, hSources, hSources']
    exact ⟨rfl, hFits, hLength, hLength', hPerm.map _⟩
  · intro a _ hOnly hFails
    rw [exists_ok_iff] at hFails
    exact ⟨reportsFirst_of_only host f op observer hOnly hFails st,
      reportsFirst_of_only host' f op observer' hOnly (mt hAll.mp hFails) st'⟩

/-- Overlapping intervals in two orders, and a function that is wrong at the word they share. -/
theorem permuted_verdict_shared_word :
    let first : Source .word := .interval ⟨-3, 4, by decide⟩
    let second : Source .word := .interval ⟨4, 6, by decide⟩
    let f : Int64 → Int64 := fun n => if n = 4 then 0 else Expression.extended n
    let host : Host (StateM (List Signal)) := (Bench.recording (d := .word) pure).toHost
    let verdict (sources : List (Source .word)) : Except Fault RunSummary :=
      (execute (run ⟨sources, none⟩ (asking host f) .extended) [] []).1
    [second, .edges, first].Perm [first, second, .edges] ∧
    (stream [first, second, .edges]).length < 2 ^ 64 ∧
    Operation.extended.accepts f 4 = false ∧
    (∀ x, x ≠ 4 → Operation.extended.accepts f x = true) ∧
    (¬ ∃ summary, verdict [first, second, .edges] = .ok summary) ∧
    ReportsFirst .extended f 4 [first, second, .edges] (verdict [first, second, .edges]) ∧
    ReportsFirst .extended f 4 [second, .edges, first] (verdict [second, .edges, first]) := by
  intro first second f host verdict
  have hPerm : [second, .edges, first].Perm [first, second, .edges] := by decide
  have hFits : (stream [first, second, .edges]).length < 2 ^ 64 := by
    rw [length_stream]
    decide +kernel
  have hWrong : Operation.extended.accepts f 4 = false := by decide +kernel
  have hOnly : ∀ x, x ≠ 4 → Operation.extended.accepts f x = true := by
    intro x hx
    exact Operation.accepts_word_iff.mpr (if_neg hx)
  have hFails : ¬ ∃ summary, verdict [first, second, .edges] = .ok summary := by
    rw [exists_ok_iff, forall_agrees_iff]
    intro hRight
    have hShared : (4 : Int64) ∈ first.pass.toList := by decide +kernel
    rw [hRight first List.mem_cons_self 4 hShared] at hWrong
    cases hWrong
  obtain ⟨-, -, hReports⟩ := permuted_verdict hPerm hFits .extended f host host none none [] []
  exact ⟨hPerm, hFits, hWrong, hOnly, hFails, hReports 4 hWrong hOnly hFails⟩

end DivisionAudit.Audit
