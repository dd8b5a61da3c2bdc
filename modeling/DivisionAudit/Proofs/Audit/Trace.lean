import DivisionAudit.Proofs.Audit.Run
import DivisionAudit.Proofs.Input.Count
import DivisionAudit.Proofs.Violation.Paths

/-!
# The trace of a run

A run signals the start of each phase it enters and the success of each phase it completes; at a
wrong answer it raises one violation and ends. So its verdict says what it signalled: all phases in
order, or the phases before the one that its report is of, the start of that one, and the violation.
The subject may keep a state of its own, and the clock is any: neither has a part in the signals.

* `Audit.startEvent`, `Audit.passEvent`, `Audit.mismatchEvent`: the events, field by field.
* `Emits`: a postcondition on the value of an action and on the signals that it adds.
* `Told`: the verdicts of runs over sources, with their signals; one rule for each way a phase ends.
* `Audit.emits_phases`: a run over sources goes by these rules.
* `Audit.signals_of_verdict`: the signals, the log and the observers, from the verdict.
-/

namespace DivisionAudit

variable {d : Domain} {σ α β : Type}

/-! ## Reports and their violations -/

/-- The report of a wrong answer at an input of a source. -/
structure Discrepancy.IsOf (op : Operation d) (s : Source d) (r : Discrepancy) : Prop where
  operation : r.operation = op.name
  phase : r.phase = s.label
  values : ∃ input actual, s.pass.toList[r.index]? = some input ∧
    ¬ d.agree actual (op.reference input) = true ∧
    r.input = .of input ∧ r.expected = .of (op.reference input) ∧ r.actual = .of actual

theorem Discrepancy.IsOf.index_lt {op : Operation d} {s : Source d} {r : Discrepancy}
    (h : r.IsOf op s) : r.index < s.pass.toList.length := by
  obtain ⟨input, actual, hInput, -⟩ := h.values
  exact (List.getElem?_eq_some_iff.mp hInput).1

/-- A violation with the values that a report displays. -/
structure Violation.Displays (r : Discrepancy) (v : Violation) : Prop where
  severity : v.severity = .critical
  kind : v.kind = .mismatch
  message : v.message = r.operation ++ " disagrees with reference"
  index : v.index = some r.index
  context : v.context.entries = [("actual", r.actual.text), ("expected", r.expected.text),
    ("input", r.input.text), ("phase", r.phase)]

theorem Discrepancy.displays_violation (r : Discrepancy) : r.violation.Displays r where
  severity := rfl
  kind := rfl
  message := rfl
  index := rfl
  context := rfl

theorem deliver_eq (sink : Option Observer) (v : Violation) : deliver sink v =
    match sink with
    | some observer => observer.deliveries v
    | none => [.logged v] := by
  cases sink with
  | none => simp only [deliver, Option.getD_none, Observer.deliveries]
  | some observer => rfl

/-! ## Events -/

namespace Audit

/-- The start of a phase, with the number of its inputs where the source tells it. -/
def startEvent (op : Operation d) (s : Source d) : Event where
  level := .debug
  message := "phase started"
  fields := [("operation", op.name), ("phase", s.label),
    ("expected_inputs", match s.inputCount with
      | some k => "Some(" ++ toString k.toNat ++ ")"
      | none => "None")]

/-- The success of a phase, with the inputs of its summary and its whole milliseconds. -/
def passEvent (op : Operation d) (p : PhaseSummary) : Event where
  level := .info
  message := "phase passed"
  fields := [("operation", op.name), ("phase", p.label), ("inputs", toString p.inputs),
    ("elapsed_ms", toString (p.elapsed.nanoseconds / 10 ^ 6 % 2 ^ 64))]

/-- A report as the log shows it: the context has the values that the report displays. -/
def mismatchEvent (r : Discrepancy) : Event where
  level := .error
  message := r.operation ++ " disagrees with reference"
  fields := [("severity", "critical"), ("kind", "mismatch"),
    ("location", "DivisionAudit.Audit.run"), ("index", "Some(" ++ toString r.index ++ ")"),
    ("context", "\x7b\"actual\": " ++ Diagnostic.quote r.actual.text ++
      ", \"expected\": " ++ Diagnostic.quote r.expected.text ++
      ", \"input\": " ++ Diagnostic.quote r.input.text ++
      ", \"phase\": " ++ Diagnostic.quote r.phase ++ "\x7d")]

theorem phaseStarted_eq (op : Operation d) (s : Source d) :
    Event.phaseStarted op.name s.label (s.inputCount.map UInt64.toNat) = startEvent op s := by
  rw [Event.phaseStarted, startEvent]
  cases s.inputCount with
  | none => rfl
  | some k => rfl

theorem phasePassed_eq (op : Operation d) (p : PhaseSummary) :
    Event.phasePassed op.name p.label p.inputs p.elapsed = passEvent op p := by
  have hWhole : p.elapsed.wholeMilliseconds.toNat = p.elapsed.nanoseconds / 10 ^ 6 % 2 ^ 64 :=
    UInt64.toNat_ofNat'
  rw [Event.phasePassed, hWhole, passEvent]

/-- The keys need no escape. -/
theorem quote_keys : Diagnostic.quote "actual" = "\"actual\"" ∧
    Diagnostic.quote "expected" = "\"expected\"" ∧ Diagnostic.quote "input" = "\"input\"" ∧
    Diagnostic.quote "phase" = "\"phase\"" := ⟨rfl, rfl, rfl, rfl⟩

theorem ofViolation_eq (r : Discrepancy) : Event.ofViolation r.violation = mismatchEvent r := by
  have hContext : r.violation.context.diagnostic.inline =
      "\x7b\"actual\": " ++ Diagnostic.quote r.actual.text ++
      ", \"expected\": " ++ Diagnostic.quote r.expected.text ++
      ", \"input\": " ++ Diagnostic.quote r.input.text ++
      ", \"phase\": " ++ Diagnostic.quote r.phase ++ "\x7d" := by
    obtain ⟨hActual, hExpected, hInput, hPhase⟩ := quote_keys
    simp only [Context.diagnostic, r.displays_violation.context, List.map_cons, List.map_nil,
      Diagnostic.inline, Diagnostic.inlineFields, hActual, hExpected, hInput, hPhase]
    -- equal as lists of characters, where it does not matter how the parts are put together
    apply String.toList_inj.mp
    simp [Diagnostic.commas]
  rw [Event.ofViolation, hContext]
  rfl

end Audit

/-! ## Actions that signal -/

/-- Actions that add to a list of signals, beside a state that they leave to others. -/
abbrev Signalling (σ : Type) := StateT (List Signal) (StateM σ)

/-- From any signals and any state, the action adds signals and comes to a value, both as `P`
says. -/
def Emits (x : Signalling σ α) (P : α → List Signal → Prop) : Prop :=
  ∀ before st, let out := (x.run before).run st
    ∃ added, out.1.2 = before ++ added ∧ P out.1.1 added

theorem Emits.mono {x : Signalling σ α} {P Q : α → List Signal → Prop} (h : Emits x P)
    (hPQ : ∀ a added, P a added → Q a added) : Emits x Q := by
  intro before st
  obtain ⟨added, hOut, hP⟩ := h before st
  exact ⟨added, hOut, hPQ _ _ hP⟩

theorem emits_pure {P : α → List Signal → Prop} {a : α} (h : P a []) :
    Emits (pure a : Signalling σ α) P := by
  intro before st
  exact ⟨[], (List.append_nil before).symm, h⟩

theorem emits_bind {x : Signalling σ α} {f : α → Signalling σ β} {Q : α → List Signal → Prop}
    {P : β → List Signal → Prop} (hx : Emits x Q)
    (hf : ∀ a first, Q a first → Emits (f a) fun b added => P b (first ++ added)) :
    Emits (x >>= f) P := by
  intro before st
  obtain ⟨first, hFirst, hQ⟩ := hx before st
  obtain ⟨added, hAdded, hP⟩ := hf _ first hQ ((x.run before).run st).1.2 ((x.run before).run st).2
  refine ⟨first ++ added, ?_, hP⟩
  rw [← List.append_assoc, ← hFirst]
  exact hAdded

/-- An action whose signals are known, and what follows it. -/
theorem Emits.next {x : Signalling σ α} {f : α → Signalling σ β} {first : List Signal}
    {P : β → List Signal → Prop} (hx : Emits x fun _ added => added = first)
    (hf : ∀ a, Emits (f a) fun b added => P b (first ++ added)) : Emits (x >>= f) P := by
  refine emits_bind hx ?_
  rintro a _ rfl
  exact hf a

namespace Audit

/-! ## One phase -/

section Phases

variable (clock : StateM σ Duration) (target : d.Value → StateM σ d.Value)

/-- A bench that keeps the signals in a list. Its subject and its clock go by a state. -/
def watched : Bench (Signalling σ) d :=
  { Bench.recording fun x => StateT.lift (target x) with clock := StateT.lift clock }

theorem emits_signal (s : Signal) :
    Emits ((watched clock target).signal s) fun _ added => added = [s] := by
  intro before st
  exact ⟨[s], rfl, rfl⟩

theorem emits_clock : Emits (watched clock target).clock fun _ added => added = [] := by
  intro before st
  exact ⟨[], (List.append_nil before).symm, rfl⟩

theorem emits_subject (x : d.Value) :
    Emits ((watched clock target).subject x) fun _ added => added = [] := by
  intro before st
  exact ⟨[], (List.append_nil before).symm, rfl⟩

variable (op : Operation d)

/-- How a phase can end whose inputs are numbered from `index` on. -/
inductive Ends (inputs : List d.Value) (index : Nat) : Scan d → Prop
  | clean : Ends inputs index (.clean (index + inputs.length))
  | differs {k : Nat} {input actual : d.Value} (hInput : inputs[k]? = some input)
      (hWrong : ¬ d.agree actual (op.reference input) = true) :
      Ends inputs index (.differs (index + k) (.compare op input actual))

theorem Ends.cons {op : Operation d} {v : d.Value} {vs : List d.Value} {index : Nat} {r : Scan d}
    (h : Ends op vs (index + 1) r) : Ends op (v :: vs) index r := by
  cases h with
  | clean =>
    rw [Nat.add_right_comm, Nat.add_assoc]
    exact .clean
  | differs hInput hWrong =>
    rw [Nat.add_right_comm, Nat.add_assoc]
    exact .differs hInput hWrong

theorem emits_scan (p : Pass d) (index : Nat) : Emits (scan (watched clock target) op p index)
    fun r added => added = [] ∧ Ends op p.toList index r := by
  generalize hp : p.toList = vs
  induction vs generalizing p index with
  | nil =>
    rw [scan_of_next?_eq_none _ _ (Pass.next?_eq_none_of_toList hp)]
    exact emits_pure ⟨rfl, .clean⟩
  | cons v vs ih =>
    obtain ⟨p', hNext, hRest⟩ := Pass.next?_eq_some_of_toList hp
    rw [scan_of_next?_eq_some _ _ hNext]
    refine (emits_subject clock target v).next fun actual => ?_
    split
    · exact (ih p' (index + 1) hRest).mono fun _ _ h => ⟨h.1, h.2.cons⟩
    · next hFails =>
      rw [Outcome.passes_compare] at hFails
      exact emits_pure ⟨rfl, .differs (k := 0) rfl hFails⟩

/-! ## All phases -/

def startSignal (s : Source d) : Signal :=
  .phaseStarted op.name s.label (s.inputCount.map UInt64.toNat)

/-- The signals of a phase that passes, of its source and its summary. -/
def phaseSignals (phase : Source d × PhaseSummary) : List Signal :=
  [startSignal op phase.1, .phasePassed op.name phase.2.label phase.2.inputs phase.2.elapsed]

/-- What runs over sources come to, and the signals on the way. -/
inductive Told (observer : Option Observer) :
    List (Source d) → Except Fault (List PhaseSummary) → List Signal → Prop
  | done : Told observer [] (.ok []) []
  | passed {s rest result signals} (elapsed : Duration) (h : Told observer rest result signals) :
      Told observer (s :: rest) (result.map (⟨s.label, s.pass.toList.length, elapsed⟩ :: ·))
        (phaseSignals op (s, ⟨s.label, s.pass.toList.length, elapsed⟩) ++ signals)
  | differs {s rest} {r : Discrepancy} (h : r.IsOf op s) : Told observer (s :: rest)
      (.error (.mismatch r)) [startSignal op s, .raised observer r.violation]

theorem emits_phases (observer : Option Observer) (sources : List (Source d)) :
    Emits (phases (watched clock target) op observer sources) (Told op observer sources) := by
  induction sources with
  | nil => exact emits_pure .done
  | cons s rest ih =>
    refine (emits_clock clock target).next fun began => ?_
    refine (emits_signal clock target _).next fun _ => ?_
    refine emits_bind (emits_scan clock target op s.pass 0) fun r _ ⟨hNone, hEnds⟩ => ?_
    subst hNone
    cases hEnds with
    | clean =>
      refine (emits_clock clock target).next fun stopped => ?_
      refine (emits_signal clock target _).next fun _ => ?_
      refine emits_bind ih fun result signals hTold => ?_
      have hPassed := hTold.passed (s := s) (stopped - began)
      rw [← List.append_nil signals] at hPassed
      rw [Nat.zero_add]
      cases result with
      | error fault => exact emits_pure hPassed
      | ok summaries => exact emits_pure hPassed
    | differs hInput hWrong =>
      refine (emits_signal clock target _).next fun _ => ?_
      rw [Nat.zero_add]
      exact emits_pure (.differs ⟨rfl, rfl, _, _, hInput, hWrong, rfl, rfl, rfl⟩)

end Phases

/-! ## What the verdict tells -/

section Verdict

variable {op : Operation d} {observer : Option Observer}

theorem Told.of_ok {sources : List (Source d)} {summaries : List PhaseSummary}
    {signals : List Signal} (h : Told op observer sources (.ok summaries) signals) :
    signals = (sources.zip summaries).flatMap (phaseSignals op) ∧
      summaries.map (fun p => (p.label, p.inputs)) =
        sources.map fun s => (s.label, s.pass.toList.length) := by
  generalize hResult : Except.ok summaries = result at h
  induction h generalizing summaries with
  | done =>
    cases hResult
    exact ⟨rfl, rfl⟩
  | @passed s rest result signals elapsed _ ih =>
    cases result with
    | error fault => cases hResult
    | ok rest =>
      cases hResult
      obtain ⟨hSignals, hSummaries⟩ := ih rfl
      rw [List.zip_cons_cons, List.flatMap_cons, hSignals, List.map_cons, List.map_cons, hSummaries]
      exact ⟨rfl, rfl⟩
  | differs _ => cases hResult

theorem Told.of_error {sources : List (Source d)} {fault : Fault} {signals : List Signal}
    (h : Told op observer sources (.error fault) signals) :
    ∃ r before s after passed, fault = .mismatch r ∧ sources = before ++ s :: after ∧
      r.IsOf op s ∧ signals = (before.zip passed).flatMap (phaseSignals op) ++
        [startSignal op s, .raised observer r.violation] ∧
      passed.map (fun p => (p.label, p.inputs)) =
        before.map fun s => (s.label, s.pass.toList.length) := by
  generalize hResult : Except.error fault = result at h
  induction h with
  | done => cases hResult
  | @passed s rest result signals elapsed _ ih =>
    cases result with
    | ok rest => cases hResult
    | error fault =>
      cases hResult
      obtain ⟨r, before, t, after, passed, hFault, rfl, hReport, rfl, hSummaries⟩ := ih rfl
      refine ⟨r, s :: before, t, after, ⟨s.label, s.pass.toList.length, elapsed⟩ :: passed, hFault,
        rfl, hReport, ?_, ?_⟩
      · rw [List.zip_cons_cons, List.flatMap_cons, List.append_assoc]
      · rw [List.map_cons, List.map_cons, hSummaries]
  | @differs s rest r hReport =>
    cases hResult
    exact ⟨r, [], s, rest, [], rfl, rfl, hReport, rfl, rfl⟩

end Verdict

/-! ## Whole runs -/

theorem emits_run (a : Audit d) (op : Operation d) (clock : StateM σ Duration)
    (target : d.Value → StateM σ d.Value) :
    Emits (a.run (watched clock target) op) fun verdict added => ∃ result elapsed,
      verdict = result.map (fun phases => ⟨op.name, phases, PhaseSummary.total phases, elapsed⟩) ∧
      Told op a.observer a.sources result added := by
  refine (emits_clock clock target).next fun began => ?_
  refine emits_bind (emits_phases clock target op a.observer a.sources) fun result signals h => ?_
  cases result with
  | error fault =>
    refine emits_pure ⟨.error fault, ⟨0⟩, rfl, ?_⟩
    rw [List.append_nil]
    exact h
  | ok summaries =>
    refine (emits_clock clock target).next fun stopped => emits_pure ⟨.ok summaries, _, rfl, ?_⟩
    rw [List.append_nil, List.append_nil]
    exact h

/-- The events of a phase that passes, of its source and its summary. -/
def phaseEvents (op : Operation d) (phase : Source d × PhaseSummary) : List Event :=
  [startEvent op phase.1, passEvent op phase.2]

theorem events_phaseSignals (op : Operation d) (phases : List (Source d × PhaseSummary)) :
    (phases.flatMap (phaseSignals op)).flatMap Signal.events = phases.flatMap (phaseEvents op) := by
  rw [List.flatMap_assoc]
  refine List.flatMap_congr fun phase _ => ?_
  rw [phaseEvents, ← phaseStarted_eq, ← phasePassed_eq]
  rfl

theorem deliveries_phaseSignals (op : Operation d) (phases : List (Source d × PhaseSummary)) :
    (phases.flatMap (phaseSignals op)).flatMap Signal.deliveries = [] := by
  rw [List.flatMap_assoc]
  exact List.flatMap_eq_nil_iff.mpr fun _ _ => rfl

/-- The log has the event of a report as often as it is told. -/
theorem events_raised (observer : Option Observer) (r : Discrepancy) :
    (Signal.raised observer r.violation).events = List.replicate
      ((deliver observer r.violation).count (.logged r.violation)) (mismatchEvent r) := by
  have hTold : ∀ x ∈ deliver observer r.violation, x.violation = r.violation :=
    fun _ => Observer.violation_of_mem
  rw [Signal.events, logged_eq_replicate hTold, List.map_replicate, ofViolation_eq]

/-- The log of a run that fails in the phase of `s`. -/
theorem events_failed (op : Operation d) (observer : Option Observer)
    (passed : List (Source d × PhaseSummary)) (s : Source d) (r : Discrepancy) :
    (passed.flatMap (phaseSignals op) ++
      [startSignal op s, .raised observer r.violation]).flatMap Signal.events =
    passed.flatMap (phaseEvents op) ++ startEvent op s ::
      List.replicate ((deliver observer r.violation).count (.logged r.violation))
        (mismatchEvent r) := by
  rw [List.flatMap_append, events_phaseSignals, List.flatMap_cons, List.flatMap_singleton,
    events_raised, ← phaseStarted_eq]
  rfl

/-- Of a run that fails only the violation is told to anyone. -/
theorem deliveries_failed (op : Operation d) (observer : Option Observer)
    (passed : List (Source d × PhaseSummary)) (s : Source d) (r : Discrepancy) :
    (passed.flatMap (phaseSignals op) ++
      [startSignal op s, .raised observer r.violation]).flatMap Signal.deliveries =
    deliver observer r.violation := by
  rw [List.flatMap_append, deliveries_phaseSignals, List.nil_append, List.flatMap_cons,
    List.flatMap_singleton]
  rfl

theorem length_stream_eq_sum_size (sources : List (Source d)) :
    (stream sources).length = (sources.map Source.size).sum := by
  rw [length_stream]
  exact congrArg List.sum (List.map_congr_left fun s _ => s.length_toList_pass)

theorem length_toList_le_stream {sources : List (Source d)} {s : Source d} (h : s ∈ sources) :
    s.pass.toList.length ≤ (stream sources).length := by
  rw [length_stream]
  exact List.le_sum_of_mem (List.mem_map_of_mem h)

/-- The signals of a run from its verdict, for every subject and clock with a state. A run that
passes has signalled the start and the success of each of its phases and told no observer anything.
A run that fails has done so for the phases before the one that its report is of; then it has
signalled the start of that one, and raised the violation that displays the report: to its observer,
or else to the log. The log shows an event for each of these signals: for the success of a phase one
with the inputs of its summary, which are as many as its source told; for the violation one for each
time that the log is told. -/
theorem signals_of_verdict (a : Audit d) (op : Operation d) (clock : StateM σ Duration)
    (target : d.Value → StateM σ d.Value) (hFits : (stream a.sources).length < 2 ^ 64) (st : σ) :
    let out := ((a.run (watched clock target) op).run []).run st
    let signals := out.1.2
    (∀ summary, out.1.1 = .ok summary →
      signals = (a.sources.zip summary.phases).flatMap (phaseSignals op) ∧
      signals.flatMap Signal.events = (a.sources.zip summary.phases).flatMap (phaseEvents op) ∧
      signals.flatMap Signal.deliveries = [] ∧
      summary.phases.map (fun p => (p.label, p.inputs)) =
        a.sources.map (fun s => (s.label, s.pass.toList.length)) ∧
      summary.totalInputs < 2 ^ 64) ∧
    (∀ fault, out.1.1 = .error fault → ∃ report before s after passed,
      let v := report.violation
      fault = .mismatch report ∧ a.sources = before ++ s :: after ∧ report.IsOf op s ∧
      signals = (before.zip passed).flatMap (phaseSignals op) ++
        [startSignal op s, .raised a.observer v] ∧
      passed.map (fun p => (p.label, p.inputs)) =
        before.map (fun s => (s.label, s.pass.toList.length)) ∧
      signals.flatMap Signal.events = (before.zip passed).flatMap (phaseEvents op) ++
        startEvent op s ::
          List.replicate ((deliver a.observer v).count (.logged v)) (mismatchEvent report) ∧
      signals.flatMap Signal.deliveries =
        (match a.observer with
          | some observer => observer.deliveries v
          | none => [.logged v]) ∧
      v.Displays report ∧ report.index < 2 ^ 64) ∧
    ∀ s ∈ a.sources, ∀ k, s.inputCount = some k → s.pass.toList.length = k.toNat := by
  intro out signals
  obtain ⟨added, hSignals, result, elapsed, hVerdict, hTold⟩ := emits_run a op clock target [] st
  have hAdded : signals = added := hSignals
  refine ⟨?_, ?_, ?_⟩
  · intro summary hOk
    cases result with
    | error fault => cases hOk.symm.trans hVerdict
    | ok summaries =>
      cases hOk.symm.trans hVerdict
      obtain ⟨hPhases, hSummaries⟩ := hTold.of_ok
      rw [hAdded, hPhases, events_phaseSignals, deliveries_phaseSignals]
      refine ⟨rfl, rfl, rfl, hSummaries, ?_⟩
      exact (total_eq_length_stream hSummaries).trans_lt hFits
  · intro fault hError
    cases result with
    | ok summaries => cases hError.symm.trans hVerdict
    | error fault =>
      cases hError.symm.trans hVerdict
      obtain ⟨report, before, s, after, passed, rfl, hSources, hReport, hPhases, hSummaries⟩ :=
        hTold.of_error
      have hMem : s ∈ a.sources := hSources ▸ List.mem_append_right _ List.mem_cons_self
      have hIndex : report.index < 2 ^ 64 :=
        (hReport.index_lt.trans_le (length_toList_le_stream hMem)).trans hFits
      rw [hAdded, hPhases, events_failed, deliveries_failed]
      exact ⟨report, before, s, after, passed, rfl, hSources, hReport, rfl, hSummaries, rfl,
        deliver_eq a.observer report.violation, report.displays_violation, hIndex⟩
  · intro s _ k hCount
    obtain ⟨hSize, -⟩ := (Source.inputCount_eq_some_iff s k).mp hCount
    rw [Source.length_toList_pass, hSize]

/-- The subject counts what it is asked, and its fourth answer is wrong; the time goes by its
count. A recorder is attached, and the log beside it. -/
theorem signals_of_verdict_fourth_answer :
    let a : Audit .word := ⟨[.interval ⟨0, 1, by decide⟩, .interval ⟨2, 5, by decide⟩],
      some (.fanOut [.recorder 7, .log])⟩
    let clock : StateM Nat Duration := fun asked => (⟨asked * 1500000⟩, asked)
    let target : Int64 → StateM Nat Int64 := fun n asked =>
      (if asked = 3 then 0 else Expression.primary n, asked + 1)
    let out := ((a.run (watched clock target) .primary).run []).run 0
    (stream a.sources).length < 2 ^ 64 ∧
    out.1.2.flatMap Signal.events = [
      ⟨.debug, "phase started", [("operation", "calculate_div_p2"),
        ("phase", "dense_range[0, 1]"), ("expected_inputs", "Some(2)")]⟩,
      ⟨.info, "phase passed", [("operation", "calculate_div_p2"),
        ("phase", "dense_range[0, 1]"), ("inputs", "2"), ("elapsed_ms", "3")]⟩,
      ⟨.debug, "phase started", [("operation", "calculate_div_p2"),
        ("phase", "dense_range[2, 5]"), ("expected_inputs", "Some(4)")]⟩,
      ⟨.error, "calculate_div_p2 disagrees with reference", [("severity", "critical"),
        ("kind", "mismatch"), ("location", "DivisionAudit.Audit.run"), ("index", "Some(1)"),
        ("context", String.join ["\x7b\"actual\": \"0\", \"expected\": \"26\", ",
          "\"input\": \"3\", \"phase\": \"dense_range[2, 5]\"\x7d"])]⟩] ∧
    ∃ report, out.1.1 = .error (.mismatch report) ∧ report.violation.Displays report ∧
      out.1.2.flatMap Signal.deliveries =
        [.recorded 7 report.violation, .logged report.violation] := by
  intro a clock target out
  have hFits : (stream a.sources).length < 2 ^ 64 := by
    rw [length_stream_eq_sum_size]
    decide
  obtain ⟨-, hFails, -⟩ := signals_of_verdict a .primary clock target hFits 0
  refine ⟨hFits, by decide +kernel, ?_⟩
  cases hOut : out.1.1 with
  | ok summary =>
    have hNotOk : out.1.1.toBool = false := by decide +kernel
    rw [hOut] at hNotOk
    cases hNotOk
  | error fault =>
    obtain ⟨report, -, -, -, -, rfl, -, -, -, -, -, hTold, hDisplays, -⟩ := hFails fault hOut
    exact ⟨report, rfl, hDisplays, hTold⟩

end Audit

end DivisionAudit
