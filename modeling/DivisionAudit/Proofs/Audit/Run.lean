import DivisionAudit.Proofs.Audit.Stream

/-!
# Runs along the stream

A run asks its subject for every input of the stream, in order, up to the first one where the answer
is wrong. What its host does with the signals, and what time it tells, has no part in this; so the
host below is any one that keeps a state.

* `Audit.asking`, `Audit.execute`: a bench that lists the inputs asked for, and a run on it.
* `Audit.execute_scan_clean`, `Audit.execute_scan_differs`: one phase.
* `Audit.execute_phases_clean`, `Audit.execute_phases_differs`: all phases, by induction on the
  sources.
* `Audit.outcome_eq_first_disagreement`: the outcome of a run and the inputs it asks for.
-/

namespace DivisionAudit.Audit

variable {d : Domain} {σ α β : Type}

/-! ## Benches that list the inputs asked for -/

/-- The bench of a function at a host; the inputs asked for are listed in order. -/
def asking (host : Host (StateM σ)) (f : d.Value → d.Value) :
    Bench (StateT (List d.Value) (StateM σ)) d :=
  Bench.tally (fun calls x => calls ++ [x]) { host with subject := fun x => pure (f x) }

/-- What an action comes to after some calls and in some state of the host: its value, all calls,
and the state of the host. -/
def execute (x : StateT (List d.Value) (StateM σ) α) (calls : List d.Value) (s : σ) :
    α × List d.Value × σ :=
  let r := (x.run calls).run s
  (r.1.1, r.1.2, r.2)

section Execute

variable (host : Host (StateM σ)) (f : d.Value → d.Value) (calls : List d.Value) (s : σ)

theorem execute_pure (a : α) :
    execute (pure a : StateT (List d.Value) (StateM σ) α) calls s = (a, calls, s) := rfl

theorem execute_bind (x : StateT (List d.Value) (StateM σ) α)
    (k : α → StateT (List d.Value) (StateM σ) β) :
    execute (x >>= k) calls s =
      execute (k (execute x calls s).1) (execute x calls s).2.1 (execute x calls s).2.2 := rfl

theorem execute_subject (x : d.Value) :
    execute ((asking host f).subject x) calls s = (f x, calls ++ [x], s) := rfl

theorem execute_signal (signal : Signal) :
    execute ((asking host f).signal signal) calls s = ((), calls, (host.signal signal s).2) := rfl

theorem execute_clock :
    execute (asking host f).clock calls s = ((host.clock s).1, calls, (host.clock s).2) := rfl

end Execute

/-! ## One phase -/

section Scan

variable {m : Type → Type} [Monad m] (bench : Bench m d) (op : Operation d)

theorem scan_of_next?_eq_none {p : Pass d} (h : p.next? = none) (i : Nat) :
    scan bench op p i = pure (.clean i) := by
  rw [scan]
  split
  · rfl
  · next h' => rw [h] at h'; cases h'

theorem scan_of_next?_eq_some {p p' : Pass d} {v : d.Value} (h : p.next? = some (v, p')) (i : Nat) :
    scan bench op p i = (bench.subject v >>= fun actual =>
      if (Outcome.compare op v actual).passes then scan bench op p' (i + 1)
      else pure (.differs i (Outcome.compare op v actual))) := by
  rw [scan]
  split
  · next h' => rw [h] at h'; cases h'
  · next h' => rw [h] at h'; cases h'; rfl

end Scan

variable (host : Host (StateM σ)) (f : d.Value → d.Value) (op : Operation d)

theorem execute_scan_step {p p' : Pass d} {v : d.Value} (h : p.next? = some (v, p')) (i : Nat)
    (calls : List d.Value) (s : σ) :
    execute (scan (asking host f) op p i) calls s =
      if d.agree (f v) (op.reference v) then
        execute (scan (asking host f) op p' (i + 1)) (calls ++ [v]) s
      else (.differs i (Outcome.compare op v (f v)), calls ++ [v], s) := by
  rw [scan_of_next?_eq_some _ _ h, execute_bind, execute_subject]
  dsimp only
  rw [Outcome.passes_compare]
  split
  · rfl
  · rfl

theorem execute_scan_clean {p : Pass d}
    (h : ∀ v ∈ p.toList, d.agree (f v) (op.reference v) = true) (i : Nat) (calls : List d.Value)
    (s : σ) :
    execute (scan (asking host f) op p i) calls s =
      (.clean (i + p.toList.length), calls ++ p.toList, s) := by
  generalize hp : p.toList = vs at h
  induction vs generalizing p i calls with
  | nil =>
    rw [scan_of_next?_eq_none _ _ (Pass.next?_eq_none_of_toList hp), execute_pure, List.append_nil]
    rfl
  | cons v vs ih =>
    obtain ⟨p', hNext, hRest⟩ := Pass.next?_eq_some_of_toList hp
    have hv := h v List.mem_cons_self
    rw [execute_scan_step host f op hNext, if_pos hv,
      ih (i + 1) (calls ++ [v]) hRest fun u hu => h u (List.mem_cons_of_mem v hu)]
    simp only [List.length_cons, List.append_assoc, List.singleton_append, Nat.add_assoc,
      Nat.add_comm 1]

theorem execute_scan_differs {p : Pass d} {pre post : List d.Value} {v : d.Value}
    (hp : p.toList = pre ++ v :: post) (h : ∀ u ∈ pre, d.agree (f u) (op.reference u) = true)
    (hv : ¬ d.agree (f v) (op.reference v) = true) (i : Nat) (calls : List d.Value) (s : σ) :
    execute (scan (asking host f) op p i) calls s =
      (.differs (i + pre.length) (Outcome.compare op v (f v)), calls ++ (pre ++ [v]), s) := by
  induction pre generalizing p i calls with
  | nil =>
    obtain ⟨p', hNext, -⟩ := Pass.next?_eq_some_of_toList hp
    rw [execute_scan_step host f op hNext, if_neg hv]
    rfl
  | cons u us ih =>
    obtain ⟨p', hNext, hRest⟩ := Pass.next?_eq_some_of_toList hp
    have hu := h u List.mem_cons_self
    rw [execute_scan_step host f op hNext, if_pos hu,
      ih hRest (fun w hw => h w (List.mem_cons_of_mem u hw)) (i + 1) (calls ++ [u])]
    simp only [List.length_cons, List.append_assoc, List.cons_append, List.nil_append,
      Nat.add_assoc, Nat.add_comm 1]

/-! ## All phases -/

/-- The state of the host once a phase has started. -/
def started (s : Source d) (st : σ) : σ :=
  (host.signal (.phaseStarted op.name s.label (s.inputCount.map UInt64.toNat)) (host.clock st).2).2

/-- The time that the host tells for a phase. -/
def elapsed (s : Source d) (st : σ) : Duration :=
  (host.clock (started host op s st)).1 - (host.clock st).1

/-- The state of the host once a phase of a number of inputs has passed. -/
def passed (s : Source d) (inputs : Nat) (st : σ) : σ :=
  (host.signal (.phasePassed op.name s.label inputs (elapsed host op s st))
    (host.clock (started host op s st)).2).2

variable (observer : Option Observer)

/-- A phase that passes hands over to the rest. -/
theorem execute_phases_cons_clean {s : Source d} (h : ∀ v ∈ s.visits, v.Agrees op f)
    (rest : List (Source d)) (calls : List d.Value) (st : σ) :
    execute (phases (asking host f) op observer (s :: rest)) calls st =
      let r := execute (phases (asking host f) op observer rest) (calls ++ s.pass.toList)
        (passed host op s s.pass.toList.length st)
      (r.1.map (⟨s.label, s.pass.toList.length, elapsed host op s st⟩ :: ·), r.2) := by
  have hAll : ∀ v ∈ s.pass.toList, d.agree (f v) (op.reference v) = true := by
    intro v hv
    rw [← Source.map_input_visits] at hv
    obtain ⟨w, hw, rfl⟩ := List.mem_map.mp hv
    exact h w hw
  simp only [phases, execute_bind, execute_clock, execute_signal,
    execute_scan_clean host f op hAll, Nat.zero_add, passed, elapsed, started]
  generalize execute (phases (asking host f) op observer rest) _ _ = r
  obtain ⟨fault | summaries, calls', st'⟩ := r
  · rfl
  · rfl

/-- At a wrong answer the phases end with its report; no later input is asked for. -/
theorem execute_phases_cons_differs {s : Source d} {pre post : List (Visit d)} {v : Visit d}
    (hs : s.visits = pre ++ v :: post) (h : ∀ u ∈ pre, u.Agrees op f) (hv : ¬ v.Agrees op f)
    (rest : List (Source d)) (calls : List d.Value) (st : σ) :
    execute (phases (asking host f) op observer (s :: rest)) calls st =
      (.error (.mismatch (v.report op f)), calls ++ (pre ++ [v]).map Visit.input,
        (host.signal (.raised observer (v.report op f).violation) (started host op s st)).2) := by
  have hList : s.pass.toList = pre.map Visit.input ++ v.input :: post.map Visit.input := by
    rw [← Source.map_input_visits, hs, List.map_append, List.map_cons]
  have hPre : ∀ x ∈ pre.map Visit.input, d.agree (f x) (op.reference x) = true := by
    intro x hx
    obtain ⟨u, hu, rfl⟩ := List.mem_map.mp hx
    exact h u hu
  have hReport : (Outcome.compare op v.input (f v.input)).discrepancy op.name s.label pre.length =
      v.report op f := by
    rw [Source.eq_of_visits_eq_append hs]
    rfl
  simp only [phases, execute_bind, execute_clock, execute_signal,
    execute_scan_differs host f op hList hPre hv, Nat.zero_add, List.length_map, hReport,
    execute_pure, List.map_append, List.map_cons, List.map_nil, started]

/-- Phases without a wrong answer ask for all inputs and sum up one phase for each source. -/
theorem execute_phases_clean {sources : List (Source d)}
    (h : ∀ v ∈ stream sources, v.Agrees op f) (calls : List d.Value) (st : σ) :
    ∃ summaries st', execute (phases (asking host f) op observer sources) calls st =
        (.ok summaries, calls ++ (stream sources).map Visit.input, st') ∧
      summaries.map (fun p => (p.label, p.inputs)) =
        sources.map fun s => (s.label, s.pass.toList.length) := by
  induction sources generalizing calls st with
  | nil => exact ⟨[], st, by simp [phases, execute_pure, stream], rfl⟩
  | cons s rest ih =>
    rw [stream_cons] at h
    have hs := fun v hv => h v (List.mem_append_left _ hv)
    have hRest := fun v hv => h v (List.mem_append_right _ hv)
    rw [execute_phases_cons_clean host f op observer hs]
    obtain ⟨summaries, st', hRun, hMap⟩ := ih hRest (calls ++ s.pass.toList)
      (passed host op s s.pass.toList.length st)
    refine ⟨⟨s.label, s.pass.toList.length, elapsed host op s st⟩ :: summaries, st', ?_, ?_⟩
    · rw [hRun, stream_cons, List.map_append, Source.map_input_visits, ← List.append_assoc]
      rfl
    · rw [List.map_cons, List.map_cons, hMap]

/-- Phases with a wrong answer end at the first one in the stream. -/
theorem execute_phases_differs {sources : List (Source d)} {pre post : List (Visit d)} {v : Visit d}
    (hStream : stream sources = pre ++ v :: post) (h : ∀ u ∈ pre, u.Agrees op f)
    (hv : ¬ v.Agrees op f) (calls : List d.Value) (st : σ) :
    ∃ st', execute (phases (asking host f) op observer sources) calls st =
      (.error (.mismatch (v.report op f)), calls ++ (pre ++ [v]).map Visit.input, st') := by
  induction sources generalizing pre calls st with
  | nil => simp [stream] at hStream
  | cons s rest ih =>
    rcases eq_or_eq_of_stream_cons hStream with ⟨post', hs⟩ | ⟨pre', rfl, hRest⟩
    · exact ⟨_, execute_phases_cons_differs host f op observer hs h hv rest calls st⟩
    · have hs : ∀ u ∈ s.visits, u.Agrees op f := fun u hu => h u (List.mem_append_left _ hu)
      rw [execute_phases_cons_clean host f op observer hs]
      obtain ⟨st', hRun⟩ := ih hRest (fun u hu => h u (List.mem_append_right _ hu))
        (calls ++ s.pass.toList) (passed host op s s.pass.toList.length st)
      refine ⟨st', ?_⟩
      rw [hRun]
      simp only [List.map_append, Source.map_input_visits, List.append_assoc]
      rfl

/-! ## Whole runs -/

theorem execute_run_clean {sources : List (Source d)} (h : ∀ v ∈ stream sources, v.Agrees op f)
    (calls : List d.Value) (st : σ) :
    ∃ summary st', execute (run ⟨sources, observer⟩ (asking host f) op) calls st =
        (.ok summary, calls ++ (stream sources).map Visit.input, st') ∧
      summary.operation = op.name ∧
      summary.phases.map (fun p => (p.label, p.inputs)) =
        sources.map (fun s => (s.label, s.pass.toList.length)) ∧
      summary.totalInputs = (sources.map fun s => s.pass.toList.length).sum := by
  obtain ⟨summaries, st', hRun, hMap⟩ :=
    execute_phases_clean host f op observer h calls (host.clock st).2
  refine ⟨⟨op.name, summaries, PhaseSummary.total summaries,
    (host.clock st').1 - (host.clock st).1⟩, (host.clock st').2, ?_, rfl, hMap,
    (total_eq_length_stream hMap).trans (length_stream sources)⟩
  simp only [run, execute_bind, execute_clock, hRun, execute_pure]

theorem execute_run_differs {sources : List (Source d)} {pre post : List (Visit d)} {v : Visit d}
    (hStream : stream sources = pre ++ v :: post) (h : ∀ u ∈ pre, u.Agrees op f)
    (hv : ¬ v.Agrees op f) (calls : List d.Value) (st : σ) :
    ∃ st', execute (run ⟨sources, observer⟩ (asking host f) op) calls st =
      (.error (.mismatch (v.report op f)), calls ++ (pre ++ [v]).map Visit.input, st') := by
  obtain ⟨st', hRun⟩ :=
    execute_phases_differs host f op observer hStream h hv calls (host.clock st).2
  refine ⟨st', ?_⟩
  simp only [run, execute_bind, execute_clock, hRun, execute_pure]

theorem exists_ok_iff (sources : List (Source d)) (calls : List d.Value) (st : σ) :
    (∃ summary, (execute (run ⟨sources, observer⟩ (asking host f) op) calls st).1 = .ok summary) ↔
      ∀ v ∈ stream sources, v.Agrees op f := by
  by_cases hAll : ∀ v ∈ stream sources, v.Agrees op f
  · obtain ⟨summary, st', hRun, -⟩ := execute_run_clean host f op observer hAll calls st
    exact iff_of_true ⟨summary, congrArg (·.1) hRun⟩ hAll
  · obtain ⟨pre, v, post, hStream, hPre, hv⟩ := exists_first_disagreement hAll
    obtain ⟨st', hRun⟩ := execute_run_differs host f op observer hStream hPre hv calls st
    refine iff_of_false ?_ hAll
    rintro ⟨summary, hOk⟩
    rw [hRun] at hOk
    cases hOk

/-- A run succeeds exactly when the function is right along the whole stream. It asks for the stream
in order, up to the first input where the function is wrong, and that is what its report is of. -/
theorem outcome_eq_first_disagreement (sources : List (Source d))
    (hWord : (stream sources).length < 2 ^ 64) (st : σ) :
    let out := execute (run ⟨sources, observer⟩ (asking host f) op) [] st
    ((∃ summary, out.1 = .ok summary) ↔ ∀ v ∈ stream sources, v.Agrees op f) ∧
    ((∀ v ∈ stream sources, v.Agrees op f) →
      out.2.1 = (stream sources).map Visit.input ∧
      ∃ summary, out.1 = .ok summary ∧ summary.operation = op.name ∧
        summary.phases.map (fun p => (p.label, p.inputs)) =
          sources.map (fun s => (s.label, s.pass.toList.length)) ∧
        summary.totalInputs = (sources.map fun s => s.pass.toList.length).sum ∧
        summary.totalInputs < 2 ^ 64) ∧
    ((¬ ∀ v ∈ stream sources, v.Agrees op f) →
      ∃ pre v post, stream sources = pre ++ v :: post ∧ (∀ u ∈ pre, u.Agrees op f) ∧
        ¬ v.Agrees op f ∧ out.1 = .error (.mismatch (v.report op f)) ∧
        out.2.1 = (pre ++ [v]).map Visit.input ∧ v.index < 2 ^ 64) := by
  intro out
  by_cases hAll : ∀ v ∈ stream sources, v.Agrees op f
  · obtain ⟨summary, st', hOut, hName, hPhases, hTotal⟩ :=
      execute_run_clean host f op observer hAll [] st
    have hOk : out.1 = .ok summary := congrArg (·.1) hOut
    have hCalls : out.2.1 = (stream sources).map Visit.input := congrArg (·.2.1) hOut
    have hFits : summary.totalInputs < 2 ^ 64 := by rwa [hTotal, ← length_stream]
    exact ⟨iff_of_true ⟨summary, hOk⟩ hAll,
      fun _ => ⟨hCalls, summary, hOk, hName, hPhases, hTotal, hFits⟩, fun hNot => absurd hAll hNot⟩
  · obtain ⟨pre, v, post, hStream, hPre, hv⟩ := exists_first_disagreement hAll
    obtain ⟨st', hOut⟩ := execute_run_differs host f op observer hStream hPre hv [] st
    have hError : out.1 = .error (.mismatch (v.report op f)) := congrArg (·.1) hOut
    have hCalls : out.2.1 = (pre ++ [v]).map Visit.input := congrArg (·.2.1) hOut
    have hMem : v ∈ stream sources := hStream ▸ List.mem_append_right _ List.mem_cons_self
    refine ⟨iff_of_false ?_ hAll, fun h => absurd h hAll, fun _ => ⟨pre, v, post, hStream, hPre, hv,
      hError, hCalls, Nat.lt_trans (index_lt_length_stream hMem) hWord⟩⟩
    rintro ⟨summary, hOk⟩
    rw [hError] at hOk
    cases hOk

/-- The only wrong answer is in the second phase, whose positions start anew. -/
theorem outcome_eq_first_disagreement_second_phase :
    let sources : List (Source .word) :=
      [.interval ⟨0, 1, by decide⟩, .interval ⟨2, 5, by decide⟩]
    let f : Int64 → Int64 := fun n => if n = 4 then 0 else Expression.primary n
    let host : Host (StateM (List Signal)) := (Bench.recording (d := .word) pure).toHost
    let out := execute (run ⟨sources, none⟩ (asking host f) .primary) [] []
    (stream sources).length < 2 ^ 64 ∧
    out.1 = .error (.mismatch
      ⟨"calculate_div_p2", "dense_range[2, 5]", 2, .word 4, .word (Expression.primary 4),
        .word 0⟩) ∧
    out.2.1 = [0, 1, 2, 3, 4] := by
  intro sources f host out
  have hStream : stream sources = [⟨"dense_range[0, 1]", 0, 0⟩, ⟨"dense_range[0, 1]", 1, 1⟩,
      ⟨"dense_range[2, 5]", 0, 2⟩, ⟨"dense_range[2, 5]", 1, 3⟩, ⟨"dense_range[2, 5]", 2, 4⟩,
      ⟨"dense_range[2, 5]", 3, 5⟩] := by
    simp only [sources, stream, List.flatMap_cons, List.flatMap_nil, Source.visits_interval]
    rfl
  have hWord : (stream sources).length < 2 ^ 64 := by rw [hStream]; decide
  obtain ⟨-, -, hDiffers⟩ := outcome_eq_first_disagreement host f .primary none sources hWord []
  have hNot : ¬ ∀ v ∈ stream sources, v.Agrees .primary f := by
    rw [hStream]
    decide +kernel
  obtain ⟨pre, v, post, hSplit, hPre, hv, hError, hCalls, -⟩ := hDiffers hNot
  have hTake : (stream sources).takeWhile (fun u => u.Agrees .primary f) = pre := by
    rw [hSplit, List.takeWhile_append_of_pos (by simpa using hPre),
      List.takeWhile_cons_of_neg (by simpa using hv), List.append_nil]
  have hEval : (stream sources).takeWhile (fun u => u.Agrees .primary f) =
      [⟨"dense_range[0, 1]", 0, 0⟩, ⟨"dense_range[0, 1]", 1, 1⟩, ⟨"dense_range[2, 5]", 0, 2⟩,
        ⟨"dense_range[2, 5]", 1, 3⟩] := by
    rw [hStream]
    rfl
  rw [hEval] at hTake
  rw [hStream, ← hTake] at hSplit
  obtain ⟨rfl, -⟩ : _ = v ∧ _ = post := by simpa using hSplit
  rw [← hTake] at hCalls
  exact ⟨hWord, hError, hCalls⟩

end DivisionAudit.Audit
