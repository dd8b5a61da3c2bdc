import DivisionAudit.Proofs.Audit.Run

/-!
# Subjects with a state

What a subject answers may depend on what it was asked before. A run asks it for the inputs of the
stream in order and stops after its first wrong answer, so the answers are determined by the inputs
alone. The sources have a part in it only as they place the wrong answer in a phase.

* `Answers`, `answersTo`: how far a subject is right along inputs, and its first wrong answer.
* `Audit.attended`, `Audit.attend`: a bench that keeps the state of the subject apart from that of
  the host, and what an action comes to on it.
* `Audit.attend_run_clean`, `Audit.attend_run_differs`: a run, from the answers along its stream.
* `Audit.attend_run_of_same_inputs`: two runs over the same inputs.
-/

namespace DivisionAudit

variable {d : Domain} {τ σ α β : Type}

/-! ## Answers along inputs -/

/-- The number of right answers, the outcome of the wrong one that comes after them, if there is
one, and the state that the subject is left in. -/
structure Answers (d : Domain) (τ : Type) where
  right : ℕ
  wrong : Option (Outcome d)
  state : τ

/-- The answers of a subject along inputs, up to its first wrong one. -/
def answersTo (op : Operation d) (target : d.Value → StateM τ d.Value) :
    List d.Value → τ → Answers d τ
  | [], t => ⟨0, none, t⟩
  | x :: xs, t =>
    let (actual, t) := (target x).run t
    let outcome := Outcome.compare op x actual
    if outcome.passes then
      let rest := answersTo op target xs t
      ⟨rest.right + 1, rest.wrong, rest.state⟩
    else ⟨0, some outcome, t⟩

section Answers

variable (op : Operation d) (target : d.Value → StateM τ d.Value)

theorem answersTo_cons_of_passes {x : d.Value} {t : τ}
    (h : (Outcome.compare op x ((target x).run t).1).passes = true) (xs : List d.Value) :
    answersTo op target (x :: xs) t =
      let rest := answersTo op target xs ((target x).run t).2
      ⟨rest.right + 1, rest.wrong, rest.state⟩ := if_pos h

theorem answersTo_cons_of_not_passes {x : d.Value} {t : τ}
    (h : ¬ (Outcome.compare op x ((target x).run t).1).passes = true) (xs : List d.Value) :
    answersTo op target (x :: xs) t =
      ⟨0, some (.compare op x ((target x).run t).1), ((target x).run t).2⟩ := if_neg h

variable {op target}

/-- A subject without a wrong answer goes on with the inputs that come after. -/
theorem answersTo_append_of_right {xs : List d.Value} {t : τ}
    (h : (answersTo op target xs t).wrong = none) (ys : List d.Value) :
    answersTo op target (xs ++ ys) t =
      let rest := answersTo op target ys (answersTo op target xs t).state
      ⟨xs.length + rest.right, rest.wrong, rest.state⟩ := by
  induction xs generalizing t with
  | nil => simp only [List.nil_append, answersTo, List.length_nil, Nat.zero_add]
  | cons x xs ih =>
    by_cases hx : (Outcome.compare op x ((target x).run t).1).passes = true
    · rw [answersTo_cons_of_passes op target hx] at h ⊢
      rw [List.cons_append, answersTo_cons_of_passes op target hx, ih h, List.length_cons]
      simp only [Nat.add_right_comm]
    · rw [answersTo_cons_of_not_passes op target hx] at h
      cases h

/-- After a wrong answer nothing is asked. -/
theorem answersTo_append_of_wrong {xs : List d.Value} {t : τ} {o : Outcome d}
    (h : (answersTo op target xs t).wrong = some o) (ys : List d.Value) :
    answersTo op target (xs ++ ys) t = answersTo op target xs t := by
  induction xs generalizing t with
  | nil => cases h
  | cons x xs ih =>
    by_cases hx : (Outcome.compare op x ((target x).run t).1).passes = true
    · rw [answersTo_cons_of_passes op target hx] at h
      rw [List.cons_append, answersTo_cons_of_passes op target hx, ih h,
        answersTo_cons_of_passes op target hx]
    · rw [List.cons_append, answersTo_cons_of_not_passes op target hx,
        answersTo_cons_of_not_passes op target hx]

theorem input_of_wrong {xs : List d.Value} {t : τ} {o : Outcome d}
    (h : (answersTo op target xs t).wrong = some o) :
    xs[(answersTo op target xs t).right]? = some o.input := by
  induction xs generalizing t with
  | nil => cases h
  | cons x xs ih =>
    by_cases hx : (Outcome.compare op x ((target x).run t).1).passes = true
    · rw [answersTo_cons_of_passes op target hx] at h ⊢
      exact ih h
    · rw [answersTo_cons_of_not_passes op target hx] at h ⊢
      cases h
      rfl

end Answers

namespace Audit

/-! ## Benches of subjects with a state -/

/-- The bench of a subject with a state at a host; the inputs asked for are listed in order. -/
def attended (host : Host (StateM σ)) (target : d.Value → StateM τ d.Value) :
    Bench (StateT (List d.Value) (StateT τ (StateM σ))) d :=
  Bench.tally (fun calls x => calls ++ [x])
    { subject := fun x t => pure ((target x).run t)
      signal := fun s => StateT.lift (host.signal s)
      clock := StateT.lift host.clock }

/-- What an action comes to: its value, all calls, and the states of the subject and the host. -/
def attend (x : StateT (List d.Value) (StateT τ (StateM σ)) α) (calls : List d.Value) (t : τ)
    (s : σ) : α × List d.Value × τ × σ :=
  let r := ((x.run calls).run t).run s
  (r.1.1.1, r.1.1.2, r.1.2, r.2)

section Attend

variable (host : Host (StateM σ)) (target : d.Value → StateM τ d.Value) (calls : List d.Value)
  (t : τ) (s : σ)

theorem attend_pure (a : α) :
    attend (pure a : StateT (List d.Value) (StateT τ (StateM σ)) α) calls t s =
      (a, calls, t, s) := rfl

theorem attend_bind (x : StateT (List d.Value) (StateT τ (StateM σ)) α)
    (k : α → StateT (List d.Value) (StateT τ (StateM σ)) β) :
    attend (x >>= k) calls t s =
      let r := attend x calls t s
      attend (k r.1) r.2.1 r.2.2.1 r.2.2.2 := rfl

theorem attend_subject (x : d.Value) :
    attend ((attended host target).subject x) calls t s =
      (((target x).run t).1, calls ++ [x], ((target x).run t).2, s) := rfl

theorem attend_signal (signal : Signal) :
    attend ((attended host target).signal signal) calls t s =
      ((), calls, t, (host.signal signal s).2) := rfl

theorem attend_clock :
    attend (attended host target).clock calls t s =
      ((host.clock s).1, calls, t, (host.clock s).2) := rfl

end Attend

/-! ## One phase -/

variable (host : Host (StateM σ)) (target : d.Value → StateM τ d.Value) (op : Operation d)

theorem attend_scan_step {p p' : Pass d} {x : d.Value} (h : p.next? = some (x, p')) (i : ℕ)
    (calls : List d.Value) (t : τ) (s : σ) :
    attend (scan (attended host target) op p i) calls t s =
      let outcome := Outcome.compare op x ((target x).run t).1
      if outcome.passes then
        attend (scan (attended host target) op p' (i + 1)) (calls ++ [x]) ((target x).run t).2 s
      else (.differs i outcome, calls ++ [x], ((target x).run t).2, s) := by
  rw [scan_of_next?_eq_some _ _ h, attend_bind, attend_subject]
  dsimp only
  split
  · rfl
  · rfl

theorem attend_scan_clean {p : Pass d} {t : τ}
    (h : (answersTo op target p.toList t).wrong = none) (i : ℕ) (calls : List d.Value) (s : σ) :
    attend (scan (attended host target) op p i) calls t s =
      (.clean (i + p.toList.length), calls ++ p.toList, (answersTo op target p.toList t).state,
        s) := by
  generalize hp : p.toList = xs at h
  induction xs generalizing p i calls t with
  | nil =>
    rw [scan_of_next?_eq_none _ _ (Pass.next?_eq_none_of_toList hp), attend_pure, List.append_nil]
    rfl
  | cons x xs ih =>
    obtain ⟨p', hNext, hRest⟩ := Pass.next?_eq_some_of_toList hp
    by_cases hx : (Outcome.compare op x ((target x).run t).1).passes = true
    · rw [answersTo_cons_of_passes op target hx] at h
      rw [attend_scan_step host target op hNext, if_pos hx, ih (i + 1) (calls ++ [x]) hRest h,
        answersTo_cons_of_passes op target hx]
      simp only [List.length_cons, List.append_assoc, List.singleton_append, Nat.add_assoc,
        Nat.add_comm 1]
    · rw [answersTo_cons_of_not_passes op target hx] at h
      cases h

theorem attend_scan_differs {p : Pass d} {t : τ} {o : Outcome d}
    (h : (answersTo op target p.toList t).wrong = some o) (i : ℕ) (calls : List d.Value) (s : σ) :
    attend (scan (attended host target) op p i) calls t s =
      let answers := answersTo op target p.toList t
      (.differs (i + answers.right) o, calls ++ p.toList.take (answers.right + 1), answers.state,
        s) := by
  generalize hp : p.toList = xs at h
  induction xs generalizing p i calls t with
  | nil => cases h
  | cons x xs ih =>
    obtain ⟨p', hNext, hRest⟩ := Pass.next?_eq_some_of_toList hp
    by_cases hx : (Outcome.compare op x ((target x).run t).1).passes = true
    · rw [answersTo_cons_of_passes op target hx] at h
      rw [attend_scan_step host target op hNext, if_pos hx, ih (i + 1) (calls ++ [x]) hRest h,
        answersTo_cons_of_passes op target hx]
      simp only [List.take_succ_cons, List.append_assoc, List.singleton_append, Nat.add_assoc,
        Nat.add_comm 1]
    · rw [answersTo_cons_of_not_passes op target hx] at h
      rw [attend_scan_step host target op hNext, if_neg hx,
        answersTo_cons_of_not_passes op target hx]
      cases h
      rfl

/-! ## All phases -/

variable (observer : Option Observer)

/-- A phase that passes hands over to the rest, with the state that the subject is left in. -/
theorem attend_phases_cons_clean {s : Source d} {t : τ}
    (h : (answersTo op target s.pass.toList t).wrong = none) (rest : List (Source d))
    (calls : List d.Value) (st : σ) :
    attend (phases (attended host target) op observer (s :: rest)) calls t st =
      let r := attend (phases (attended host target) op observer rest) (calls ++ s.pass.toList)
        (answersTo op target s.pass.toList t).state (passed host op s s.pass.toList.length st)
      (r.1.map (⟨s.label, s.pass.toList.length, elapsed host op s st⟩ :: ·), r.2) := by
  simp only [phases, attend_bind, attend_clock, attend_signal,
    attend_scan_clean host target op h, Nat.zero_add, passed, elapsed, started]
  generalize attend (phases (attended host target) op observer rest) _ _ _ = r
  obtain ⟨fault | summaries, r⟩ := r
  · rfl
  · rfl

/-- At a wrong answer the phases end with its report; nothing more is asked. -/
theorem attend_phases_cons_differs {s : Source d} {t : τ} {o : Outcome d}
    (h : (answersTo op target s.pass.toList t).wrong = some o) (rest : List (Source d))
    (calls : List d.Value) (st : σ) :
    let answers := answersTo op target s.pass.toList t
    let report := o.discrepancy op.name s.label answers.right
    attend (phases (attended host target) op observer (s :: rest)) calls t st =
      (.error (.mismatch report), calls ++ s.pass.toList.take (answers.right + 1), answers.state,
        (host.signal (.raised observer report.violation) (started host op s st)).2) := by
  simp only [phases, attend_bind, attend_clock, attend_signal,
    attend_scan_differs host target op h, Nat.zero_add, attend_pure, started]

theorem map_input_stream_cons (s : Source d) (rest : List (Source d)) :
    (stream (s :: rest)).map Visit.input =
      s.pass.toList ++ (stream rest).map Visit.input := by
  rw [stream_cons, List.map_append, Source.map_input_visits]

/-- Phases without a wrong answer ask for all inputs and sum up one phase for each source. -/
theorem attend_phases_clean {sources : List (Source d)} {t : τ}
    (h : (answersTo op target ((stream sources).map Visit.input) t).wrong = none)
    (calls : List d.Value) (st : σ) :
    ∃ summaries st', attend (phases (attended host target) op observer sources) calls t st =
        (.ok summaries, calls ++ (stream sources).map Visit.input,
          (answersTo op target ((stream sources).map Visit.input) t).state, st') ∧
      summaries.map (fun p => (p.label, p.inputs)) =
        sources.map fun s => (s.label, s.pass.toList.length) := by
  induction sources generalizing calls t st with
  | nil => exact ⟨[], st, by simp [phases, attend_pure, stream, answersTo], rfl⟩
  | cons s rest ih =>
    rw [map_input_stream_cons] at h ⊢
    cases hs : (answersTo op target s.pass.toList t).wrong with
    | some o =>
      rw [answersTo_append_of_wrong hs, hs] at h
      cases h
    | none =>
      rw [answersTo_append_of_right hs] at h ⊢
      rw [attend_phases_cons_clean host target op observer hs]
      obtain ⟨summaries, st', hRun, hMap⟩ := ih h (calls ++ s.pass.toList)
        (passed host op s s.pass.toList.length st)
      refine ⟨⟨s.label, s.pass.toList.length, elapsed host op s st⟩ :: summaries, st', ?_, ?_⟩
      · rw [hRun, ← List.append_assoc]
        rfl
      · rw [List.map_cons, List.map_cons, hMap]

/-- Phases with a wrong answer end there, with the report of the input as the stream places it. -/
theorem attend_phases_differs {sources : List (Source d)} {t : τ} {o : Outcome d}
    (h : (answersTo op target ((stream sources).map Visit.input) t).wrong = some o)
    (calls : List d.Value) (st : σ) :
    let answers := answersTo op target ((stream sources).map Visit.input) t
    ∃ v st', (stream sources)[answers.right]? = some v ∧
      attend (phases (attended host target) op observer sources) calls t st =
        (.error (.mismatch (o.discrepancy op.name v.phase v.index)),
          calls ++ ((stream sources).map Visit.input).take (answers.right + 1), answers.state,
          st') := by
  induction sources generalizing calls t st with
  | nil => cases h
  | cons s rest ih =>
    rw [map_input_stream_cons] at h ⊢
    cases hs : (answersTo op target s.pass.toList t).wrong with
    | some o' =>
      rw [answersTo_append_of_wrong hs, hs] at h
      cases h
      rw [answersTo_append_of_wrong hs]
      have hLt := (List.getElem?_eq_some_iff.mp (input_of_wrong hs)).1
      have hVisit : (stream (s :: rest))[(answersTo op target s.pass.toList t).right]? =
          some ⟨s.label, (answersTo op target s.pass.toList t).right, o.input⟩ := by
        rw [stream_cons, List.getElem?_append_left (s.length_visits ▸ hLt), Source.visits,
          List.getElem?_mapIdx, input_of_wrong hs]
        rfl
      dsimp only
      rw [List.take_append_of_le_length hLt]
      exact ⟨_, _, hVisit, attend_phases_cons_differs host target op observer hs rest calls st⟩
    | none =>
      rw [answersTo_append_of_right hs] at h ⊢
      rw [attend_phases_cons_clean host target op observer hs]
      obtain ⟨v, st', hVisit, hRun⟩ := ih h (calls ++ s.pass.toList)
        (passed host op s s.pass.toList.length st)
      refine ⟨v, st', ?_, ?_⟩
      · rw [stream_cons, ← Source.length_visits, List.getElem?_append_right (Nat.le_add_right _ _),
          Nat.add_sub_cancel_left]
        exact hVisit
      · rw [hRun, Nat.add_assoc, List.take_length_add_append, ← List.append_assoc]
        rfl

/-! ## Whole runs -/

theorem attend_run_clean {sources : List (Source d)} {t : τ}
    (h : (answersTo op target ((stream sources).map Visit.input) t).wrong = none)
    (calls : List d.Value) (st : σ) :
    ∃ summary st', attend (run ⟨sources, observer⟩ (attended host target) op) calls t st =
        (.ok summary, calls ++ (stream sources).map Visit.input,
          (answersTo op target ((stream sources).map Visit.input) t).state, st') ∧
      summary.totalInputs = (stream sources).length := by
  obtain ⟨summaries, st', hRun, hMap⟩ :=
    attend_phases_clean host target op observer h calls (host.clock st).2
  refine ⟨⟨op.name, summaries, PhaseSummary.total summaries,
    (host.clock st').1 - (host.clock st).1⟩, (host.clock st').2, ?_, total_eq_length_stream hMap⟩
  simp only [run, attend_bind, attend_clock, hRun, attend_pure]

theorem attend_run_differs {sources : List (Source d)} {t : τ} {o : Outcome d}
    (h : (answersTo op target ((stream sources).map Visit.input) t).wrong = some o)
    (calls : List d.Value) (st : σ) :
    let answers := answersTo op target ((stream sources).map Visit.input) t
    ∃ v st', (stream sources)[answers.right]? = some v ∧
      attend (run ⟨sources, observer⟩ (attended host target) op) calls t st =
        (.error (.mismatch (o.discrepancy op.name v.phase v.index)),
          calls ++ ((stream sources).map Visit.input).take (answers.right + 1), answers.state,
          st') := by
  obtain ⟨v, st', hVisit, hRun⟩ :=
    attend_phases_differs host target op observer h calls (host.clock st).2
  refine ⟨v, st', hVisit, ?_⟩
  simp only [run, attend_bind, attend_clock, hRun, attend_pure]

/-- Runs over the same inputs ask for the same ones. They both pass, or both report the outcome of
one input, each as its own stream places it. -/
theorem attend_run_of_same_inputs {sources sources' : List (Source d)}
    (hInputs : (stream sources').map Visit.input = (stream sources).map Visit.input)
    {σ' : Type} (host' : Host (StateM σ')) (observer' : Option Observer) (t : τ) (st : σ)
    (st' : σ') :
    let out := attend (run ⟨sources, observer⟩ (attended host target) op) [] t st
    let out' := attend (run ⟨sources', observer'⟩ (attended host' target) op) [] t st'
    out'.2.1 = out.2.1 ∧
    ((∃ summary summary', out.1 = .ok summary ∧ out'.1 = .ok summary' ∧
        summary.totalInputs = (stream sources).length ∧
        summary'.totalInputs = (stream sources).length) ∨
      ∃ (n : ℕ) (o : Outcome d) (v v' : Visit d), (stream sources)[n]? = some v ∧
        (stream sources')[n]? = some v' ∧ v.input = o.input ∧ out.2.1.length = n + 1 ∧
        out.1 = .error (.mismatch (o.discrepancy op.name v.phase v.index)) ∧
        out'.1 = .error (.mismatch (o.discrepancy op.name v'.phase v'.index))) := by
  intro out out'
  have hLength : (stream sources').length = (stream sources).length := by
    simpa only [List.length_map] using congrArg List.length hInputs
  cases h : (answersTo op target ((stream sources).map Visit.input) t).wrong with
  | none =>
    have h' := h
    rw [← hInputs] at h'
    obtain ⟨summary, _, hRun, hTotal⟩ := attend_run_clean host target op observer h [] st
    obtain ⟨summary', _, hRun', hTotal'⟩ := attend_run_clean host' target op observer' h' [] st'
    have hOut : out = _ := hRun
    have hOut' : out' = _ := hRun'
    rw [hOut, hOut', hInputs]
    exact ⟨rfl, .inl ⟨summary, summary', rfl, rfl, hTotal, hTotal'.trans hLength⟩⟩
  | some o =>
    have h' := h
    rw [← hInputs] at h'
    obtain ⟨v, _, hVisit, hRun⟩ := attend_run_differs host target op observer h [] st
    obtain ⟨v', _, hVisit', hRun'⟩ := attend_run_differs host' target op observer' h' [] st'
    have hOut : out = _ := hRun
    have hOut' : out' = _ := hRun'
    have hInput := input_of_wrong h
    have hLt := (List.getElem?_eq_some_iff.mp hInput).1
    rw [List.getElem?_map, hVisit] at hInput
    rw [hInputs] at hVisit'
    rw [hOut, hOut', hInputs]
    refine ⟨rfl, .inr ⟨_, o, v, v', hVisit, hVisit', Option.some.inj hInput, ?_, rfl, rfl⟩⟩
    rw [List.nil_append, List.length_take, Nat.min_eq_left hLt]

end Audit

end DivisionAudit
