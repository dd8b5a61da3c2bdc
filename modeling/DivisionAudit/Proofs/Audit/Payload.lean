import DivisionAudit.Proofs.Audit.Run
import DivisionAudit.Proofs.Comparison.Agreement

/-!
# Runs that cannot be told apart

Two functions whose results agree at every input are right at the same inputs. So runs of the two go
the same way: they ask for the same inputs and pass or fail together, and the reports of a failure
compare equal, though the bits of a NaN in them may differ. Nor does a host see a difference, for
what it is told are texts of values, and these do not show the bits of a NaN.

* `SameVerdict`: verdicts that are equal up to the equality of reports.
* `Audit.sameVerdict_of_agree`: runs at any two hosts.
* `Audit.execute_run_of_agree`: runs at the same host, with what the host comes to; by induction on
  the sources.
* `Audit.payloads_unobservable`: runs over doubles.
-/

namespace DivisionAudit

/-- Both pass, with summaries that differ in times only; or both fail, with reports that compare
equal and are shown alike. -/
inductive SameVerdict : Except Fault RunSummary → Except Fault RunSummary → Prop
  | passed {summary summary' : RunSummary} (operation : summary'.operation = summary.operation)
      (phases : summary'.phases.map (fun p => (p.label, p.inputs)) =
        summary.phases.map fun p => (p.label, p.inputs))
      (total : summary'.totalInputs = summary.totalInputs) :
      SameVerdict (.ok summary) (.ok summary')
  | failed {r r' : Discrepancy} (equal : (r' == r) = true) (text : r'.text = r.text)
      (json : r'.json.text = r.json.text) :
      SameVerdict (.error (.mismatch r)) (.error (.mismatch r'))

theorem SameVerdict.of_beq {r r' : Discrepancy} (h : (r' == r) = true) :
    SameVerdict (.error (.mismatch r)) (.error (.mismatch r')) :=
  .failed h (Discrepancy.text_eq_of_beq h) (Discrepancy.json_eq_of_beq h)

namespace Audit

variable {d : Domain} {σ σ' : Type} {t u : d.Value → d.Value}

/-! ## Inputs -/

theorem agrees_iff_of_agree (h : ∀ x, d.agree (t x) (u x) = true) (op : Operation d)
    (v : Visit d) : v.Agrees op u ↔ v.Agrees op t := by
  rw [Visit.Agrees, Visit.Agrees, d.agree_congr (h v.input)]

theorem report_beq_of_agree (h : ∀ x, d.agree (t x) (u x) = true) (op : Operation d)
    (v : Visit d) : (v.report op u == v.report op t) = true := by
  have hRefl := Quantity.equivalence_agrees.refl
  have hActual : (v.report op t).actual.agrees (v.report op u).actual = true := by
    rw [Visit.report, Visit.report, Quantity.agrees_of]
    exact h v.input
  exact Discrepancy.beq_iff.mpr ⟨rfl, rfl, rfl, hRefl _, hRefl _,
    Quantity.equivalence_agrees.symm hActual⟩

/-! ## Verdicts -/

/-- The inputs asked for and the verdict depend on the results only up to agreement, whatever the
hosts and the observers are. -/
theorem sameVerdict_of_agree (h : ∀ x, d.agree (t x) (u x) = true) (op : Operation d)
    (sources : List (Source d)) (host : Host (StateM σ)) (host' : Host (StateM σ'))
    (observer observer' : Option Observer) (st : σ) (st' : σ') :
    let out := execute (run ⟨sources, observer⟩ (asking host t) op) [] st
    let out' := execute (run ⟨sources, observer'⟩ (asking host' u) op) [] st'
    out'.2.1 = out.2.1 ∧ SameVerdict out.1 out'.1 := by
  by_cases hAll : ∀ v ∈ stream sources, v.Agrees op t
  · have hAll' : ∀ v ∈ stream sources, v.Agrees op u := fun v hv =>
      (agrees_iff_of_agree h op v).mpr (hAll v hv)
    obtain ⟨summary, _, hRun, hName, hPhases, hTotal⟩ :=
      execute_run_clean host t op observer hAll [] st
    obtain ⟨summary', _, hRun', hName', hPhases', hTotal'⟩ :=
      execute_run_clean host' u op observer' hAll' [] st'
    rw [hRun, hRun']
    exact ⟨rfl, .passed (hName'.trans hName.symm) (hPhases'.trans hPhases.symm)
      (hTotal'.trans hTotal.symm)⟩
  · obtain ⟨pre, v, post, hStream, hPre, hv⟩ := exists_first_disagreement hAll
    have hPre' : ∀ w ∈ pre, w.Agrees op u := fun w hw =>
      (agrees_iff_of_agree h op w).mpr (hPre w hw)
    have hv' : ¬ v.Agrees op u := mt (agrees_iff_of_agree h op v).mp hv
    obtain ⟨_, hRun⟩ := execute_run_differs host t op observer hStream hPre hv [] st
    obtain ⟨_, hRun'⟩ := execute_run_differs host' u op observer' hStream hPre' hv' [] st'
    rw [hRun, hRun']
    exact ⟨rfl, .of_beq (report_beq_of_agree h op v)⟩

/-! ## Hosts -/

variable (host : Host (StateM σ)) (observer : Option Observer)

/-- The phases leave the same calls and the same state of the host. -/
theorem execute_phases_of_agree (h : ∀ x, d.agree (t x) (u x) = true) (op : Operation d)
    (sources : List (Source d)) (calls : List d.Value) (st : σ) :
    let out := execute (phases (asking host t) op observer sources) calls st
    let out' := execute (phases (asking host u) op observer sources) calls st
    out'.2 = out.2 ∧ ((∃ summaries, out.1 = .ok summaries ∧ out'.1 = .ok summaries) ∨
      ∃ r r', out.1 = .error (.mismatch r) ∧ out'.1 = .error (.mismatch r')) := by
  induction sources generalizing calls st with
  | nil => exact ⟨rfl, .inl ⟨[], rfl, rfl⟩⟩
  | cons s rest ih =>
    by_cases hAll : ∀ v ∈ s.visits, v.Agrees op t
    · have hAll' : ∀ v ∈ s.visits, v.Agrees op u := fun v hv =>
        (agrees_iff_of_agree h op v).mpr (hAll v hv)
      rw [execute_phases_cons_clean host t op observer hAll,
        execute_phases_cons_clean host u op observer hAll']
      obtain ⟨hRest, ⟨summaries, hOk, hOk'⟩ | ⟨r, r', hError, hError'⟩⟩ :=
        ih (calls ++ s.pass.toList) (passed host op s s.pass.toList.length st)
      · dsimp only
        rw [hOk, hOk']
        exact ⟨hRest, .inl ⟨_, rfl, rfl⟩⟩
      · dsimp only
        rw [hError, hError']
        exact ⟨hRest, .inr ⟨r, r', rfl, rfl⟩⟩
    · obtain ⟨pre, v, post, hs, hPre, hv⟩ := exists_first_disagreement hAll
      have hPre' : ∀ w ∈ pre, w.Agrees op u := fun w hw =>
        (agrees_iff_of_agree h op w).mpr (hPre w hw)
      have hv' : ¬ v.Agrees op u := mt (agrees_iff_of_agree h op v).mp hv
      -- the hosts are told the same violation
      have hViolation := Discrepancy.violation_eq_of_beq (report_beq_of_agree h op v)
      rw [execute_phases_cons_differs host t op observer hs hPre hv,
        execute_phases_cons_differs host u op observer hs hPre' hv', hViolation]
      exact ⟨rfl, .inr ⟨_, _, rfl, rfl⟩⟩

/-- What is said to a host, by signals and by asking for inputs, depends on the results only up to
agreement. -/
theorem execute_run_of_agree (h : ∀ x, d.agree (t x) (u x) = true) (op : Operation d)
    (sources : List (Source d)) (calls : List d.Value) (st : σ) :
    (execute (run ⟨sources, observer⟩ (asking host u) op) calls st).2 =
      (execute (run ⟨sources, observer⟩ (asking host t) op) calls st).2 := by
  obtain ⟨hPhases, hVerdict⟩ :=
    execute_phases_of_agree host observer h op sources calls (host.clock st).2
  simp only [run, execute_bind, execute_clock]
  rw [hPhases]
  rcases hVerdict with ⟨summaries, hOk, hOk'⟩ | ⟨r, r', hError, hError'⟩
  · rw [hOk, hOk']
    rfl
  · rw [hError, hError']
    rfl

/-! ## Runs over doubles -/

/-- One result that is not NaN and has other bits than the reference is enough to fail. -/
theorem exists_error_of_bits_ne {op : Operation .double} {t : Binary64 → Binary64}
    {sources : List (Source .double)} {s : Source .double} (hs : s ∈ sources) {x : Binary64}
    (hx : x ∈ s.pass.toList) (hNaN : (t x).isNaN = false)
    (hBits : (t x).bits ≠ (op.reference x).bits) (calls : List Binary64) (st : σ) :
    ∃ r, (execute (run ⟨sources, observer⟩ (asking host t) op) calls st).1 =
      .error (.mismatch r) := by
  have hMismatch : op.accepts t x = false := by
    have hVerdict := (Outcome.mismatch_iff_of_isNaN_eq_false hNaN).mpr hBits
    rw [Operation.accepts, Outcome.passes, hVerdict]
    rfl
  have hNot : ¬ ∀ v ∈ stream sources, v.Agrees op t := by
    intro hAll
    rw [(forall_agrees_iff sources).mp hAll s hs x hx] at hMismatch
    cases hMismatch
  obtain ⟨pre, v, post, hStream, hPre, hv⟩ := exists_first_disagreement hNot
  obtain ⟨_, hRun⟩ := execute_run_differs host t op observer hStream hPre hv calls st
  exact ⟨_, congrArg (·.1) hRun⟩

/-- The bits of a NaN are not seen. Functions that differ in nothing else are asked for the same
inputs and come to the same verdict, and a host is told the same of both; so a function that fails
fails again with an equal report. The bits of all other results are seen, and the sign of a zero
with them: where they are not those of the reference there is a mismatch, and a run that comes by
fails. Reports compare by an equivalence. -/
theorem payloads_unobservable {t u : Binary64 → Binary64}
    (h : ∀ x, (t x).bits = (u x).bits ∨ ((t x).isNaN = true ∧ (u x).isNaN = true))
    (op : Operation .double) (sources : List (Source .double)) (host : Host (StateM σ))
    (host' : Host (StateM σ')) (observer observer' : Option Observer) (st : σ) (st' : σ') :
    let out := execute (run ⟨sources, observer⟩ (asking host t) op) [] st
    let out' := execute (run ⟨sources, observer'⟩ (asking host' u) op) [] st'
    let again := execute (run ⟨sources, observer'⟩ (asking host' t) op) [] st'
    out'.2.1 = out.2.1 ∧ SameVerdict out.1 out'.1 ∧ SameVerdict out.1 again.1 ∧
    (execute (run ⟨sources, observer⟩ (asking host u) op) [] st).2 = out.2 ∧
    (∀ x y, y.isNaN = false →
      ((Outcome.compare op x y).verdict = .mismatch ↔ y.bits ≠ (op.reference x).bits)) ∧
    (∀ x y, y.isZero = true → (op.reference x).isZero = true →
      y.isNegative ≠ (op.reference x).isNegative →
      (Outcome.compare op x y).verdict = .mismatch) ∧
    (∀ s ∈ sources, ∀ x ∈ s.pass.toList, (t x).isNaN = false →
      (t x).bits ≠ (op.reference x).bits → ∃ r, out.1 = .error (.mismatch r)) ∧
    Equivalence fun r s : Discrepancy => (r == s) = true := by
  intro out out' again
  have hAgree : ∀ x, Domain.double.agree (t x) (u x) = true := by
    intro x
    simpa [Domain.agree, Binary64.agrees] using h x
  have hSelf : ∀ x, Domain.double.agree (t x) (t x) = true := fun x => Domain.double.agree_refl _
  obtain ⟨hCalls, hVerdict⟩ :=
    sameVerdict_of_agree hAgree op sources host host' observer observer' st st'
  obtain ⟨-, hAgain⟩ := sameVerdict_of_agree hSelf op sources host host' observer observer' st st'
  have hHost := execute_run_of_agree host observer hAgree op sources [] st
  refine ⟨hCalls, hVerdict, hAgain, hHost, ?_, ?_, ?_, Discrepancy.equivalence_beq⟩
  · intro x y hNaN
    exact Outcome.mismatch_iff_of_isNaN_eq_false hNaN
  · intro x y hy _ hSign
    exact Outcome.mismatch_of_isZero hy hSign
  · intro s hs x hx hNaN hBits
    exact exists_error_of_bits_ne host observer hs hx hNaN hBits [] st

/-- Two functions that are NaN everywhere, each with bits of its own, fail at the first input. -/
theorem payloads_unobservable_two_nans :
    let t : Binary64 → Binary64 := fun _ => ⟨0x7FF8000000000001⟩
    let u : Binary64 → Binary64 := fun _ => ⟨0xFFF800000000BEEF⟩
    let op : Operation .double := ⟨"calculate_fdiv_p2", id⟩
    let host : Host (StateM (List Signal)) := (Bench.recording (d := .double) pure).toHost
    let out := execute (run ⟨[.powers], none⟩ (asking host t) op) [] []
    let out' := execute (run ⟨[.powers], none⟩ (asking host u) op) [] []
    let report (actual : Binary64) : Discrepancy := ⟨"calculate_fdiv_p2", "powers_of_two", 0,
      .double (.powerOfTwo 0), .double (.powerOfTwo 0), .double actual⟩
    (∀ x, (t x).bits = (u x).bits ∨ ((t x).isNaN = true ∧ (u x).isNaN = true)) ∧
    out.1 = .error (.mismatch (report ⟨0x7FF8000000000001⟩)) ∧
    out'.1 = .error (.mismatch (report ⟨0xFFF800000000BEEF⟩)) ∧
    SameVerdict out.1 out'.1 ∧ out'.2 = out.2 := by
  intro t u op host out out' report
  have hNaN : ∀ x, (t x).bits = (u x).bits ∨ ((t x).isNaN = true ∧ (u x).isNaN = true) :=
    fun _ => .inr ⟨by decide, by decide⟩
  obtain ⟨post, hStream⟩ : ∃ post, stream [Source.powers] =
      [] ++ ⟨"powers_of_two", 0, .powerOfTwo 0⟩ :: post := by
    have hNext : Source.powers.pass.next? =
        some (.powerOfTwo 0, .walk ⟨Powers.value, 1, Powers.count⟩) := rfl
    rw [stream_cons, Source.visits, Pass.toList_of_next?_eq_some hNext, List.mapIdx_cons,
      List.cons_append]
    exact ⟨_, rfl⟩
  have hPre (f : Binary64 → Binary64) : ∀ v ∈ ([] : List (Visit .double)), v.Agrees op f :=
    fun v hv => absurd hv List.not_mem_nil
  obtain ⟨_, hRun⟩ := execute_run_differs host t op none hStream (hPre t) (by decide) [] []
  obtain ⟨_, hRun'⟩ := execute_run_differs host u op none hStream (hPre u) (by decide) [] []
  obtain ⟨-, hVerdict, -, hHost, -⟩ :=
    payloads_unobservable hNaN op [.powers] host host none none [] []
  exact ⟨hNaN, congrArg (·.1) hRun, congrArg (·.1) hRun', hVerdict, hHost⟩

end Audit

end DivisionAudit
