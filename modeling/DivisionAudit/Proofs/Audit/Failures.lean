import DivisionAudit.Proofs.Audit.Tally
import DivisionAudit.Proofs.Audit.Trace

/-!
# Failures and what is raised for them

Whatever fails raises one violation, and whatever succeeds raises none. Failures are passed on from
one function to the next, but only the function that finds the flaw raises anything: so there is one
rule for what is put together from parts, and each part is looked at by itself.

* `Accounted`: a result with the violations that are raised on the way to it, and who is told.
* `Attempt.Settled`: an attempt whose result is accounted for; kept by sequencing.
* `Audit.emits_verdict`, `Workload.emits_verdict`: runs, with the inputs they ask for.
* `failures_accounted`: every function that can fail.
-/

namespace DivisionAudit

variable {d : Domain} {σ α β : Type}

/-! ## Violations that are raised -/

namespace Fault

def kind : Fault → Kind
  | .mismatch _ => .mismatch
  | .invalidRange _ _ _ _ | .invalidConfiguration _ => .configuration

def severity : Fault → Severity
  | .mismatch _ => .critical
  | .invalidRange _ _ _ _ | .invalidConfiguration _ => .error

end Fault

/-- The violation that a signal raises, with the observer that it is raised towards. -/
def Signal.raises : Signal → List (Option Observer × Violation)
  | .raised sink v => [(sink, v)]
  | .phaseStarted _ _ _ | .phasePassed _ _ _ _ => []

theorem deliveries_eq_of_raises (signals : List Signal) :
    signals.flatMap Signal.deliveries =
      (signals.flatMap Signal.raises).flatMap fun r => deliver r.1 r.2 := by
  rw [List.flatMap_assoc]
  refine List.flatMap_congr fun s _ => ?_
  cases s with
  | phaseStarted operation phase expected => rfl
  | phasePassed operation phase inputs elapsed => rfl
  | raised sink v => exact (List.append_nil _).symm

/-- A result and the signals on the way to it. With a value nothing is raised and nobody is told.
With a fault one violation of its kind is raised, and the observer is told of it; or the log is,
where there is no observer. -/
inductive Accounted (observer : Option Observer) : Except Fault α → List Signal → Prop
  | value {a : α} {signals : List Signal} (raises : signals.flatMap Signal.raises = [])
      (deliveries : signals.flatMap Signal.deliveries = []) :
      Accounted observer (.ok a) signals
  | fault {fault : Fault} {signals : List Signal} {v : Violation}
      (raises : signals.flatMap Signal.raises = [(observer, v)])
      (deliveries : signals.flatMap Signal.deliveries = deliver observer v)
      (kind : v.kind = fault.kind) (severity : v.severity = fault.severity) :
      Accounted observer (.error fault) signals

variable {observer : Option Observer}

theorem accounted_value {signals : List Signal} (h : signals.flatMap Signal.raises = [])
    (a : α) : Accounted observer (.ok a) signals := by
  refine .value h ?_
  rw [deliveries_eq_of_raises, h, List.flatMap_nil]

theorem accounted_fault {signals : List Signal} {v : Violation} {fault : Fault}
    (h : signals.flatMap Signal.raises = [(observer, v)]) (kind : v.kind = fault.kind)
    (severity : v.severity = fault.severity) :
    Accounted observer (.error fault : Except Fault α) signals := by
  refine .fault h ?_ kind severity
  rw [deliveries_eq_of_raises, h, List.flatMap_singleton]

/-- A fault is accounted for in the same way wherever it is passed on to. -/
theorem Accounted.passOn {fault : Fault} {signals : List Signal}
    (h : Accounted observer (.error fault : Except Fault α) signals) :
    Accounted observer (.error fault : Except Fault β) signals := by
  cases h with
  | fault raises deliveries kind severity => exact .fault raises deliveries kind severity

theorem Accounted.map {result : Except Fault α} {signals : List Signal}
    (h : Accounted observer result signals) (f : α → β) :
    Accounted observer (result.map f) signals := by
  cases h with
  | value raises deliveries => exact .value raises deliveries
  | fault raises deliveries kind severity => exact .fault raises deliveries kind severity

/-- Signals before that raise nothing make no difference. -/
theorem Accounted.append {result : Except Fault α} {first signals : List Signal}
    (hFirst : first.flatMap Signal.raises = []) (h : Accounted observer result signals) :
    Accounted observer result (first ++ signals) := by
  cases h with
  | value raises _ =>
    exact accounted_value (by rw [List.flatMap_append, hFirst, raises, List.nil_append]) _
  | fault raises _ kind severity =>
    refine accounted_fault ?_ kind severity
    rw [List.flatMap_append, hFirst, raises, List.nil_append]

/-! ## Attempts -/

namespace Attempt

/-- The result of an attempt is accounted for by its signals. -/
def Settled (observer : Option Observer) (x : Attempt α) : Prop :=
  Accounted observer x.result x.signals

theorem settled_pure (a : α) : Settled observer (pure a) := accounted_value rfl a

theorem settled_refuse {fault : Fault} (message location : String)
    (h : fault.kind = .configuration) :
    Settled observer (refuse observer message location fault : Attempt α) := by
  refine accounted_fault (v := .plain .error .configuration message location) rfl h.symm ?_
  cases fault with
  | mismatch report => cases h
  | invalidRange start stop count reason => rfl
  | invalidConfiguration info => rfl

theorem bind_of_ok {x : Attempt α} {a : α} (h : x.result = .ok a) (f : α → Attempt β) :
    (x >>= f).result = (f a).result ∧ (x >>= f).signals = x.signals ++ (f a).signals := by
  obtain ⟨signals, result⟩ := x
  cases h
  exact ⟨rfl, rfl⟩

theorem bind_of_error {x : Attempt α} {fault : Fault} (h : x.result = .error fault)
    (f : α → Attempt β) : (x >>= f).result = .error fault ∧ (x >>= f).signals = x.signals := by
  obtain ⟨signals, result⟩ := x
  cases h
  exact ⟨rfl, List.append_nil signals⟩

/-- A fault of the first part is passed on, and nothing more is raised for it. -/
theorem settled_bind {x : Attempt α} {f : α → Attempt β} (hx : Settled observer x)
    (hf : ∀ a, Settled observer (f a)) : Settled observer (x >>= f) := by
  unfold Settled at hx hf ⊢
  cases hResult : x.result with
  | error fault =>
    obtain ⟨hFault, hSignals⟩ := bind_of_error hResult f
    rw [hResult] at hx
    rw [hFault, hSignals]
    exact hx.passOn
  | ok a =>
    obtain ⟨hRest, hSignals⟩ := bind_of_ok hResult f
    rw [hResult] at hx
    rw [hRest, hSignals]
    cases hx with
    | value raises _ => exact (hf a).append raises

theorem Settled.exists_violation {x : Attempt α} {fault : Fault} (h : x.Settled observer)
    (hResult : x.result = .error fault) :
    ∃ v, x.signals.flatMap Signal.deliveries = deliver observer v ∧ v.kind = fault.kind ∧
      v.severity = fault.severity := by
  unfold Settled at h
  rw [hResult] at h
  cases h with
  | @fault _ _ v _ deliveries kind severity => exact ⟨v, deliveries, kind, severity⟩

theorem settled_map {x : Attempt α} (hx : Settled observer x) (f : α → β) :
    Settled observer (f <$> x) := by
  rw [map_eq_pure_bind]
  exact settled_bind hx fun a => settled_pure (f a)

end Attempt

/-! ## Inputs -/

theorem Sweep.settled_make (start stop : Int64) (count : UInt64) :
    (make start stop count).Settled none := by
  have hReject : ∀ flaw, (reject start stop count flaw).Settled none := fun flaw =>
    Attempt.settled_refuse _ _ rfl
  unfold make
  split
  · exact hReject .zeroBound
  split
  · exact hReject .crossesZero
  split
  · exact hReject .noSamples
  · exact Attempt.settled_pure _

theorem Interval.settled_make (low high : Int64) : (make low high).Settled none := by
  unfold make
  split
  · exact Attempt.settled_pure _
  · exact Attempt.settled_refuse _ _ rfl

/-! ## Workloads and drafts -/

theorem Workload.settled_validate (w : Workload) : w.validate.Settled none := by
  unfold validate
  split
  · exact Attempt.settled_pure ()
  · exact Attempt.settled_refuse _ _ rfl

theorem Workload.settled_sources (w : Workload) (d : Domain) : (w.sources d).Settled none := by
  cases d with
  | word =>
    refine Attempt.settled_bind w.settled_validate fun _ => ?_
    refine Attempt.settled_bind (Sweep.settled_make _ _ _) fun up => ?_
    refine Attempt.settled_bind (Sweep.settled_make _ _ _) fun down => ?_
    refine Attempt.settled_bind (Interval.settled_make _ _) fun scan => ?_
    exact Attempt.settled_pure _
  | double => exact Attempt.settled_bind w.settled_validate fun _ => Attempt.settled_pure _

/-- Who is told that a draft cannot be built: its observer, but only of an empty list of sources. -/
def Draft.refusalObserver (b : Draft) (d : Domain) : Option Observer :=
  match b.sources? d with
  | some [] => b.observer
  | _ => none

theorem Draft.settled_build (b : Draft) (d : Domain) :
    (b.build d).Settled (b.refusalObserver d) := by
  unfold build refusalObserver
  match b.sources? d with
  | some [] => exact Attempt.settled_refuse _ _ rfl
  | some (s :: rest) => exact Attempt.settled_pure _
  | none =>
    exact Attempt.settled_bind (b.workload.settled_sources d) fun _ => Attempt.settled_pure _

theorem Draft.observer_of_build {b : Draft} {a : Audit d} (h : (b.build d).result = .ok a) :
    a.observer = b.observer := by
  unfold build at h
  split at h
  · cases h
  · cases h
    rfl
  · cases hSources : (b.workload.sources d).result with
    | error fault =>
      rw [(Attempt.bind_of_error hSources _).1] at h
      cases h
    | ok sources =>
      rw [(Attempt.bind_of_ok hSources _).1] at h
      cases h
      rfl

/-! ## Runs -/

/-- What is raised by an action with an account is what is raised without it. -/
theorem Forgets.emits {γ : Type} {x : StateT γ (Signalling σ) α} {y : Signalling σ α}
    (h : Forgets x y) {P : α → List Signal → Prop} (hy : Emits y P) (account : γ) :
    Emits (x.run account) fun out added => P out.1 added := by
  intro before st
  have hOut := hy before st
  rw [← h account] at hOut
  exact hOut

namespace Audit

theorem raises_phaseSignals (op : Operation d) (phases : List (Source d × PhaseSummary)) :
    (phases.flatMap (phaseSignals op)).flatMap Signal.raises = [] := by
  rw [List.flatMap_assoc]
  exact List.flatMap_eq_nil_iff.mpr fun _ _ => rfl

theorem Told.accounted {op : Operation d} {sources : List (Source d)}
    {result : Except Fault (List PhaseSummary)} {signals : List Signal}
    (h : Told op observer sources result signals) : Accounted observer result signals := by
  cases result with
  | ok summaries =>
    obtain ⟨rfl, -⟩ := h.of_ok
    exact accounted_value (raises_phaseSignals op (sources.zip summaries)) summaries
  | error fault =>
    obtain ⟨r, before, s, after, passed, rfl, -, -, rfl, -⟩ := h.of_error
    exact (accounted_fault (v := r.violation) rfl rfl rfl).append
      (raises_phaseSignals op (before.zip passed))

theorem Told.kind_eq_mismatch {op : Operation d} {sources : List (Source d)} {fault : Fault}
    {signals : List Signal} (h : Told op observer sources (.error fault) signals) :
    fault.kind = .mismatch := by
  obtain ⟨r, -, -, -, -, rfl, -⟩ := h.of_error
  rfl

variable (clock : StateM σ Duration) (target : d.Value → StateM σ d.Value) (op : Operation d)

/-- A bench that keeps the signals and the inputs that its subject is asked for. -/
def listing : Bench (StateT (List d.Value) (Signalling σ)) d :=
  Bench.tally (fun calls x => calls ++ [x]) (watched clock target)

theorem emits_perform (x : Attempt α) : Emits (x.perform (watched clock target).toHost)
    fun result added => result = x.result ∧ added = x.signals := by
  have hSignals : ∀ signals : List Signal, Emits (signals.forM (watched clock target).signal)
      fun _ added => added = signals := by
    intro signals
    induction signals with
    | nil => exact emits_pure rfl
    | cons s rest ih =>
      refine (emits_signal clock target s).next fun _ => ih.mono fun _ added h => ?_
      rw [h, List.singleton_append]
  exact (hSignals x.signals).next fun _ => emits_pure ⟨rfl, List.append_nil x.signals⟩

/-- Every fault of an audit is a discrepancy, and its violation goes to the audit's observer. -/
theorem emits_verdict (a : Audit d) (calls : List d.Value) :
    Emits ((a.run (listing clock target) op).run calls) fun out added =>
      Accounted a.observer out.1 added ∧
        ∀ fault, out.1 = .error fault → fault.kind = .mismatch := by
  have hRun : Emits (a.run (watched clock target) op) fun verdict added =>
      Accounted a.observer verdict added ∧
        ∀ fault, verdict = .error fault → fault.kind = .mismatch := by
    refine (emits_run a op clock target).mono ?_
    -- the verdict has the fault of the phases, if they have one
    rintro verdict added ⟨result, elapsed, rfl, hTold⟩
    cases result with
    | ok summaries => exact ⟨hTold.accounted.map _, fun fault hError => by cases hError⟩
    | error fault =>
      refine ⟨hTold.accounted.map _, ?_⟩
      rintro fault ⟨⟩
      exact hTold.kind_eq_mismatch
  exact (a.forgets_run _ _ op).emits hRun calls

end Audit

/-- A workload that is refused is refused before its subject is asked for anything. -/
theorem Workload.emits_verdict (w : Workload) (clock : StateM σ Duration)
    (target : d.Value → StateM σ d.Value) (op : Operation d) (calls : List d.Value) :
    Emits ((w.run (Audit.listing clock target) op).run calls) fun out added =>
      Accounted none out.1 added ∧
        ∀ fault, out.1 = .error fault → fault.kind = .mismatch ∨ out.2 = calls := by
  have hSettled := w.settled_sources d
  unfold Workload.run Audit.listing
  -- the signals of the check are sent without touching the list of calls
  rw [perform_tally, StateT.run_bind, StateT.run_lift, bind_assoc]
  refine emits_bind (Audit.emits_perform clock target (w.sources d)) ?_
  rintro _ _ ⟨rfl, rfl⟩
  rw [pure_bind]
  unfold Attempt.Settled at hSettled
  cases hResult : (w.sources d).result with
  | error fault =>
    rw [hResult] at hSettled
    refine emits_pure ⟨?_, fun _ _ => .inr rfl⟩
    rw [List.append_nil]
    exact hSettled.passOn
  | ok sources =>
    rw [hResult] at hSettled
    cases hSettled with
    | value raises _ =>
      refine (Audit.emits_verdict clock target op (Audit.ofSources sources) calls).mono ?_
      rintro out added ⟨hAccounted, hFault⟩
      exact ⟨hAccounted.append raises, fun fault h => .inl (hFault fault h)⟩

/-! ## Every function that can fail -/

/-- Whatever can fail: the making of sweeps, intervals and the sources over them, the check of a
workload and its sources, the building of an audit, the run of an audit and of a workload. With a
value nothing is raised; with a fault one violation of its kind is. It goes to the observer of an
audit that found a discrepancy, or of a draft with an empty list of sources, and to the log in all
other cases. Only a discrepancy is found after the subject was asked. -/
theorem failures_accounted (d : Domain) :
    (∀ start stop count, (Sweep.make start stop count).Settled none ∧
      (Source.sweep <$> Sweep.make start stop count).Settled none) ∧
    (∀ low high, (Interval.make low high).Settled none ∧
      (Source.interval <$> Interval.make low high).Settled none) ∧
    (∀ radius, (Interval.centered radius).Settled none) ∧
    (∀ w : Workload, w.validate.Settled none ∧ (w.sources d).Settled none) ∧
    (∀ b : Draft,
      (b.build d).Settled (b.refusalObserver d) ∧
      ∀ a, (b.build d).result = .ok a → a.observer = b.observer) ∧
    ∀ (σ : Type) (clock : StateM σ Duration) (target : d.Value → StateM σ d.Value)
      (op : Operation d) (calls : List d.Value),
      (∀ a : Audit d, Emits ((a.run (Audit.listing clock target) op).run calls)
        fun out signals => Accounted a.observer out.1 signals ∧
          ∀ fault, out.1 = .error fault → fault.kind = .mismatch) ∧
      ∀ w : Workload, Emits ((w.run (Audit.listing clock target) op).run calls)
        fun out signals => Accounted none out.1 signals ∧
          ∀ fault, out.1 = .error fault → fault.kind = .mismatch ∨ out.2 = calls :=
  ⟨fun start stop count =>
      ⟨Sweep.settled_make start stop count, Attempt.settled_map (Sweep.settled_make _ _ _) _⟩,
    fun low high => ⟨Interval.settled_make low high,
      Attempt.settled_map (Interval.settled_make low high) _⟩,
    fun radius => Interval.settled_make _ radius,
    fun w => ⟨w.settled_validate, w.settled_sources d⟩,
    fun b => ⟨b.settled_build d, fun _ h => Draft.observer_of_build h⟩,
    fun _ clock target op calls => ⟨fun a => Audit.emits_verdict clock target op a calls,
      fun w => w.emits_verdict clock target op calls⟩⟩

/-- A draft with an empty list of sources tells its observer; a workload without sweeps tells the
log. -/
theorem failures_accounted_empty_list :
    let b : Draft := { words := some [], observer := some (.recorder 3) }
    let w : Workload := { Workload.smoke with sweepCount := 0 }
    (∃ v, (b.build .word).signals.flatMap Signal.deliveries = [.recorded 3 v] ∧
      v.kind = .configuration ∧ v.severity = .error) ∧
    ∃ v, w.validate.signals.flatMap Signal.deliveries = [.logged v] ∧
      v.kind = .configuration ∧ v.severity = .error := by
  intro b w
  obtain ⟨-, -, -, hWorkload, hDraft, -⟩ := failures_accounted .word
  have hList : (b.build .word).result =
      .error (.invalidConfiguration (Draft.emptyList .word)) := rfl
  have hCount : w.validate.result =
      .error (.invalidConfiguration Workload.Flaw.noSweep.info) := rfl
  exact ⟨(hDraft b).1.exists_violation hList, (hWorkload w).1.exists_violation hCount⟩

end DivisionAudit
