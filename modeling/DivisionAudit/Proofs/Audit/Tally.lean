import DivisionAudit.Audit.Draft
import DivisionAudit.Proofs.Audit.Run

/-!
# Runs with and without an account

A bench may keep account of the inputs that its subject is asked for. The account has no part in
what is done: forgetting it leaves the run that there is without it, in whatever monad the bench
acts.

* `Forgets`: an action with an account, and the action that is left when the account is forgotten.
* `Audit.forgets_run`, `Workload.forgets_run`: runs on a bench with an account and without it.
* `Workload.run_eq_execute`: the verdict on a function where nobody lists the inputs.
-/

namespace DivisionAudit

variable {d : Domain} {m : Type → Type} [Monad m] [LawfulMonad m] {γ α β : Type}

/-! ## Accounts -/

/-- Whatever the account is, forgetting it leaves the action `y`. -/
def Forgets (x : StateT γ m α) (y : m α) : Prop := ∀ account, Prod.fst <$> x.run account = y

theorem forgets_pure (a : α) : Forgets (pure a : StateT γ m α) (pure a) := by
  intro account
  rw [StateT.run_pure, map_pure]

theorem forgets_bind {x : StateT γ m α} {y : m α} {f : α → StateT γ m β} {g : α → m β}
    (hx : Forgets x y) (hf : ∀ a, Forgets (f a) (g a)) : Forgets (x >>= f) (y >>= g) := by
  intro account
  rw [StateT.run_bind, map_bind, ← hx account, bind_map_left]
  exact bind_congr fun p => hf p.1 p.2

theorem forgets_lift (y : m α) : Forgets (StateT.lift y : StateT γ m α) y := by
  intro account
  rw [StateT.run_lift, map_bind, bind_congr fun a => map_pure Prod.fst (a, account), bind_pure]

theorem lift_pure (a : α) : (StateT.lift (pure a) : StateT γ m α) = pure a := by
  ext account
  rw [StateT.run_lift, pure_bind, StateT.run_pure]

theorem lift_bind (x : m α) (f : α → m β) :
    (StateT.lift (x >>= f) : StateT γ m β) = StateT.lift x >>= fun a => StateT.lift (f a) := by
  ext account
  simp only [StateT.run_lift, StateT.run_bind, bind_assoc, pure_bind]

theorem forM_lift (f : Signal → m Unit) (signals : List Signal) :
    signals.forM (fun s => (StateT.lift (f s) : StateT γ m Unit)) =
      StateT.lift (signals.forM f) := by
  induction signals with
  | nil => exact (lift_pure ()).symm
  | cons s rest ih =>
    refine Eq.trans ?_ (lift_bind (f s) fun _ => rest.forM f).symm
    rw [← ih]
    rfl

/-! ## Runs -/

variable (account : γ → d.Value → γ) (b : Bench m d) (op : Operation d)

theorem forgets_signal (s : Signal) : Forgets ((b.tally account).signal s) (b.signal s) :=
  forgets_lift _

theorem forgets_clock : Forgets (b.tally account).clock b.clock := forgets_lift _

theorem forgets_subject (x : d.Value) :
    Forgets ((b.tally account).subject x) (b.subject x) := by
  intro entries
  have h := forgets_lift (γ := γ) (b.subject x) (account entries x)
  rw [← h]
  simp [Bench.tally]

namespace Audit

theorem forgets_scan (p : Pass d) (i : ℕ) :
    Forgets (scan (b.tally account) op p i) (scan b op p i) := by
  generalize hp : p.toList = xs
  induction xs generalizing p i with
  | nil =>
    have hNone := Pass.next?_eq_none_of_toList hp
    rw [scan_of_next?_eq_none _ _ hNone, scan_of_next?_eq_none _ _ hNone]
    exact forgets_pure _
  | cons x xs ih =>
    obtain ⟨p', hNext, hRest⟩ := Pass.next?_eq_some_of_toList hp
    rw [scan_of_next?_eq_some _ _ hNext, scan_of_next?_eq_some _ _ hNext]
    refine forgets_bind (forgets_subject account b x) fun actual => ?_
    split
    · exact ih p' (i + 1) hRest
    · exact forgets_pure _

theorem forgets_phases (observer : Option Observer) (sources : List (Source d)) :
    Forgets (phases (b.tally account) op observer sources) (phases b op observer sources) := by
  induction sources with
  | nil => exact forgets_pure _
  | cons s rest ih =>
    refine forgets_bind (forgets_clock account b) fun _ => ?_
    refine forgets_bind (forgets_signal account b _) fun _ => ?_
    refine forgets_bind (forgets_scan account b op s.pass 0) fun ending => ?_
    cases ending with
    | differs index outcome =>
      exact forgets_bind (forgets_signal account b _) fun _ => forgets_pure _
    | clean inputs =>
      refine forgets_bind (forgets_clock account b) fun _ => ?_
      refine forgets_bind (forgets_signal account b _) fun _ => ?_
      refine forgets_bind ih fun result => ?_
      cases result with
      | error fault => exact forgets_pure _
      | ok summaries => exact forgets_pure _

theorem forgets_run (a : Audit d) : Forgets (a.run (b.tally account) op) (a.run b op) := by
  refine forgets_bind (forgets_clock account b) fun _ => ?_
  refine forgets_bind (forgets_phases account b op a.observer a.sources) fun result => ?_
  cases result with
  | error fault => exact forgets_pure _
  | ok summaries => exact forgets_bind (forgets_clock account b) fun _ => forgets_pure _

end Audit

/-- Sending the signals of an attempt leaves the account alone. -/
theorem perform_tally (x : Attempt α) :
    x.perform (b.tally account).toHost = StateT.lift (x.perform b.toHost) := by
  have hSignals : x.signals.forM (b.tally account).signal =
      StateT.lift (x.signals.forM b.signal) := forM_lift b.signal x.signals
  unfold Attempt.perform
  rw [lift_bind, hSignals, lift_pure]

theorem Workload.forgets_run (w : Workload) :
    Forgets (w.run (b.tally account) op) (w.run b op) := by
  unfold Workload.run
  rw [perform_tally]
  refine forgets_bind (forgets_lift _) fun result => ?_
  cases result with
  | error fault => exact forgets_pure _
  | ok sources => exact Audit.forgets_run account b op (Audit.ofSources sources)

/-- The verdict on a function where nobody lists the inputs. -/
theorem Workload.run_eq_execute (w : Workload) {σ : Type} (host : Host (StateM σ))
    (f : d.Value → d.Value) (st : σ) :
    ((w.run { host with subject := fun x => pure (f x) } op).run st).1 =
      (Audit.execute (w.run (Audit.asking host f) op) [] st).1 := by
  -- the list of calls is the account that is forgotten
  rw [← w.forgets_run (fun calls x => calls ++ [x]) _ op []]
  rfl

end DivisionAudit
