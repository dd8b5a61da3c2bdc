import DivisionAudit.Proofs.Audit.Run
import DivisionAudit.Proofs.Input.Interval

/-!
# Runs over one interval

A run over an interval goes up from the low end. So it succeeds exactly when the function is right
at every word of the interval, and otherwise its report is of the least word where it is not, at the
distance of that word from the low end.

* `Audit.exists_ok_interval_iff`, `Audit.exists_least_of_interval`: the two verdicts.
-/

namespace DivisionAudit.Audit

variable {σ : Type} (host : Host (StateM σ)) (f : Int64 → Int64) (op : Operation .word)
  (observer : Option Observer) (i : Interval) (st : σ)

theorem forall_agrees_interval_iff : (∀ v ∈ stream [.interval i], v.Agrees op f) ↔
    ∀ n, i.low ≤ n → n ≤ i.high → op.accepts f n = true := by
  rw [forall_agrees_iff, List.forall_mem_singleton]
  constructor
  · intro h n hLow hHigh
    exact h n (Source.mem_toList_interval.mpr ⟨hLow, hHigh⟩)
  · intro h n hn
    obtain ⟨hLow, hHigh⟩ := Source.mem_toList_interval.mp hn
    exact h n hLow hHigh

theorem exists_ok_interval_iff :
    (∃ summary, (execute (run ⟨[.interval i], observer⟩ (asking host f) op) [] st).1 =
      .ok summary) ↔ ∀ n, i.low ≤ n → n ≤ i.high → op.accepts f n = true := by
  rw [exists_ok_iff, forall_agrees_interval_iff]

theorem exists_least_of_interval
    (h : ¬ ∀ n, i.low ≤ n → n ≤ i.high → op.accepts f n = true) :
    ∃ a, i.low ≤ a ∧ a ≤ i.high ∧ op.accepts f a = false ∧
      (∀ n, i.low ≤ n → n < a → op.accepts f n = true) ∧
      (execute (run ⟨[.interval i], observer⟩ (asking host f) op) [] st).1 =
        .error (.mismatch ⟨op.name, (Source.interval i).label, i.position a, .word a,
          .word (op.reference a), .word (f a)⟩) := by
  rw [← forall_agrees_interval_iff] at h
  obtain ⟨pre, v, post, hStream, hPre, hv⟩ := exists_first_disagreement h
  obtain ⟨st', hRun⟩ := execute_run_differs host f op observer hStream hPre hv [] st
  have hVisits : (Source.interval i).visits = pre ++ v :: post := by
    rw [← hStream, stream_cons]
    exact (List.append_nil _).symm
  obtain ⟨hLow, hHigh, hPosition, hBelow⟩ := Source.of_visits_interval_eq_append hVisits
  refine ⟨v.input, hLow, hHigh, ?_, ?_, ?_⟩
  · rw [Visit.agrees_iff_accepts] at hv
    exact Bool.eq_false_iff.mpr hv
  · intro n hn hLt
    obtain ⟨u, hu, rfl⟩ := hBelow n hn hLt
    exact Visit.agrees_iff_accepts.mp (hPre u hu)
  · rw [hRun, ← hPosition, Source.eq_of_visits_eq_append hVisits]
    rfl

end DivisionAudit.Audit
