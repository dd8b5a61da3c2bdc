import DivisionAudit.Audit.Draft
import DivisionAudit.Proofs.Audit.Run
import DivisionAudit.Proofs.Generator.Seeds
import DivisionAudit.Proofs.Input.Count
import DivisionAudit.Proofs.Input.Edges
import DivisionAudit.Proofs.Input.Interval

/-!
# What a passed workload vouches for

A workload without a flaw gives five sources over words: none of them is refused, for what a source
asks of its bounds follows from the check of the workload. A run over them passes exactly when the
function is right at all their inputs. Which words these are for the two sweeps depends on how
logarithms are rounded, but the other three are known word by word.

* `Workload.sources_word`, `Workload.sources_double`: the sources of both domains.
* `Workload.Covers`: the words that a passed run vouches for, whatever the sweeps are.
* `Workload.verdict_covers`: the verdict, the words it vouches for, and the summary.
-/

namespace DivisionAudit

namespace Sweep

variable {count : UInt64} (h : count ≠ 0)
include h

/-- All positive words. -/
def upward : Sweep := ⟨1, Int64.maxValue, count, by decide, by decide, by decide, h⟩

/-- All negative words. -/
def downward : Sweep := ⟨Int64.minValue, -1, count, by decide, by decide, by decide, h⟩

theorem positive_eq_pure : positive count = pure (upward h) := by
  rw [positive, make, dif_neg (by decide), dif_neg (by decide), dif_neg h]
  rfl

theorem negative_eq_pure : negative count = pure (downward h) := by
  rw [negative, make, dif_neg (by decide), dif_neg (by decide), dif_neg h]
  rfl

end Sweep

namespace Workload

open Audit (asking execute)

/-! ## Sources -/

/-- What the check of a workload asks for. -/
structure Sound (w : Workload) : Prop where
  sweepCount_ne_zero : w.sweepCount ≠ 0
  uniformCount_ne_zero : w.uniformCount ≠ 0
  decadesCount_ne_zero : w.decadesCount ≠ 0
  radius_nonneg : 0 ≤ w.radius

variable {w : Workload}

theorem flaw?_eq_none_iff : w.flaw? = none ↔ w.Sound := by
  unfold flaw?
  constructor
  · intro h
    by_cases hSweep : w.sweepCount = 0
    · rw [if_pos hSweep] at h
      cases h
    rw [if_neg hSweep] at h
    by_cases hUniform : w.uniformCount = 0
    · rw [if_pos hUniform] at h
      cases h
    rw [if_neg hUniform] at h
    by_cases hDecades : w.decadesCount = 0
    · rw [if_pos hDecades] at h
      cases h
    rw [if_neg hDecades] at h
    by_cases hRadius : w.radius < 0
    · rw [if_pos hRadius] at h
      cases h
    exact ⟨hSweep, hUniform, hDecades, Int64.not_lt.mp hRadius⟩
  · rintro ⟨hSweep, hUniform, hDecades, hRadius⟩
    rw [if_neg hSweep, if_neg hUniform, if_neg hDecades, if_neg (Int64.not_lt.mpr hRadius)]

theorem validate_eq_pure (h : w.Sound) : w.validate = pure () := by
  rw [validate, flaw?_eq_none_iff.mpr h]

theorem result_validate_eq_ok_iff : w.validate.result = .ok () ↔ w.Sound := by
  constructor
  · intro h
    apply flaw?_eq_none_iff.mp
    cases hFlaw : w.flaw? with
    | none => rfl
    | some flaw =>
      rw [validate, hFlaw] at h
      cases h
  · intro h
    rw [validate_eq_pure h]
    rfl

/-- The numbers of inputs of the phases over words. -/
def counts (w : Workload) : List ℕ :=
  [393, w.sweepCount.toNat, w.sweepCount.toNat, 2 * w.radius.toInt.toNat + 1, w.uniformCount.toNat]

theorem sources_word (h : w.Sound) : w.sources .word = pure [.edges,
    .sweep (.upward h.sweepCount_ne_zero), .sweep (.downward h.sweepCount_ne_zero),
    .interval (.around h.radius_nonneg), .uniform w.uniformSeed w.uniformCount] := by
  rw [sources, validate_eq_pure h, Sweep.positive_eq_pure h.sweepCount_ne_zero,
    Sweep.negative_eq_pure h.sweepCount_ne_zero, Interval.make_around h.radius_nonneg]
  rfl

theorem sources_double (h : w.Sound) :
    w.sources .double = pure [.specials, .powers, .decades w.decadesSeed w.decadesCount] := by
  rw [sources, validate_eq_pure h]
  rfl

/-! ## Words that are covered -/

/-- The words that a passed run over a workload vouches for: those near zero, the edges, and the
outputs that the seed starts, with the top bit flipped. -/
inductive Covers (w : Workload) : Int64 → Prop
  | near {n : Int64} (h : n.toInt.natAbs ≤ w.radius.toInt) : w.Covers n
  | edge {n : Int64} (h : Edges.IsEdge n) : w.Covers n
  | draw {k : ℕ} (h : k < w.uniformCount.toNat) :
    w.Covers (Twister.tempered (Twister.word w.uniformSeed (k + 312)) ^^^
      0x8000000000000000).toInt64

theorem Covers.mem {n : Int64} (h : w.Covers n) (hRadius : 0 ≤ w.radius)
    {sources : List (Source .word)} (hEdges : .edges ∈ sources)
    (hScan : .interval (.around hRadius) ∈ sources)
    (hUniform : .uniform w.uniformSeed w.uniformCount ∈ sources) :
    ∃ s ∈ sources, n ∈ s.pass.toList := by
  cases h with
  | near hNear =>
    refine ⟨_, hScan, Source.mem_toList_interval.mpr ?_⟩
    rw [Int64.le_iff_toInt_le, Int64.le_iff_toInt_le]
    dsimp only [Interval.around]
    rw [Interval.toInt_neg_radius hRadius]
    omega
  | edge hEdge => exact ⟨_, hEdges, Edges.mem_toList_edges hEdge⟩
  | @draw k hDraw =>
    refine ⟨_, hUniform, ?_⟩
    rw [Source.pass, Twister.toList_uniformPass]
    exact List.mem_map_of_mem (List.mem_range.mpr hDraw)

/-- The sources of a workload, as far as a run depends on them. -/
theorem exists_covering_sources (h : w.Sound) :
    ∃ sources, w.sources .word = pure sources ∧
      sources.map (fun s => s.pass.toList.length) = w.counts ∧
      ∀ n, w.Covers n → ∃ s ∈ sources, n ∈ s.pass.toList := by
  refine ⟨_, sources_word h, ?_, ?_⟩
  · have hLength : (fun s : Source .word => s.pass.toList.length) = Source.size :=
      funext Source.length_toList_pass
    simp only [hLength, List.map_cons, List.map_nil, Source.size,
      Interval.size_around h.radius_nonneg]
    rfl
  · intro n hCovers
    exact hCovers.mem h.radius_nonneg (by simp) (by simp) (by simp)

/-! ## Runs -/

/-- Sources that are not refused are run, and nothing is signalled before. -/
theorem execute_run {d : Domain} {sources : List (Source d)} (h : w.sources d = pure sources)
    {σ : Type} (host : Host (StateM σ)) (f : d.Value → d.Value) (op : Operation d)
    (calls : List d.Value) (st : σ) : execute (w.run (asking host f) op) calls st =
      execute ((Audit.ofSources sources).run (asking host f) op) calls st := by
  rw [run, h]
  rfl

/-- A usable workload, whose inputs a counter can count: its run passes exactly when the function is
right at all inputs of the sources. If it passes, the function is right at the covered words, and
the summary counts the inputs of the five phases. -/
theorem verdict_covers (hValid : w.validate.result = .ok ()) (hFits : w.counts.sum < 2 ^ 64)
    (op : Operation .word) (f : Int64 → Int64) {σ : Type} (host : Host (StateM σ)) (st : σ) :
    let verdict := (execute (w.run (asking host f) op) [] st).1
    ∃ sources, w.sources .word = pure sources ∧
      ((∃ summary, verdict = .ok summary) ↔
        ∀ s ∈ sources, ∀ n ∈ s.pass.toList, f n = op.reference n) ∧
      ∀ summary, verdict = .ok summary →
        (∀ n, w.Covers n → f n = op.reference n) ∧
        summary.phases.map PhaseSummary.inputs = w.counts ∧
        summary.totalInputs = w.counts.sum ∧ summary.totalInputs < 2 ^ 64 := by
  intro verdict
  obtain ⟨sources, hSources, hCounts, hCovering⟩ :=
    exists_covering_sources (result_validate_eq_ok_iff.mp hValid)
  have hVerdict : verdict = (execute (Audit.run ⟨sources, none⟩ (asking host f) op) [] st).1 :=
    congrArg Prod.fst (execute_run hSources host f op [] st)
  have hOkIff : (∃ summary, verdict = .ok summary) ↔
      ∀ s ∈ sources, ∀ n ∈ s.pass.toList, f n = op.reference n := by
    rw [hVerdict, Audit.exists_ok_iff, Audit.forall_agrees_iff]
    simp only [Operation.accepts_word_iff]
  refine ⟨sources, hSources, hOkIff, ?_⟩
  intro summary hOk
  have hRight := hOkIff.mp ⟨summary, hOk⟩
  have hAgrees : ∀ v ∈ Audit.stream sources, v.Agrees op f := by
    rw [Audit.forall_agrees_iff]
    intro s hs n hn
    exact Operation.accepts_word_iff.mpr (hRight s hs n hn)
  obtain ⟨summary', st', hRun, -, hPhases, hTotal⟩ :=
    Audit.execute_run_clean host f op none hAgrees [] st
  have hSame : summary' = summary := by
    rw [hVerdict, hRun] at hOk
    exact Except.ok.inj hOk
  subst hSame
  have hInputs := congrArg (List.map Prod.snd) hPhases
  rw [List.map_map, List.map_map] at hInputs
  rw [hCounts] at hTotal
  refine ⟨?_, hInputs.trans hCounts, hTotal, hTotal ▸ hFits⟩
  intro n hCovers
  obtain ⟨s, hs, hn⟩ := hCovering n hCovers
  exact hRight s hs n hn

/-- The reference passes; a function that is wrong at one neighbour of a power does not. -/
theorem verdict_covers_beside_power :
    let w : Workload := ⟨2, 3, 7, 5, 1, 1⟩
    let host : Host (StateM (List Signal)) := (Bench.recording (d := .word) pure).toHost
    let f : Int64 → Int64 := fun n => if n = 2305843009213693953 then 0 else Expression.primary n
    w.validate.result = .ok () ∧ w.counts.sum < 2 ^ 64 ∧
    (∃ summary, (execute (w.run (asking host Expression.primary) .primary) [] []).1 = .ok summary ∧
      summary.phases.map PhaseSummary.inputs = [393, 2, 2, 7, 5] ∧ summary.totalInputs = 409) ∧
    ¬ ∃ summary, (execute (w.run (asking host f) .primary) [] []).1 = .ok summary := by
  intro w host f
  have hValid : w.validate.result = .ok () := rfl
  have hCounts : w.counts = [393, 2, 2, 7, 5] := rfl
  have hFits : w.counts.sum < 2 ^ 64 := by decide
  refine ⟨hValid, hFits, ?_, ?_⟩
  · obtain ⟨sources, -, hOkIff, hSummary⟩ :=
      verdict_covers hValid hFits .primary Expression.primary host []
    obtain ⟨summary, hOk⟩ := hOkIff.mpr fun s hs n hn => rfl
    obtain ⟨-, hInputs, hTotal, -⟩ := hSummary summary hOk
    exact ⟨summary, hOk, hInputs.trans hCounts, hTotal.trans (by rw [hCounts]; rfl)⟩
  · rintro ⟨summary, hOk⟩
    obtain ⟨sources, -, -, hSummary⟩ := verdict_covers hValid hFits .primary f host []
    obtain ⟨hRight, -⟩ := hSummary summary hOk
    have hPower : Edges.IsEdge (Int64.ofInt (2 ^ 61 + 1)) :=
      .power (by decide) (.inr (.inr rfl))
    have hWrong : f (Int64.ofInt (2 ^ 61 + 1)) ≠
        Operation.primary.reference (Int64.ofInt (2 ^ 61 + 1)) := by decide +kernel
    exact hWrong (hRight _ (.edge hPower))

end Workload

end DivisionAudit
