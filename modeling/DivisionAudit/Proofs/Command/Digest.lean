import DivisionAudit.Proofs.Audit.Workload
import DivisionAudit.Proofs.Text.Compact
import DivisionAudit.Proofs.Text.Lines

/-!
# What a line tells of a run

A run that passes is told of in one line: its operation, the number of its inputs and the time they
took; as JSON also the phases, each with its label, its inputs and its time. The labels follow from
the workload and none of their characters is escaped, so the line is known character by character
but for the times.

* `Workload.phases`: the labels and the numbers of inputs, from the workload.
* `Command.Digest`: what is told of a run; `Digest.jsonText` is the line as JSON.
* `Command.Tells`: a line that tells of a run.
* `Command.SumsUp.text_json`: the JSON text of a summary.
-/

namespace DivisionAudit

/-! ## Labels -/

namespace Source

theorem label_upward {count : UInt64} (h : count ≠ 0) :
    (sweep (.upward h)).label = "log_magnitude[1, 9223372036854775807]" := by
  have hLabel : (sweep (.upward h)).label = "log_magnitude" ++ bounds 1 Int64.maxValue := rfl
  have hBounds : bounds 1 Int64.maxValue = "[1, 9223372036854775807]" := by decide +kernel
  rw [hLabel, hBounds]
  decide +kernel

theorem label_downward {count : UInt64} (h : count ≠ 0) :
    (sweep (.downward h)).label = "log_magnitude[-9223372036854775808, -1]" := by
  have hLabel : (sweep (.downward h)).label = "log_magnitude" ++ bounds Int64.minValue (-1) := rfl
  have hBounds : bounds Int64.minValue (-1) = "[-9223372036854775808, -1]" := by decide +kernel
  rw [hLabel, hBounds]
  decide +kernel

theorem label_around {radius : Int64} (h : 0 ≤ radius) : (interval (.around h)).label =
    "dense_range[" ++ toString (-radius.toInt) ++ ", " ++ toString radius.toInt ++ "]" := by
  have hLabel : (interval (.around h)).label =
      "dense_range" ++ ("[" ++ toString (-radius).toInt ++ ", " ++ toString radius.toInt ++ "]") :=
    rfl
  rw [hLabel, Interval.toInt_neg_radius h]
  -- the same characters, put together in another order
  apply String.toList_inj.mp
  simp

end Source

/-! ## Phases -/

namespace Workload

/-- The labels of the phases of a domain, with the numbers of their inputs. -/
def phases (w : Workload) : Domain → List (String × ℕ)
  | .word => [("boundary", 393),
    ("log_magnitude[1, 9223372036854775807]", w.sweepCount.toNat),
    ("log_magnitude[-9223372036854775808, -1]", w.sweepCount.toNat),
    ("dense_range[" ++ toString (-w.radius.toInt) ++ ", " ++ toString w.radius.toInt ++ "]",
      2 * w.radius.toInt.toNat + 1),
    ("uniform_random(seed=" ++ toString w.uniformSeed.toNat ++ ")", w.uniformCount.toNat)]
  | .double => [("float_boundary", 13), ("powers_of_two", 4196),
    ("float_random(seed=" ++ toString w.decadesSeed.toNat ++ ")", w.decadesCount.toNat)]

/-- The number of inputs of all phases of a domain. -/
def total (w : Workload) : Domain → ℕ
  | .word => 393 + 2 * w.sweepCount.toNat + (2 * w.radius.toInt.toNat + 1) + w.uniformCount.toNat
  | .double => 13 + 4196 + w.decadesCount.toNat

variable {w : Workload}

theorem sum_phases (w : Workload) (d : Domain) : ((w.phases d).map Prod.snd).sum = w.total d := by
  cases d with
  | word =>
    simp only [phases, total, List.map_cons, List.map_nil, List.sum_cons, List.sum_nil]
    omega
  | double =>
    simp only [phases, total, List.map_cons, List.map_nil, List.sum_cons, List.sum_nil]
    omega

theorem exists_sources (h : w.Sound) (d : Domain) :
    ∃ sources, w.sources d = pure sources ∧
      sources.map (fun s => (s.label, s.pass.toList.length)) = w.phases d := by
  have hSize : (fun s : Source d => (s.label, s.pass.toList.length)) = fun s => (s.label, s.size) :=
    funext fun s => by rw [s.length_toList_pass]
  rw [hSize]
  cases d with
  | word =>
    refine ⟨_, sources_word h, ?_⟩
    simp only [List.map_cons, List.map_nil, Source.size, Interval.size_around h.radius_nonneg,
      Source.label_upward, Source.label_downward, Source.label_around h.radius_nonneg]
    rfl
  | double => exact ⟨_, sources_double h, rfl⟩

theorem plain_phases (w : Workload) (d : Domain) : ∀ p ∈ w.phases d, Json.Plain p.1 := by
  have hNumber (n : ℤ) {before after : String} (hBefore : Json.Plain before)
      (hAfter : Json.Plain after) : Json.Plain (before ++ toString n ++ after) :=
    (hBefore.append (Json.plain_toString_int n)).append hAfter
  cases d with
  | word =>
    simp only [phases, List.forall_mem_cons]
    refine ⟨by decide, by decide, by decide, ?_, ?_, nofun⟩
    · exact hNumber _ (hNumber _ (by decide) (by decide)) (by decide)
    · exact hNumber w.uniformSeed.toNat (by decide) (by decide)
  | double =>
    simp only [phases, List.forall_mem_cons]
    exact ⟨by decide, by decide, hNumber w.decadesSeed.toNat (by decide) (by decide), nofun⟩

end Workload

namespace Command

/-! ## What is told of a run -/

/-- The operation of a run, the labels of its phases with the numbers of their inputs, and the
number of all inputs. -/
structure Digest where
  operation : String
  phases : List (String × ℕ)
  total : ℕ
deriving DecidableEq

/-- A time in JSON, in milliseconds. -/
def timeText (time : Duration) : String := (Json.double time.milliseconds).text

/-- A phase in JSON, with the time it took. -/
def phaseText (phase : String × ℕ) (time : Duration) : String :=
  String.join ["\x7b\"label\":\"", phase.1, "\",\"inputs\":", toString phase.2,
    ",\"elapsed_ms\":", timeText time, "\x7d"]

namespace Digest

/-- A run in JSON, with the times that its phases took and its own. -/
def jsonText (run : Digest) (times : List Duration) (elapsed : Duration) : String :=
  String.join ["\x7b\"operation\":\"", run.operation, "\",\"phases\":[",
    ",".intercalate (List.zipWith phaseText run.phases times), "],\"total_inputs\":",
    toString run.total, ",\"elapsed_ms\":", timeText elapsed, "\x7d"]

/-- No name is escaped in JSON, and the phases have the inputs between them. -/
structure Sound (run : Digest) : Prop where
  operation : Json.Plain run.operation
  labels : ∀ p ∈ run.phases, Json.Plain p.1
  sum : (run.phases.map Prod.snd).sum = run.total

end Digest

/-- The digest of a run over a workload. -/
def digest (w : Workload) (d : Domain) (operation : String) : Digest :=
  ⟨operation, w.phases d, w.total d⟩

theorem sound_digest (w : Workload) (d : Domain) {operation : String}
    (h : Json.Plain operation) : (digest w d operation).Sound where
  operation := h
  labels := w.plain_phases d
  sum := w.sum_phases d

/-! ## Summaries -/

/-- A summary of the run of a digest. -/
structure SumsUp (run : Digest) (s : RunSummary) : Prop where
  operation : s.operation = run.operation
  phases : s.phases.map (fun p => (p.label, p.inputs)) = run.phases
  totalInputs : s.totalInputs = run.total

theorem text_json_phase {p : PhaseSummary} (h : Json.Plain p.label) :
    p.json.text = phaseText (p.label, p.inputs) p.elapsed := by
  have hLabel : Json.Plain "label" := by decide
  have hInputs : Json.Plain "inputs" := by decide
  have hElapsed : Json.Plain "elapsed_ms" := by decide
  simp only [PhaseSummary.json, Json.text_object, List.map_cons, List.map_nil,
    Json.text_string h, Json.text_string hLabel, Json.text_string hInputs,
    Json.text_string hElapsed, Json.text_ofNat]
  apply String.toList_inj.mp
  simp [phaseText, timeText]

theorem SumsUp.text_json {run : Digest} {s : RunSummary} (h : SumsUp run s) (hSound : run.Sound) :
    s.json.text = run.jsonText (s.phases.map PhaseSummary.elapsed) s.elapsed := by
  obtain ⟨operation, labels, total⟩ := run
  obtain ⟨operation, phases, total, elapsed⟩ := s
  obtain ⟨rfl, rfl, rfl⟩ := h
  obtain ⟨hOperation, hLabels, -⟩ := hSound
  have hItems : phases.map (fun p => p.json.text) =
      phases.map fun p => phaseText (p.label, p.inputs) p.elapsed :=
    List.map_congr_left fun p hp => text_json_phase (hLabels _ (List.mem_map_of_mem hp))
  have hKeys : Json.Plain "operation" ∧ Json.Plain "phases" ∧ Json.Plain "total_inputs" ∧
      Json.Plain "elapsed_ms" := by decide
  obtain ⟨hName, hPhases, hTotal, hElapsed⟩ := hKeys
  rw [RunSummary.json, Json.text_object, Digest.jsonText, List.zipWith_map, List.zipWith_self]
  simp only [List.map_cons, List.map_nil, Json.text_array, List.map_map, Function.comp_def, hItems,
    Json.text_string hOperation, Json.text_string hName, Json.text_string hPhases,
    Json.text_string hTotal, Json.text_string hElapsed, Json.text_ofNat]
  apply String.toList_inj.mp
  simp [timeText]

/-! ## Lines -/

/-- A line tells of a run whose inputs a word can count: in words, or as JSON, where the phases have
these inputs between them. -/
inductive Tells (run : Digest) : Bool → String → Prop
  | words (hFits : run.total < 2 ^ 64) (elapsed : Duration) : Tells run false
      (run.operation ++ ": " ++ toString run.total ++ " inputs passed in" ++ " " ++ elapsed.rounded)
  | json (hFits : run.total < 2 ^ 64) (hSum : (run.phases.map Prod.snd).sum = run.total)
      (times : List Duration) (hTimes : times.length = run.phases.length) (elapsed : Duration) :
      Tells run true (run.jsonText times elapsed)

theorem SumsUp.tells_words {run : Digest} {s : RunSummary} (h : SumsUp run s)
    (hFits : run.total < 2 ^ 64) : Tells run false s.line := by
  obtain ⟨operation, phases, totalInputs, elapsed⟩ := s
  obtain ⟨rfl, -, rfl⟩ := h
  exact .words hFits elapsed

theorem SumsUp.tells_json {run : Digest} {s : RunSummary} (h : SumsUp run s) (hSound : run.Sound)
    (hFits : run.total < 2 ^ 64) : Tells run true s.json.text := by
  have hTimes : (s.phases.map PhaseSummary.elapsed).length = run.phases.length := by
    rw [← h.phases, List.length_map, List.length_map]
  rw [h.text_json hSound]
  exact .json hFits hSound.sum _ hTimes _

theorem Digest.Sound.oneLine {run : Digest} (h : run.Sound) : OneLine run.operation.toList :=
  fun hMem => absurd (h.operation _ hMem) (by decide)

theorem SumsUp.oneLine {run : Digest} {s : RunSummary} (h : SumsUp run s) (hSound : run.Sound) :
    OneLine s.json.text.toList ∧ OneLine s.line.toList := by
  have hName : OneLine s.operation.toList := h.operation ▸ hSound.oneLine
  refine ⟨Json.oneLine_text _, ?_⟩
  simp only [RunSummary.line, RunSummary.headline, String.toList_append]
  exact .append (.append (.append (.append (.append hName (by decide))
    (oneLine_toString_nat s.totalInputs)) (by decide)) (by decide)) s.elapsed.oneLine_rounded

end Command

end DivisionAudit
