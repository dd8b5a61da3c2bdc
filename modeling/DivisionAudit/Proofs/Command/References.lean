import DivisionAudit.Command.Execute
import DivisionAudit.Proofs.Audit.Tally
import DivisionAudit.Proofs.Command.Digest

/-!
# The command on the references

Where no functions are linked, the command audits the references. Each of them agrees with itself at
every input, a NaN included, so no run can fail: the workload alone decides how the command ends,
and it is checked as a whole before any operation is run.

* `Command.yields_runOn_reference`: the run of one operation, and from it those of all that are
  chosen.
* `Command.Choice.runs`: what is told of the operations of a choice.
* `Command.ending_of_references`: the exit code and the lines of the output, from the options.
-/

namespace DivisionAudit

/-! ## Actions with a state -/

section Yields

variable {σ α β : Type}

/-- From any state the action comes to a value with the property. -/
def Yields (x : StateM σ α) (P : α → Prop) : Prop := ∀ st, P (x.run st).1

theorem yields_pure {P : α → Prop} {a : α} (h : P a) : Yields (pure a : StateM σ α) P := fun _ => h

theorem yields_bind {x : StateM σ α} {f : α → StateM σ β} {Q : α → Prop} {P : β → Prop}
    (hx : Yields x Q) (hf : ∀ a, Q a → Yields (f a) P) : Yields (x >>= f) P :=
  fun st => hf _ (hx st) _

end Yields

namespace Command

variable {σ : Type}

/-! ## Runs that pass -/

variable (host : Host (StateM σ)) {w : Workload}

/-- A reference agrees with itself, so its run over a usable workload passes. -/
theorem yields_runOn_reference (h : w.Sound) {d : Domain} (op : Operation d) :
    Yields (runOn host w op op.reference)
      fun result => ∃ s, result = .ok s ∧ SumsUp (digest w d op.name) s := by
  intro st
  obtain ⟨sources, hSources, hLabels⟩ := Workload.exists_sources h d
  have hAgrees : ∀ v ∈ Audit.stream sources, v.Agrees op op.reference :=
    fun v _ => d.agree_refl (op.reference v.input)
  obtain ⟨s, st', hRun, hName, hPhases, hSum⟩ :=
    Audit.execute_run_clean host op.reference op none hAgrees [] st
  have hTotal : (sources.map fun s => s.pass.toList.length).sum = w.total d := by
    rw [← w.sum_phases d, ← hLabels, List.map_map]
    rfl
  refine ⟨s, ?_, hName, hPhases.trans hLabels, hSum.trans hTotal⟩
  unfold runOn
  rw [w.run_eq_execute op host op.reference st, Workload.execute_run hSources]
  exact congrArg Prod.fst hRun

theorem yields_runWords (h : w.Sound) (ops : List (Operation .word)) :
    Yields (runWords host w (fun op => op.reference) ops) fun result =>
      ∃ summaries, result = .ok summaries ∧
        List.Forall₂ SumsUp (ops.map fun op => digest w .word op.name) summaries := by
  induction ops with
  | nil => exact yields_pure ⟨[], rfl, .nil⟩
  | cons op rest ih =>
    refine yields_bind (yields_runOn_reference host h op) ?_
    rintro _ ⟨s, rfl, hs⟩
    refine yields_bind ih ?_
    rintro _ ⟨summaries, rfl, hRest⟩
    exact yields_pure ⟨s :: summaries, rfl, .cons hs hRest⟩

/-- What is told of the operations of a choice, in the order of their runs. -/
def Choice.runs (words doubles : String → Digest) : Choice → List Digest
  | .all => [words "calculate_div_p2", words "calculate_div_ext", doubles "calculate_fdiv_p2"]
  | .primary => [words "calculate_div_p2"]
  | .extended => [words "calculate_div_ext"]
  | .doubles => [doubles "calculate_fdiv_p2"]

theorem Options.runs_eq (o : Options) (words doubles : String → Digest) :
    (o.choice.getD .all).runs words doubles = (o.wordOperations.map fun op => words op.name) ++
      if o.runsDoubles then [doubles Operation.doubles.name] else [] := by
  unfold Options.wordOperations Options.runsDoubles
  cases o.choice.getD .all with
  | all | primary | extended | doubles => rfl

theorem Choice.sound_runs (choice : Choice) (w : Workload) :
    ∀ run ∈ choice.runs (digest w .word) (digest w .double), run.Sound := by
  have hPrimary : (digest w .word "calculate_div_p2").Sound := sound_digest w .word (by decide)
  have hExtended : (digest w .word "calculate_div_ext").Sound := sound_digest w .word (by decide)
  have hDoubles : (digest w .double "calculate_fdiv_p2").Sound := sound_digest w .double (by decide)
  cases choice with
  | all =>
    simp only [runs, List.forall_mem_cons]
    exact ⟨hPrimary, hExtended, hDoubles, nofun⟩
  | primary => exact List.forall_mem_singleton.mpr hPrimary
  | extended => exact List.forall_mem_singleton.mpr hExtended
  | doubles => exact List.forall_mem_singleton.mpr hDoubles

theorem yields_attempt {α : Type} (x : Attempt α) :
    Yields (x.perform host) fun result => result = x.result :=
  yields_bind (Q := fun _ => True) (fun _ => trivial) fun _ _ => yields_pure rfl

theorem yields_runAll_of_sound (o : Options) (h : o.workload.Sound) :
    Yields (runAll host o none) fun result => ∃ summaries, result = .ok summaries ∧
      List.Forall₂ SumsUp ((o.choice.getD .all).runs (digest o.workload .word)
        (digest o.workload .double)) summaries := by
  rw [o.runs_eq]
  refine yields_bind (yields_attempt host o.workload.validate) ?_
  rintro _ rfl
  rw [Workload.result_validate_eq_ok_iff.mpr h]
  refine yields_bind (yields_runWords host h o.wordOperations) ?_
  rintro _ ⟨summaries, rfl, hWords⟩
  dsimp only
  split
  · refine yields_bind (yields_runOn_reference host h Operation.doubles) ?_
    rintro _ ⟨s, rfl, hs⟩
    exact yields_pure ⟨summaries ++ [s], rfl, List.rel_append hWords (.cons hs .nil)⟩
  · refine yields_pure ⟨summaries, rfl, ?_⟩
    rwa [List.append_nil]

/-- An unusable field ends the command, whichever operations are chosen. -/
theorem yields_runAll_of_not_sound (o : Options) (h : ¬ o.workload.Sound) :
    Yields (runAll host o none) fun result =>
      ∃ info, result = .error (.invalidConfiguration info) := by
  refine yields_bind (yields_attempt host o.workload.validate) ?_
  rintro _ rfl
  cases hFlaw : o.workload.flaw? with
  | none => exact absurd (Workload.flaw?_eq_none_iff.mp hFlaw) h
  | some flaw =>
    rw [Workload.validate, hFlaw]
    exact yields_pure ⟨flaw.info, rfl⟩

/-! ## Endings -/

theorem forall₂_tells {runs : List Digest} {summaries : List RunSummary}
    (h : List.Forall₂ SumsUp runs summaries) (hSound : ∀ run ∈ runs, run.Sound)
    (hFits : ∀ run ∈ runs, run.total < 2 ^ 64) (json : Bool) :
    List.Forall₂ (Tells · json) runs (Ending.output (.passed json summaries)) := by
  induction h with
  | nil =>
    cases json with
    | true | false => exact .nil
  | cons hs _ ih =>
    obtain ⟨hRun, hRest⟩ := List.forall_mem_cons.mp hFits
    obtain ⟨hRunSound, hRestSound⟩ := List.forall_mem_cons.mp hSound
    cases json with
    | true => exact .cons (hs.tells_json hRunSound hRun) (ih hRestSound hRest)
    | false => exact .cons (hs.tells_words hRun) (ih hRestSound hRest)

theorem oneLine_output {runs : List Digest} {summaries : List RunSummary}
    (h : List.Forall₂ SumsUp runs summaries) (hSound : ∀ run ∈ runs, run.Sound) (json : Bool) :
    ∀ line ∈ Ending.output (.passed json summaries), OneLine line.toList := by
  induction h with
  | nil =>
    cases json with
    | true | false => exact nofun
  | cons hs _ ih =>
    obtain ⟨hRun, hRest⟩ := List.forall_mem_cons.mp hSound
    obtain ⟨hJson, hWords⟩ := hs.oneLine hRun
    cases json with
    | true => exact List.forall_mem_cons.mpr ⟨hJson, ih hRest⟩
    | false => exact List.forall_mem_cons.mpr ⟨hWords, ih hRest⟩

/-- How the command ends when its runs have come to a result. -/
def Ending.ofResult (json : Bool) : Except Fault (List RunSummary) → Ending
  | .error fault => .failed fault
  | .ok summaries => .passed json summaries

theorem perform_of_native {o : Options} (h : o.target = some .native) :
    perform host none o = pure .notLinked := by
  unfold perform
  rw [h]

theorem perform_of_not_native {o : Options} (h : o.target ≠ some .native) :
    perform host none o = Ending.ofResult o.json <$> runAll host o none := by
  unfold perform
  match hTarget : o.target with
  | none => rfl
  | some .native => exact absurd hTarget h
  | some .reference => rfl

theorem sound_workload_iff (o : Options) :
    o.workload.Sound ↔
      0 < (o.sweepCount.getD (o.preset.getD .full).workload.sweepCount) ∧
      0 < (o.uniformCount.getD (o.preset.getD .full).workload.uniformCount) ∧
      0 < (o.decadesCount.getD (o.preset.getD .full).workload.decadesCount) ∧
      0 ≤ (o.radius.getD (o.preset.getD .full).workload.radius) := by
  simp only [UInt64.pos_iff_ne_zero]
  exact ⟨fun ⟨hSweep, hUniform, hDecades, hRadius⟩ => ⟨hSweep, hUniform, hDecades, hRadius⟩,
    fun ⟨hSweep, hUniform, hDecades, hRadius⟩ => ⟨hSweep, hUniform, hDecades, hRadius⟩⟩

/-- The ending of a command without linked functions, when the inputs of each chosen operation can
be counted by a word. Native functions are not there to be run. The references pass over every
workload with positive counts and a radius that is not negative: one line is said of each chosen
operation, in order, with the number of its inputs. Any other workload is refused, and nothing is
said on the output. No reference is ever found wrong. -/
theorem ending_of_references (o : Options) (st : σ) :
    let preset := (o.preset.getD .full).workload
    let sweepCount := o.sweepCount.getD preset.sweepCount
    let radius := o.radius.getD preset.radius
    let seed := o.seed.getD preset.uniformSeed
    let uniformCount := o.uniformCount.getD preset.uniformCount
    let decadesCount := o.decadesCount.getD preset.decadesCount
    let words (operation : String) : Digest := ⟨operation,
      [("boundary", 393),
        ("log_magnitude[1, 9223372036854775807]", sweepCount.toNat),
        ("log_magnitude[-9223372036854775808, -1]", sweepCount.toNat),
        ("dense_range[" ++ toString (-radius.toInt) ++ ", " ++ toString radius.toInt ++ "]",
          2 * radius.toInt.toNat + 1),
        ("uniform_random(seed=" ++ toString seed.toNat ++ ")", uniformCount.toNat)],
      393 + 2 * sweepCount.toNat + (2 * radius.toInt.toNat + 1) + uniformCount.toNat⟩
    let doubles (operation : String) : Digest := ⟨operation,
      [("float_boundary", 13), ("powers_of_two", 4196),
        ("float_random(seed=" ++ toString preset.decadesSeed.toNat ++ ")", decadesCount.toNat)],
      13 + 4196 + decadesCount.toNat⟩
    let runs := (o.choice.getD .all).runs words doubles
    let ending := ((perform host none o).run st).1
    (∀ run ∈ runs, run.total < 2 ^ 64) →
    (o.target = some .native → ending.exitCode = 2 ∧ ending.output = []) ∧
    (o.target ≠ some .native →
      let usable := 0 < sweepCount ∧ 0 < uniformCount ∧ 0 < decadesCount ∧ 0 ≤ radius
      (usable → ending.exitCode = 0 ∧ List.Forall₂ (Tells · o.json) runs ending.output ∧
        ∀ line ∈ ending.output, OneLine line.toList) ∧
      (¬ usable → ending.exitCode = 2 ∧ ending.output = [])) ∧
    ending.exitCode ≠ 1 := by
  intro preset sweepCount radius seed uniformCount decadesCount words doubles runs ending hFits
  -- the target is looked at first, then the workload, then the chosen operations
  by_cases hNative : o.target = some .native
  · have hEnding : ending = .notLinked := by
      unfold ending
      rw [perform_of_native host hNative]
      rfl
    rw [hEnding]
    exact ⟨fun _ => ⟨rfl, rfl⟩, fun hNot => absurd hNative hNot, by decide⟩
  have hEnding : ending = .ofResult o.json ((runAll host o none).run st).1 := by
    unfold ending
    rw [perform_of_not_native host hNative]
    rfl
  by_cases hSound : o.workload.Sound
  · obtain ⟨summaries, hOk, hSums⟩ := yields_runAll_of_sound host o hSound st
    rw [hOk] at hEnding
    have hRuns := (o.choice.getD .all).sound_runs o.workload
    have hTells : List.Forall₂ (Tells · o.json) runs ending.output :=
      hEnding ▸ forall₂_tells hSums hRuns hFits o.json
    have hLines : ∀ line ∈ ending.output, OneLine line.toList :=
      hEnding ▸ oneLine_output hSums hRuns o.json
    have hCode : ending.exitCode = 0 := by
      rw [hEnding]
      rfl
    have hUsable := (sound_workload_iff o).mp hSound
    exact ⟨fun h => absurd h hNative, fun _ => ⟨fun _ => ⟨hCode, hTells, hLines⟩,
      fun hNot => absurd hUsable hNot⟩, hCode ▸ by decide⟩
  · obtain ⟨info, hError⟩ := yields_runAll_of_not_sound host o hSound st
    rw [hError] at hEnding
    rw [hEnding]
    refine ⟨fun h => absurd h hNative, fun _ => ⟨fun h => ?_, fun _ => ⟨rfl, rfl⟩⟩, nofun⟩
    exact absurd ((sound_workload_iff o).mpr h) hSound

/-- A short check, as JSON. With a negative radius it is refused, although the
operation that is chosen then has no use for the radius. -/
theorem ending_of_references_small_radius :
    let host : Host (StateM (List Signal)) := (Bench.recording (d := .word) pure).toHost
    let o : Options :=
      { radius := some 5, sweepCount := some 7, uniformCount := some 2, decadesCount := some 1,
        json := true }
    let refused : Options := { o with radius := some (-1), choice := some .doubles }
    let words : List (String × ℕ) := [("boundary", 393),
      ("log_magnitude[1, 9223372036854775807]", 7),
      ("log_magnitude[-9223372036854775808, -1]", 7), ("dense_range[-5, 5]", 11),
      ("uniform_random(seed=42)", 2)]
    let doubles : List (String × ℕ) :=
      [("float_boundary", 13), ("powers_of_two", 4196), ("float_random(seed=181601433)", 1)]
    let runs : List Digest := [⟨"calculate_div_p2", words, 420⟩, ⟨"calculate_div_ext", words, 420⟩,
      ⟨"calculate_fdiv_p2", doubles, 4210⟩]
    let ending (o : Options) := ((perform host none o).run []).1
    (∀ run ∈ runs, run.total < 2 ^ 64) ∧ (ending o).exitCode = 0 ∧
    List.Forall₂ (Tells · true) runs (ending o).output ∧
    (ending refused).exitCode = 2 ∧ (ending refused).output = [] := by
  intro host o refused words doubles runs ending
  have hFits : ∀ run ∈ runs, run.total < 2 ^ 64 := by decide
  have hRuns : (o.choice.getD .all).runs (digest o.workload .word)
      (digest o.workload .double) = runs := by decide +kernel
  obtain ⟨-, hUsed, -⟩ := ending_of_references host o [] (hRuns ▸ hFits)
  obtain ⟨hCode, hTells, -⟩ := (hUsed nofun).1 (by decide)
  obtain ⟨-, hRefused, -⟩ := ending_of_references host refused [] (by decide)
  obtain ⟨hRefusedCode, hNothing⟩ := (hRefused nofun).2 (by decide)
  exact ⟨hFits, hCode, hRuns ▸ hTells, hRefusedCode, hNothing⟩

end Command

end DivisionAudit
