import DivisionAudit.Proofs.Audit.Failures
import DivisionAudit.Proofs.Audit.Workload

/-!
# One check for both domains

The sources of either domain are made after the same check of the whole workload, so all three
refuse the same workloads, for the first field that cannot be used. The ranges that are made after
it have checks of their own, of other conditions. What they ask for follows from the first check:
the bounds of the sweeps are fixed and only their number of samples is asked about, and a radius
that is not negative has a negation, which is not above it.

* `Workload.Field`, `Workload.offending?`: the fields in their order, and the first that cannot be
  used.
* `Workload.info_flaw?`: the check finds it.
* `Workload.refusals_agree`: the check and the sources of both domains.
-/

namespace DivisionAudit.Workload

variable {w : Workload}

/-! ## Fields -/

/-- The fields that the check looks at. -/
inductive Field
  | sweepCount
  | uniformCount
  | decadesCount
  | radius
deriving DecidableEq

/-- The fields in the order in which they are looked at. -/
def Field.all : List Field := [.sweepCount, .uniformCount, .decadesCount, .radius]

def Field.name : Field → String
  | .sweepCount => "log_sweep_count"
  | .uniformCount => "random_count"
  | .decadesCount => "float_random_count"
  | .radius => "dense_radius"

/-- A field cannot be used: a count is zero, or the radius is negative. -/
def offends (w : Workload) : Field → Bool
  | .sweepCount => w.sweepCount = 0
  | .uniformCount => w.uniformCount = 0
  | .decadesCount => w.decadesCount = 0
  | .radius => w.radius < 0

/-- The first field that cannot be used. -/
def offending? (w : Workload) : Option Field := Field.all.find? w.offends

/-- What is said of a field that cannot be used. -/
def complaint (w : Workload) (f : Field) : String :=
  match f with
  | .radius => f.name ++ " must be non-negative, got " ++ toString w.radius.toInt
  | f => f.name ++ " must be positive"

/-- The fault that names a field. -/
def refusal (w : Workload) (f : Field) : Fault := .invalidConfiguration (w.complaint f)

theorem offending?_eq_none_iff : w.offending? = none ↔ w.Sound := by
  have hCount (n : UInt64) : decide (n = 0) ≠ true ↔ n ≠ 0 := by rw [ne_eq, decide_eq_true_eq]
  have hRadius : decide (w.radius < 0) ≠ true ↔ 0 ≤ w.radius := by
    rw [ne_eq, decide_eq_true_eq, Int64.not_lt]
  rw [offending?, List.find?_eq_none]
  constructor
  · intro h
    exact ⟨(hCount _).mp (h .sweepCount (by decide)), (hCount _).mp (h .uniformCount (by decide)),
      (hCount _).mp (h .decadesCount (by decide)), hRadius.mp (h .radius (by decide))⟩
  · intro h f _
    cases f with
    | sweepCount => exact (hCount _).mpr h.sweepCount_ne_zero
    | uniformCount => exact (hCount _).mpr h.uniformCount_ne_zero
    | decadesCount => exact (hCount _).mpr h.decadesCount_ne_zero
    | radius => exact hRadius.mpr h.radius_nonneg

/-- One question of the check is one field of the list. -/
theorem info_ite {c : Prop} [Decidable c] {f : Field} {flaw : Flaw} {others : Option Flaw}
    {fs : List Field} (hOffends : w.offends f = decide c) (hInfo : flaw.info = w.complaint f)
    (hOthers : others.map Flaw.info = (fs.find? w.offends).map w.complaint) :
    (if c then some flaw else others).map Flaw.info =
      ((f :: fs).find? w.offends).map w.complaint := by
  by_cases h : c
  · have hFirst : w.offends f = true := hOffends.trans (decide_eq_true h)
    rw [if_pos h, List.find?_cons_of_pos hFirst, Option.map_some, Option.map_some, hInfo]
  · have hNext : ¬ w.offends f = true := by rwa [hOffends, decide_eq_true_eq]
    rw [if_neg h, List.find?_cons_of_neg hNext, hOthers]

/-- The check goes through the fields in their order. -/
theorem info_flaw? (w : Workload) : w.flaw?.map Flaw.info = w.offending?.map w.complaint := by
  unfold flaw? offending? Field.all
  apply info_ite rfl rfl
  apply info_ite rfl rfl
  apply info_ite rfl rfl
  apply info_ite rfl rfl
  rfl

/-! ## Refusals -/

theorem result_validate_of_offending {f : Field} (h : w.offending? = some f) :
    w.validate.result = .error (w.refusal f) := by
  have hInfo := w.info_flaw?
  rw [h, Option.map_some, Option.map_eq_some_iff] at hInfo
  obtain ⟨flaw, hFlaw, hComplaint⟩ := hInfo
  rw [validate, hFlaw, refusal, ← hComplaint]
  rfl

/-- The sources of either domain come after the check. -/
theorem exists_sources_eq_bind (w : Workload) (d : Domain) :
    ∃ rest : Unit → Attempt (List (Source d)), w.sources d = w.validate >>= rest := by
  cases d with
  | word => exact ⟨_, rfl⟩
  | double => exact ⟨_, rfl⟩

theorem exists_pure_sources (h : w.Sound) (d : Domain) : ∃ l, w.sources d = pure l := by
  cases d with
  | word => exact ⟨_, sources_word h⟩
  | double => exact ⟨_, sources_double h⟩

/-- The ranges that the sources over words ask for are made, and the sources are these and two
others. -/
theorem exists_ranges (h : w.Sound) : ∃ up down : Sweep, ∃ scan : Interval,
    (Sweep.positive w.sweepCount).result = .ok up ∧
    (Sweep.negative w.sweepCount).result = .ok down ∧
    (Interval.make (-w.radius) w.radius).result = .ok scan ∧
    (w.sources .word).result = .ok [.edges, .sweep up, .sweep down, .interval scan,
      .uniform w.uniformSeed w.uniformCount] := by
  have hUp := Sweep.positive_eq_pure h.sweepCount_ne_zero
  have hDown := Sweep.negative_eq_pure h.sweepCount_ne_zero
  have hScan := Interval.make_around h.radius_nonneg
  exact ⟨.upward h.sweepCount_ne_zero, .downward h.sweepCount_ne_zero, .around h.radius_nonneg,
    congrArg Attempt.result hUp, congrArg Attempt.result hDown, congrArg Attempt.result hScan,
    congrArg Attempt.result (sources_word h)⟩

theorem result_signals_sources_of_offending {f : Field} (h : w.offending? = some f) (d : Domain) :
    (w.sources d).result = .error (w.refusal f) ∧ (w.sources d).signals = w.validate.signals := by
  obtain ⟨rest, hRest⟩ := w.exists_sources_eq_bind d
  rw [hRest]
  exact Attempt.bind_of_error (result_validate_of_offending h) rest

/-- A workload is refused exactly for a count of zero or a negative radius. Then the check and the
sources of both domains end in one fault, which names the first such field, and raise what the
check raises. Otherwise all three succeed and raise nothing: the ranges are made and not refused,
the sources over words are these ranges between the edges and the uniform words, those over doubles
ask for no range, and the negation of the radius is a word. So a range that cannot be made never
comes out. -/
theorem refusals_agree (w : Workload) (d : Domain) :
    (w.offending? = none ↔
      ¬ (w.sweepCount = 0 ∨ w.uniformCount = 0 ∨ w.decadesCount = 0 ∨ w.radius < 0)) ∧
    (∀ f, w.offending? = some f →
      w.validate.result = .error (w.refusal f) ∧ (w.sources d).result = .error (w.refusal f)) ∧
    (w.offending? = none →
      (w.validate.result = .ok () ∧ ∃ sources, (w.sources d).result = .ok sources) ∧
      (∃ up down : Sweep, ∃ scan : Interval, (Sweep.positive w.sweepCount).result = .ok up ∧
        (Sweep.negative w.sweepCount).result = .ok down ∧
        (Interval.make (-w.radius) w.radius).result = .ok scan ∧
        (w.sources .word).result = .ok [.edges, .sweep up, .sweep down, .interval scan,
          .uniform w.uniformSeed w.uniformCount]) ∧
      (w.sources .double).result =
        .ok [.specials, .powers, .decades w.decadesSeed w.decadesCount] ∧
      (-w.radius).toInt = -w.radius.toInt) ∧
    (w.sources d).signals = w.validate.signals ∧
    ∀ start stop count reason,
      (w.sources d).result ≠ .error (.invalidRange start stop count reason) := by
  refine ⟨?_, ?_, ?_, ?_⟩
  · rw [offending?_eq_none_iff, not_or, not_or, not_or, Int64.not_lt]
    exact ⟨fun ⟨h₁, h₂, h₃, h₄⟩ => ⟨h₁, h₂, h₃, h₄⟩, fun ⟨h₁, h₂, h₃, h₄⟩ => ⟨h₁, h₂, h₃, h₄⟩⟩
  · intro f hFirst
    exact ⟨result_validate_of_offending hFirst, (result_signals_sources_of_offending hFirst d).1⟩
  · intro hNone
    have hSound := offending?_eq_none_iff.mp hNone
    obtain ⟨l, hSources⟩ := exists_pure_sources hSound d
    exact ⟨⟨result_validate_eq_ok_iff.mpr hSound, l, congrArg Attempt.result hSources⟩,
      exists_ranges hSound, congrArg Attempt.result (sources_double hSound),
      Interval.toInt_neg_radius hSound.radius_nonneg⟩
  · cases hOffending : w.offending? with
    | none =>
      have hSound := offending?_eq_none_iff.mp hOffending
      obtain ⟨l, hSources⟩ := exists_pure_sources hSound d
      rw [validate_eq_pure hSound, hSources]
      exact ⟨rfl, fun start stop count reason => nofun⟩
    | some f =>
      obtain ⟨hResult, hSignals⟩ := result_signals_sources_of_offending hOffending d
      refine ⟨hSignals, ?_⟩
      intro start stop count reason
      rw [hResult]
      exact nofun

/-- Two fields cannot be used, and the count is named. The least radius has no negation and is
refused; a radius of zero is not. -/
theorem refusals_agree_least_radius :
    let w : Workload := { Workload.smoke with decadesCount := 0, radius := Int64.minValue }
    let w' : Workload := { Workload.smoke with radius := Int64.minValue }
    let w₀ : Workload := { Workload.smoke with radius := 0 }
    (w.sources .word).result =
      .error (.invalidConfiguration "float_random_count must be positive") ∧
    (w'.sources .double).result = .error
      (.invalidConfiguration "dense_radius must be non-negative, got -9223372036854775808") ∧
    ∃ sources, (w₀.sources .word).result = .ok sources := by
  intro w w' w₀
  obtain ⟨-, hNamed, -⟩ := refusals_agree w .word
  obtain ⟨-, hNamed', -⟩ := refusals_agree w' .double
  obtain ⟨-, -, hNone, -⟩ := refusals_agree w₀ .word
  obtain ⟨⟨-, hSources⟩, -⟩ := hNone (by decide)
  exact ⟨(hNamed .decadesCount (by decide)).2, (hNamed' .radius (by decide)).2, hSources⟩

end DivisionAudit.Workload
