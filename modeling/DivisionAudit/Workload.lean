import DivisionAudit.Source

/-!
# Workloads

A workload fixes the sizes and the seeds of the phases that an audit runs by default. One check
covers both domains: a workload that is not usable for one is refused for the other too.

* `Workload.flaw?`: the first field that cannot be used.
* `Workload.sources`: the phases over words or over doubles.
-/

namespace DivisionAudit

structure Workload where
  sweepCount : UInt64
  /-- The dense scan reaches this far on both sides of zero. -/
  radius : Int64
  uniformSeed : UInt64
  uniformCount : UInt64
  decadesSeed : UInt64
  decadesCount : UInt64
deriving DecidableEq

namespace Workload

/-! ## Presets -/

def full : Workload where
  sweepCount := 10000000
  radius := 10000000
  uniformSeed := DivisionAudit.uniformSeed
  uniformCount := 10000000
  decadesSeed := Decades.defaultSeed
  decadesCount := 100000

/-- A short check. -/
def smoke : Workload :=
  { full with
    sweepCount := 10000
    radius := 10000
    uniformCount := 100000
    decadesCount := 10000 }

/-- Ten times the random inputs. -/
def stress : Workload := { full with uniformCount := 100000000, decadesCount := 1000000 }

def seeded (seed : UInt64) : Workload := { full with uniformSeed := seed }

/-! ## Use -/

/-- Why a workload cannot be used. -/
inductive Flaw
  | noSweep
  | noUniform
  | noDecades
  | negativeRadius (radius : Int64)
deriving DecidableEq

def Flaw.info : Flaw → String
  | .noSweep => "log_sweep_count must be positive"
  | .noUniform => "random_count must be positive"
  | .noDecades => "float_random_count must be positive"
  | .negativeRadius radius => "dense_radius must be non-negative, got " ++ toString radius.toInt

/-- The first flaw: the counts come before the radius. -/
def flaw? (w : Workload) : Option Flaw :=
  if w.sweepCount = 0 then some .noSweep
  else if w.uniformCount = 0 then some .noUniform
  else if w.decadesCount = 0 then some .noDecades
  else if w.radius < 0 then some (.negativeRadius w.radius)
  else none

/-- Refuses a workload that has a flaw. -/
def validate (w : Workload) : Attempt Unit :=
  match w.flaw? with
  | none => pure ()
  | some flaw =>
    .refuse none ("invalid fixture configuration: " ++ flaw.info) "DivisionAudit.Workload.validate"
      (.invalidConfiguration flaw.info)

/-- The phases of a domain. -/
def sources (w : Workload) : (d : Domain) → Attempt (List (Source d))
  | .word => do
    w.validate
    let up ← Sweep.positive w.sweepCount
    let down ← Sweep.negative w.sweepCount
    let scan ← Interval.make (-w.radius) w.radius
    pure [.edges, .sweep up, .sweep down, .interval scan, .uniform w.uniformSeed w.uniformCount]
  | .double => do
    w.validate
    pure [.specials, .powers, .decades w.decadesSeed w.decadesCount]

/-! ## Texts -/

def json (w : Workload) : Json := .object [
  ("log_sweep_count", .ofNat w.sweepCount.toNat),
  ("dense_radius", .ofWord w.radius),
  ("random_seed", .ofNat w.uniformSeed.toNat),
  ("random_count", .ofNat w.uniformCount.toNat),
  ("float_random_seed", .ofNat w.decadesSeed.toNat),
  ("float_random_count", .ofNat w.decadesCount.toNat)]

def diagnostic (w : Workload) : Diagnostic := .record "FixtureConfig" [
  ("log_sweep_count", .unsigned w.sweepCount),
  ("dense_radius", .word w.radius),
  ("random_seed", .unsigned w.uniformSeed),
  ("random_count", .unsigned w.uniformCount),
  ("float_random_seed", .unsigned w.decadesSeed),
  ("float_random_count", .unsigned w.decadesCount)]

end Workload

end DivisionAudit
