import DivisionAudit.Duration
import DivisionAudit.Fault
import DivisionAudit.Violation.Observer

/-!
# Signals and traced results

What happens besides a result is a list of signals, oldest first: a phase starts, a phase passes,
a violation is raised towards an observer or, when none is named, towards the log.

* `Traced α`: a value with the signals raised on the way to it.
* `Attempt α`: a traced value or fault; `Attempt.refuse` raises one violation and ends in a fault.
* `Host m`: where signals go when they are more than values; `Attempt.perform` sends them there.
-/

namespace DivisionAudit

inductive Signal
  /-- The number of inputs is given where the source knows it. -/
  | phaseStarted (operation phase : String) (expected : Option Nat)
  | phasePassed (operation phase : String) (inputs : Nat) (elapsed : Duration)
  | raised (sink : Option Observer) (violation : Violation)

/-- What a signal delivers. -/
def Signal.deliveries : Signal → List Delivery
  | .raised sink v => deliver sink v
  | _ => []

/-- A value with the signals raised on the way to it, oldest first. -/
structure Traced (α : Type) where
  signals : List Signal
  value : α

namespace Traced

instance : Monad Traced where
  pure a := ⟨[], a⟩
  bind t f := ⟨t.signals ++ (f t.value).signals, (f t.value).value⟩

instance : LawfulMonad Traced :=
  LawfulMonad.mk' Traced (fun t => by simp [Functor.map, List.append_nil])
    (fun a f => by simp [bind, pure]) (fun t f g => by simp [bind, List.append_assoc])

@[simp] theorem signals_pure {α : Type} (a : α) : (pure a : Traced α).signals = [] := rfl

@[simp] theorem value_pure {α : Type} (a : α) : (pure a : Traced α).value = a := rfl

@[simp] theorem signals_bind {α β : Type} (t : Traced α) (f : α → Traced β) :
    (t >>= f).signals = t.signals ++ (f t.value).signals := rfl

@[simp] theorem value_bind {α β : Type} (t : Traced α) (f : α → Traced β) :
    (t >>= f).value = (f t.value).value := rfl

/-- Raises a violation. -/
def raise (sink : Option Observer) (v : Violation) : Traced Unit := ⟨[.raised sink v], ()⟩

end Traced

/-- A value or a fault, with the signals raised on the way. -/
abbrev Attempt (α : Type) := ExceptT Fault Traced α

namespace Attempt

def signals {α : Type} (a : Attempt α) : List Signal := Traced.signals (ExceptT.run a)

def result {α : Type} (a : Attempt α) : Except Fault α := Traced.value (ExceptT.run a)

/-- Raises a configuration error and ends in a fault. -/
def refuse {α : Type} (sink : Option Observer) (message location : String) (fault : Fault) :
    Attempt α := do
  Traced.raise sink (.plain .error .configuration message location)
  throw fault

end Attempt

/-! ## Hosts -/

/-- Takes signals and tells the time. -/
structure Host (m : Type → Type) where
  signal : Signal → m Unit
  clock : m Duration

/-- Sends the signals of an attempt to a host and goes on with its result. -/
def Attempt.perform {m : Type → Type} [Monad m] {α : Type} (host : Host m) (a : Attempt α) :
    m (Except Fault α) := do
  a.signals.forM host.signal
  pure a.result

end DivisionAudit
