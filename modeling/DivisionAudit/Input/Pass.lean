import DivisionAudit.Input.Doubles
import DivisionAudit.Number.Domain

/-!
# Passes over inputs

A pass hands out the inputs of one source, one after the other: it walks over positions, or it
draws from a generator a number of times. It is a value, so that a copy is a place to return to.

* `Pass.next?`: one input and the pass after it.
* `Pass.remaining_lt`: a pass comes nearer to its end with every input, so every recursion over it
  ends.
* `Pass.toList`: all inputs that are left; `Pass.fold` is a fold over them.
-/

namespace DivisionAudit

inductive Pass : Domain → Type
  | walk {d : Domain} (walk : Walk d.Value) : Pass d
  | words (generator : Twister) (left : Nat) : Pass .word
  | doubles (generator : Permuted) (left : Nat) : Pass .double

namespace Pass

variable {d : Domain}

def next? : {d : Domain} → Pass d → Option (d.Value × Pass d)
  | _, .walk w => w.next?.map fun (v, w) => (v, .walk w)
  | _, .words _ 0 => none
  | _, .words g (n + 1) =>
    let (v, g) := drawWord g
    some (v, .words g n)
  | _, .doubles _ 0 => none
  | _, .doubles g (n + 1) => (Decades.draw? g).map fun (v, g) => (v, .doubles g n)

/-- The number of inputs still to come. -/
def remaining : {d : Domain} → Pass d → Nat
  | _, .walk w => w.remaining
  | _, .words _ n => n
  | _, .doubles _ n => n

theorem remaining_of_next? {p p' : Pass d} {v : d.Value} (h : p.next? = some (v, p')) :
    p.remaining = p'.remaining + 1 := by
  cases p with
  | walk w =>
    simp only [next?, Option.map_eq_some_iff, Prod.mk.injEq] at h
    obtain ⟨⟨v', w'⟩, hw, -, rfl⟩ := h
    exact Walk.remaining_of_next? hw
  | words g n =>
    cases n with
    | zero => simp [next?] at h
    | succ n => simp only [next?, Option.some.injEq, Prod.mk.injEq] at h; rw [← h.2]; rfl
  | doubles g n =>
    cases n with
    | zero => simp [next?] at h
    | succ n =>
      simp only [next?, Option.map_eq_some_iff, Prod.mk.injEq] at h
      obtain ⟨⟨v', g'⟩, -, -, rfl⟩ := h
      rfl

theorem remaining_lt {p p' : Pass d} {v : d.Value} (h : p.next? = some (v, p')) :
    p'.remaining < p.remaining := by
  rw [remaining_of_next? h]
  exact Nat.lt_succ_self _

/-! ## Going through a pass -/

/-- Combines the inputs that are left, in order. -/
def fold {β : Type} (f : β → d.Value → β) (b : β) (p : Pass d) : β :=
  match _h : p.next? with
  | none => b
  | some (v, p') => fold f (f b v) p'
termination_by p.remaining
decreasing_by exact remaining_lt ‹_›

/-- The inputs that are left, in order. -/
def toList (p : Pass d) : List d.Value :=
  match _h : p.next? with
  | none => []
  | some (v, p') => v :: toList p'
termination_by p.remaining
decreasing_by exact remaining_lt ‹_›

theorem toList_of_next?_eq_none {p : Pass d} (h : p.next? = none) : p.toList = [] := by
  rw [toList]
  split
  · rfl
  · next h' => rw [h] at h'; cases h'

theorem toList_of_next?_eq_some {p p' : Pass d} {v : d.Value} (h : p.next? = some (v, p')) :
    p.toList = v :: p'.toList := by
  rw [toList]
  split
  · next h' => rw [h] at h'; cases h'
  · next h' => rw [h] at h'; cases h'; rfl

theorem fold_eq_foldl_toList {β : Type} (f : β → d.Value → β) (b : β) (p : Pass d) :
    p.fold f b = p.toList.foldl f b := by
  fun_induction fold f b p with
  | case1 b p h => rw [toList_of_next?_eq_none h]; rfl
  | case2 b p v p' h ih => rw [toList_of_next?_eq_some h, List.foldl_cons, ih]

/-- The next inputs, at most `n`, and the pass after them. -/
def take : Nat → Pass d → List d.Value × Pass d
  | 0, p => ([], p)
  | n + 1, p =>
    match p.next? with
    | none => ([], p)
    | some (v, p') =>
      let (vs, rest) := take n p'
      (v :: vs, rest)

/-- The pass after the next `n` inputs, drawing each of them. -/
def drop : Nat → Pass d → Pass d
  | 0, p => p
  | n + 1, p =>
    match p.next? with
    | none => p
    | some (_, p') => drop n p'

/-- The pass after the next `n` inputs; a walk goes there at once. -/
def skip (n : Nat) : {d : Domain} → Pass d → Pass d
  | _, .walk w => .walk (w.skip n)
  | _, .words g left => drop n (.words g left)
  | _, .doubles g left => drop n (.doubles g left)

/-- The number of inputs left, by going through them; for a walk it is known. -/
def count : {d : Domain} → Pass d → Nat
  | _, .walk w => w.remaining
  | _, .words g n => fold (fun k _ => k + 1) 0 (.words g n)
  | _, .doubles g n => fold (fun k _ => k + 1) 0 (.doubles g n)

/-- The number of inputs left, where it fits a word. -/
def count? (p : Pass d) : Option UInt64 :=
  if p.count < UInt64.size then some (UInt64.ofNat p.count) else none

def last? : {d : Domain} → Pass d → Option d.Value
  | _, .walk w => w.last?
  | _, .words g n => fold (fun _ v => some v) none (.words g n)
  | _, .doubles g n => fold (fun _ v => some v) none (.doubles g n)

/-- An input from the far end; only a walk has one. -/
def back? : {d : Domain} → Pass d → Option (d.Value × Pass d)
  | _, .walk w => w.back?.map fun (v, w) => (v, .walk w)
  | _, _ => none

/-! ## What is known of the rest -/

/-- The number of inputs left, as far as a word can tell it. -/
structure SizeHint where
  lower : Nat
  upper : Option Nat
deriving DecidableEq

/-- Exact, but for a number that is too large for a word. -/
def sizeHint (p : Pass d) : SizeHint :=
  if p.remaining < UInt64.size then ⟨p.remaining, some p.remaining⟩
  else ⟨UInt64.size - 1, none⟩

end Pass

end DivisionAudit
