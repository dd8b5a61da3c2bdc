/-!
# Walks over positions

A walk hands out the values at the positions `front ≤ i < back` of a function, from either end. As
a position is all that it keeps, a step over any number of values costs no more than one.

* `Walk.next?`, `Walk.back?`: one value from the front or from the back.
* `Walk.skip`, `Walk.last?`: over many values at once.
-/

namespace DivisionAudit

/-- The values at the positions from `front` up to `back`. -/
structure Walk (α : Type) where
  value : Nat → α
  front : Nat
  back : Nat

namespace Walk

variable {α : Type}

/-- The walk over the first `size` positions. -/
def ofSize (size : Nat) (value : Nat → α) : Walk α := ⟨value, 0, size⟩

def remaining (w : Walk α) : Nat := w.back - w.front

def next? (w : Walk α) : Option (α × Walk α) :=
  if w.front < w.back then some (w.value w.front, { w with front := w.front + 1 }) else none

def back? (w : Walk α) : Option (α × Walk α) :=
  if w.front < w.back then some (w.value (w.back - 1), { w with back := w.back - 1 }) else none

/-- The walk after `n` values from the front. -/
def skip (w : Walk α) (n : Nat) : Walk α := { w with front := min (w.front + n) w.back }

def last? (w : Walk α) : Option α := w.back?.map (·.1)

theorem remaining_of_next? {w w' : Walk α} {v : α} (h : w.next? = some (v, w')) :
    w.remaining = w'.remaining + 1 := by
  unfold next? at h
  split at h
  · cases h; simp only [remaining]; omega
  · cases h

theorem next?_eq_none_iff {w : Walk α} : w.next? = none ↔ w.remaining = 0 := by
  simp only [next?, remaining]
  split <;> simp <;> omega

end Walk

end DivisionAudit
