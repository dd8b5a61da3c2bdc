import DivisionAudit.Generator.Draw
import Mathlib.Logic.Function.Iterate
import Mathlib.Order.Nat

/-!
# Draws along the words of a generator

A generator hands out one word of 32 bits after the other. A draw of a range passes over the words
below its threshold: it takes the first one that is not, and leaves the generator behind that word.
The search for it ends if there is one.

* `after32`, `word32`: the generator after a number of words, and the word that comes next then.
* `FirstAt`: the place of the first word that is not below a threshold.
* `firstAccepted?_eq_some`: the search for it ends there.
* `value_drawRange`, `value_drawSignedRange`: what a draw comes to, for empty ranges too.
-/

namespace DivisionAudit

variable {G : Type} [Generator G]

/-! ## Words -/

/-- The generator after `n` words of 32 bits. -/
def after32 (g : G) (n : Nat) : G := (fun g => (Generator.next32 g).2)^[n] g

/-- The word of 32 bits that comes after `n` others. -/
def word32 (g : G) (n : Nat) : UInt32 := (Generator.next32 (after32 g n)).1

theorem after32_succ (g : G) (n : Nat) : after32 g (n + 1) = (Generator.next32 (after32 g n)).2 :=
  Function.iterate_succ_apply' _ n g

theorem after32_add (g : G) (m n : Nat) : after32 g (m + n) = after32 (after32 g m) n := by
  rw [Nat.add_comm]
  exact Function.iterate_add_apply _ n m g

/-! ## The first word at or above a threshold -/

/-- The first word that is not below `least` comes after `n` others. -/
structure FirstAt (least : UInt32) (g : G) (n : Nat) : Prop where
  below : ∀ i < n, word32 g i < least
  accepted : least ≤ word32 g n

theorem exists_firstAt_of_le {least : UInt32} {g : G} {n : Nat} (h : least ≤ word32 g n) :
    ∃ k ≤ n, FirstAt least g k := by
  have hSome : ∃ k, least ≤ word32 g k := ⟨n, h⟩
  refine ⟨Nat.find hSome, Nat.find_min' hSome h, ?_, Nat.find_spec hSome⟩
  intro i hi
  exact UInt32.not_le.mp (Nat.find_min hSome hi)

theorem firstAccepted?_eq (least : UInt32) (g : G) : firstAccepted? least g =
    if least ≤ word32 g 0 then some (word32 g 0, after32 g 1)
    else firstAccepted? least (after32 g 1) := by
  have : Nonempty (UInt32 × G) := ⟨Generator.next32 g⟩
  have hRound : searchRound least g =
      if least ≤ word32 g 0 then .inr (word32 g 0, after32 g 1) else .inl (after32 g 1) := rfl
  unfold firstAccepted?
  rw [repeatM_eq_of_monadTail, repeatM.body, hRound]
  split
  · rfl
  · rfl

theorem firstAccepted?_eq_some {least : UInt32} {g : G} {n : Nat} (h : FirstAt least g n) :
    firstAccepted? least g = some (word32 g n, after32 g (n + 1)) := by
  induction n generalizing g with
  | zero => rw [firstAccepted?_eq, if_pos h.accepted]
  | succ n ih =>
    have hRest : FirstAt least (after32 g 1) n :=
      ⟨fun i hi => h.below (i + 1) (by omega), h.accepted⟩
    have hSkip : ¬ least ≤ word32 g 0 := UInt32.not_le.mpr (h.below 0 (by omega))
    rw [firstAccepted?_eq, if_neg hSkip, ih hRest]
    rfl

/-! ## Draws -/

section Draws

variable {g : G} {n : Nat}

theorem drawBelow?_eq_some {span : UInt32} (h : FirstAt (threshold span) g n) :
    drawBelow? span g = some (word32 g n % span, after32 g (n + 1)) := by
  rw [drawBelow?, firstAccepted?_eq_some h]
  rfl

theorem drawSignedRange?_eq_some {start stop : Int32}
    (h : FirstAt (threshold (signedSpan start stop)) g n) :
    drawSignedRange? start stop g = some
      (start + (word32 g n % signedSpan start stop).toInt32, after32 g (n + 1)) := by
  rw [drawSignedRange?, drawBelow?_eq_some h]
  rfl

theorem value_drawRange {start stop : UInt32} (h : FirstAt (threshold (stop - start)) g n) :
    (drawRange start stop g).value = some (if start < stop then
      (start + word32 g n % (stop - start), after32 g (n + 1)) else (start, g)) := by
  unfold drawRange
  split
  · rw [Traced.value_pure, drawRange?, drawBelow?_eq_some h]
    rfl
  · rfl

theorem value_drawSignedRange {start stop : Int32}
    (h : FirstAt (threshold (signedSpan start stop)) g n) :
    (drawSignedRange start stop g).value = some (if start < stop then
      (start + (word32 g n % signedSpan start stop).toInt32, after32 g (n + 1))
      else (start, g)) := by
  unfold drawSignedRange
  split
  · rw [Traced.value_pure, drawSignedRange?_eq_some h]
  · rfl

end Draws

end DivisionAudit
