import DivisionAudit.Input.Pass

/-!
# The inputs of a pass

* `Pass.next?_eq_some_of_toList`: the inputs that are left determine whether there is a next one.
* `Pass.toList_walk`: a walk hands out the values at its positions.
-/

namespace DivisionAudit.Pass

variable {d : Domain}

theorem next?_eq_none_of_toList {p : Pass d} (h : p.toList = []) : p.next? = none := by
  cases hp : p.next? with
  | none => rfl
  | some q =>
    obtain ⟨v, p'⟩ := q
    rw [toList_of_next?_eq_some hp] at h
    cases h

theorem next?_eq_some_of_toList {p : Pass d} {v : d.Value} {vs : List d.Value}
    (h : p.toList = v :: vs) : ∃ p', p.next? = some (v, p') ∧ p'.toList = vs := by
  cases hp : p.next? with
  | none =>
    rw [toList_of_next?_eq_none hp] at h
    cases h
  | some q =>
    obtain ⟨u, p'⟩ := q
    rw [toList_of_next?_eq_some hp] at h
    cases h
    exact ⟨p', rfl, rfl⟩

theorem toList_walk (w : Walk d.Value) :
    (Pass.walk w).toList = (List.range w.remaining).map fun i => w.value (w.front + i) := by
  generalize hn : w.remaining = n
  induction n generalizing w with
  | zero =>
    have hNone : (Pass.walk w).next? = none := by
      simp only [next?, Walk.next?_eq_none_iff.mpr hn, Option.map_none]
    rw [toList_of_next?_eq_none hNone, List.range_zero, List.map_nil]
  | succ n ih =>
    have hLt : w.front < w.back := by simp only [Walk.remaining] at hn; omega
    have hNext : (Pass.walk w).next? =
        some (w.value w.front, .walk { w with front := w.front + 1 }) := by
      simp only [next?, Walk.next?, if_pos hLt, Option.map_some]
    rw [toList_of_next?_eq_some hNext, ih _ (by simp only [Walk.remaining] at hn ⊢; omega),
      List.range_succ_eq_map, List.map_cons, List.map_map]
    simp only [Function.comp_def, Nat.add_zero, Nat.succ_eq_add_one, Nat.add_assoc, Nat.add_comm 1]

end DivisionAudit.Pass
