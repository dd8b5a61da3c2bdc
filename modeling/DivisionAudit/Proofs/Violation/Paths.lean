import DivisionAudit.Event
import Mathlib.Data.Set.Card

/-!
# Paths to recorders and logs

A violation that is reported to a place of a network arrives once for each path from there: a path
names a child at every fan-out on the way, by its position, and ends where there is a recorder or
the log. Children may be shared and may be named several times, so many paths can lead to one place.

* `Network.follow`: the place that a path leads to.
* `Observer.visits`: the deliveries of an observer, each with its path; they stand in the
  lexicographic order of their paths, which is depth first.
* `Network.mem_visits_iff`: the paths among them are all paths of the network.
* `Network.delivered_along_paths`: what is recorded and logged of any series of reports.
-/

namespace DivisionAudit

/-! ## Deliveries with their paths -/

namespace Observer

mutual

/-- The deliveries to an observer, each with the positions of the children on the way to it. -/
def visits (v : Violation) : Observer → List (List ℕ × Delivery)
  | .recorder id => [([], .recorded id v)]
  | .log => [([], .logged v)]
  | .fanOut children => childVisits v 0 children

/-- The deliveries to children whose positions are numbered from `k` on. -/
def childVisits (v : Violation) (k : ℕ) : List Observer → List (List ℕ × Delivery)
  | [] => []
  | o :: os => (o.visits v).map (fun a => (k :: a.1, a.2)) ++ childVisits v (k + 1) os

end

variable (v : Violation)

mutual

theorem map_snd_visits : (o : Observer) → (o.visits v).map Prod.snd = o.deliveries v
  | .recorder id => by simp only [visits, deliveries, List.map_cons, List.map_nil]
  | .log => by simp only [visits, deliveries, List.map_cons, List.map_nil]
  | .fanOut children => by rw [visits, deliveries, map_snd_childVisits 0 children]

theorem map_snd_childVisits (k : ℕ) : (os : List Observer) →
    (childVisits v k os).map Prod.snd = childDeliveries v os
  | [] => by rw [childVisits, childDeliveries, List.map_nil]
  | o :: os => by
    rw [childVisits, childDeliveries, List.map_append, List.map_map, map_snd_childVisits (k + 1) os,
      ← map_snd_visits o]
    rfl

end

variable {v}

theorem mem_childVisits_iff {os : List Observer} {k : ℕ} {a : List ℕ × Delivery} :
    a ∈ childVisits v k os ↔ ∃ m path o, a.1 = (k + m) :: path ∧ os[m]? = some o ∧
      (path, a.2) ∈ o.visits v := by
  induction os generalizing k with
  | nil => simp [childVisits]
  | cons o os ih =>
    rw [childVisits, List.mem_append, ih]
    constructor
    · rintro (h | ⟨m, path, o', hPath, ho', hMem⟩)
      · obtain ⟨b, hb, rfl⟩ := List.mem_map.mp h
        exact ⟨0, b.1, o, rfl, rfl, hb⟩
      · exact ⟨m + 1, path, o', by rw [hPath, Nat.add_assoc, Nat.add_comm 1], ho', hMem⟩
    · rintro ⟨m, path, o', hPath, ho', hMem⟩
      cases m with
      | zero =>
        cases ho'
        exact .inl (List.mem_map.mpr ⟨(path, a.2), hMem, Prod.ext hPath.symm rfl⟩)
      | succ m =>
        exact .inr ⟨m, path, o', by rw [hPath, Nat.add_assoc, Nat.add_comm 1], ho', hMem⟩

/-- A path comes before another in depth-first order. -/
abbrev Earlier (a b : List ℕ × Delivery) : Prop := List.Lex (· < ·) a.1 b.1

mutual

/-- A path into a child comes before every path into a later child. -/
theorem pairwise_visits : (o : Observer) → (o.visits v).Pairwise Earlier
  | .recorder id => by
    rw [visits]
    exact List.pairwise_singleton _ _
  | .log => by
    rw [visits]
    exact List.pairwise_singleton _ _
  | .fanOut children => by
    rw [visits]
    exact pairwise_childVisits 0 children

theorem pairwise_childVisits (k : ℕ) : (os : List Observer) →
    (childVisits v k os).Pairwise Earlier
  | [] => by
    rw [childVisits]
    exact .nil
  | o :: os => by
    rw [childVisits]
    refine List.pairwise_append.mpr ⟨?_, pairwise_childVisits (k + 1) os, ?_⟩
    · exact List.pairwise_map.mpr ((pairwise_visits o).imp .cons)
    · intro a ha b hb
      obtain ⟨c, -, rfl⟩ := List.mem_map.mp ha
      obtain ⟨m, path, -, hPath, -⟩ := mem_childVisits_iff.mp hb
      rw [Earlier, hPath]
      exact .rel (by omega)

end

end Observer

/-! ## Places of a network -/

namespace Network

theorem exists_observers_append (n m : Network) : ∃ more, observers (n ++ m) =
    observers n ++ more := by
  induction m generalizing n with
  | nil => exact ⟨[], by rw [List.append_nil, List.append_nil]⟩
  | cons node m ih =>
    obtain ⟨more, hMore⟩ := ih (n ++ [node])
    refine ⟨node.observer (observers n) :: more, ?_⟩
    rw [List.append_cons, hMore]
    simp only [observers, List.foldl_concat, List.append_assoc, List.singleton_append]

theorem length_observers (n : Network) : (observers n).length = n.length := by
  induction n using List.reverseRecOn with
  | nil => rfl
  | append_singleton n node ih =>
    rw [List.length_append, ← ih]
    simp only [observers, List.foldl_concat, List.length_append, List.length_singleton]

/-- A place of a network. -/
abbrev Place (n : Network) : Type := Fin n.length

variable (n : Network)

theorem length_observers_take (i : n.Place) : (observers (n.take i)).length = i := by
  rw [length_observers, List.length_take, Nat.min_eq_left i.isLt.le]

/-- The observer at a place. -/
def observer (i : n.Place) : Observer := (observers n).get (i.cast n.length_observers.symm)

/-- The places of the children, in their order; only a fan-out has any, and they come before it. -/
def children (i : n.Place) : List n.Place :=
  match n.get i with
  | .fanOut named =>
    named.filterMap fun j => if h : j < i.val then some ⟨j, h.trans i.isLt⟩ else none
  | .recorder | .log => []

/-- What the fan-out at a place finds where it looks for a child. -/
theorem getElem?_take_observers (i : n.Place) (j : ℕ) : (observers (n.take i))[j]? =
    (if h : j < i.val then some ⟨j, h.trans i.isLt⟩ else none : Option n.Place).map n.observer := by
  obtain ⟨more, hMore⟩ := exists_observers_append (n.take i) (n.drop i)
  rw [List.take_append_drop] at hMore
  have hLength := n.length_observers_take i
  split
  · next h =>
    have hGet : (observers n)[j]? = some (n.observer ⟨j, h.trans i.isLt⟩) :=
      List.getElem?_eq_getElem _
    rw [Option.map_some, ← hGet, hMore, List.getElem?_append_left (hLength.symm ▸ h)]
  · next h => exact List.getElem?_eq_none (hLength.trans_le (not_lt.mp h))

/-- The observer at a place is that of its node, over the observers before it. -/
theorem observer_eq_node (i : n.Place) :
    n.observer i = (n.get i).observer (observers (n.take i)) := by
  obtain ⟨more, hMore⟩ := exists_observers_append (n.take (i + 1)) (n.drop (i + 1))
  have hTake : n.take (i + 1) = n.take i ++ [n.get i] := List.take_succ_eq_append_getElem i.isLt
  have hLength := n.length_observers_take i
  have hStep : observers (n.take i ++ [n.get i]) =
      observers (n.take i) ++ [(n.get i).observer (observers (n.take i))] := by
    simp only [observers, List.foldl_concat]
  rw [List.take_append_drop, hTake, hStep] at hMore
  have hGet : (observers n)[i.val]? = some (n.observer i) := List.getElem?_eq_getElem _
  rw [hMore, List.append_assoc, List.getElem?_append_right hLength.le, hLength,
    Nat.sub_self] at hGet
  exact (Option.some.inj hGet).symm

theorem observer_of_recorder {i : n.Place} (h : n.get i = .recorder) :
    n.observer i = .recorder i := by
  rw [observer_eq_node, h, Node.observer, length_observers_take]

theorem observer_of_log {i : n.Place} (h : n.get i = .log) : n.observer i = .log := by
  rw [observer_eq_node, h, Node.observer]

theorem observer_of_fanOut {i : n.Place} {named : List ℕ} (h : n.get i = .fanOut named) :
    n.observer i = .fanOut ((n.children i).map n.observer) := by
  rw [observer_eq_node, h, Node.observer, children, h, List.map_filterMap]
  simp only [getElem?_take_observers]

/-! ## Paths -/

/-- The place that a path leads to; at every fan-out on the way it names a child by its position. -/
def follow (i : n.Place) : List ℕ → Option n.Place
  | [] => some i
  | k :: path => (n.children i)[k]?.bind fun j => follow j path

/-- What is delivered where a path ends. -/
inductive Ends (v : Violation) (j : n.Place) : Delivery → Prop
  | recorded (h : n.get j = .recorder) : Ends v j (.recorded j v)
  | logged (h : n.get j = .log) : Ends v j (.logged v)

variable {n} {v : Violation} {i : n.Place} {x : Delivery}

theorem children_of_recorder (h : n.get i = .recorder) : n.children i = [] := by
  rw [children, h]

theorem children_of_log (h : n.get i = .log) : n.children i = [] := by
  rw [children, h]

theorem ends_of_recorder (h : n.get i = .recorder) : n.Ends v i x ↔ x = .recorded i v := by
  constructor
  · rintro (_ | hLog)
    · rfl
    · rw [h] at hLog
      cases hLog
  · rintro rfl
    exact .recorded h

theorem ends_of_log (h : n.get i = .log) : n.Ends v i x ↔ x = .logged v := by
  constructor
  · rintro (hRecorder | _)
    · rw [h] at hRecorder
      cases hRecorder
    · rfl
  · rintro rfl
    exact .logged h

theorem not_ends_of_fanOut {named : List ℕ} (h : n.get i = .fanOut named) : ¬ n.Ends v i x := by
  rintro (hEnd | hEnd)
  · rw [h] at hEnd
    cases hEnd
  · rw [h] at hEnd
    cases hEnd

theorem mem_visits_nil_iff : ([], x) ∈ (n.observer i).visits v ↔ n.Ends v i x := by
  cases h : n.get i with
  | recorder =>
    rw [n.observer_of_recorder h, Observer.visits, List.mem_singleton, ends_of_recorder h,
      Prod.mk.injEq, eq_self, true_and]
  | log =>
    rw [n.observer_of_log h, Observer.visits, List.mem_singleton, ends_of_log h, Prod.mk.injEq,
      eq_self, true_and]
  | fanOut named =>
    rw [n.observer_of_fanOut h, Observer.visits, Observer.mem_childVisits_iff]
    refine iff_of_false ?_ (not_ends_of_fanOut h)
    rintro ⟨m, path, o, hPath, -⟩
    cases hPath

theorem mem_visits_cons_iff {k : ℕ} {path : List ℕ} :
    (k :: path, x) ∈ (n.observer i).visits v ↔
      ∃ j, (n.children i)[k]? = some j ∧ (path, x) ∈ (n.observer j).visits v := by
  cases h : n.get i with
  | recorder =>
    rw [n.observer_of_recorder h, Observer.visits, children_of_recorder h]
    simp
  | log =>
    rw [n.observer_of_log h, Observer.visits, children_of_log h]
    simp
  | fanOut named =>
    rw [n.observer_of_fanOut h, Observer.visits, Observer.mem_childVisits_iff]
    constructor
    · rintro ⟨m, p, o, hPath, ho, hMem⟩
      rw [Nat.zero_add] at hPath
      cases hPath
      rw [List.getElem?_map, Option.map_eq_some_iff] at ho
      obtain ⟨j, hj, rfl⟩ := ho
      exact ⟨j, hj, hMem⟩
    · rintro ⟨j, hj, hMem⟩
      refine ⟨k, path, n.observer j, by rw [Nat.zero_add], ?_, hMem⟩
      rw [List.getElem?_map, hj, Option.map_some]

/-- An observer is visited along the paths of the network, and along each of them. -/
theorem mem_visits_iff {path : List ℕ} : (path, x) ∈ (n.observer i).visits v ↔
    ∃ j, n.follow i path = some j ∧ n.Ends v j x := by
  induction path generalizing i with
  | nil =>
    rw [mem_visits_nil_iff]
    constructor
    · intro h
      exact ⟨i, rfl, h⟩
    · rintro ⟨j, ⟨⟩, h⟩
      exact h
  | cons k path ih =>
    rw [mem_visits_cons_iff]
    constructor
    · rintro ⟨j, hj, hMem⟩
      obtain ⟨e, hFollow, hEnds⟩ := ih.mp hMem
      exact ⟨e, by rw [follow, hj, Option.bind_some, hFollow], hEnds⟩
    · rintro ⟨e, hFollow, hEnds⟩
      rw [follow, Option.bind_eq_some_iff] at hFollow
      obtain ⟨j, hj, hRest⟩ := hFollow
      exact ⟨j, hj, ih.mpr ⟨e, hRest, hEnds⟩⟩

/-! ## Counting paths -/

/-- The paths that end with a delivery. -/
def pathsTo (n : Network) (v : Violation) (i : n.Place) (x : Delivery) : Set (List ℕ) :=
  {path | ∃ j, n.follow i path = some j ∧ n.Ends v j x}

theorem pathsTo_eq_toFinset : n.pathsTo v i x =
    ((((n.observer i).visits v).filter (·.2 = x)).map Prod.fst).toFinset := by
  ext path
  rw [List.coe_toFinset]
  refine mem_visits_iff.symm.trans ?_
  simp only [Set.mem_ofPred_eq, List.mem_map, List.mem_filter, decide_eq_true_eq, Prod.exists]
  constructor
  · intro h
    exact ⟨path, x, ⟨h, rfl⟩, rfl⟩
  · rintro ⟨_, _, ⟨h, rfl⟩, rfl⟩
    exact h

theorem finite_pathsTo : (n.pathsTo v i x).Finite := by
  rw [pathsTo_eq_toFinset]
  exact Finset.finite_toSet _

/-- There are as many paths to a delivery as it is made times, for every visit has its own path. -/
theorem count_deliveries : ((n.observer i).deliveries v).count x = (n.pathsTo v i x).ncard := by
  have hDistinct : (((n.observer i).visits v).filter (·.2 = x)).Pairwise (·.1 ≠ ·.1) := by
    refine ((Observer.pairwise_visits (n.observer i)).filter _).imp ?_
    intro a b hEarlier hSame
    rw [Observer.Earlier, hSame] at hEarlier
    exact List.lex_irrefl Nat.lt_irrefl _ hEarlier
  rw [pathsTo_eq_toFinset, Set.ncard_coe_finset,
    List.toFinset_card_of_nodup (List.pairwise_map.mpr hDistinct), List.length_map,
    ← Observer.map_snd_visits, List.count, List.countP_map, List.countP_eq_length_filter]
  rfl

/-- The paths from one place to another. -/
def paths (n : Network) (i j : n.Place) : Set (List ℕ) := {path | n.follow i path = some j}

/-- The paths from a place to the log. -/
def logPaths (n : Network) (i : n.Place) : Set (List ℕ) :=
  {path | ∃ j, n.get j = .log ∧ path ∈ n.paths i j}

theorem pathsTo_recorded {j : n.Place} (h : n.get j = .recorder) :
    n.pathsTo v i (.recorded j v) = n.paths i j := by
  ext path
  constructor
  · rintro ⟨k, hFollow, hEnds⟩
    generalize hx : Delivery.recorded j v = x at hEnds
    cases hEnds with
    | recorded _ =>
      obtain rfl := Fin.ext (Delivery.recorded.inj hx).1
      exact hFollow
    | logged _ => cases hx
  · intro hFollow
    exact ⟨j, hFollow, .recorded h⟩

theorem pathsTo_recorded_of_ne {id : ℕ} (h : ∀ j : n.Place, n.get j = .recorder → id ≠ j.val) :
    n.pathsTo v i (.recorded id v) = ∅ := by
  refine Set.eq_empty_iff_forall_notMem.mpr ?_
  rintro path ⟨k, -, hEnds⟩
  generalize hx : Delivery.recorded id v = x at hEnds
  cases hEnds with
  | recorded hRecorder => exact h k hRecorder (Delivery.recorded.inj hx).1
  | logged _ => cases hx

theorem pathsTo_logged : n.pathsTo v i (.logged v) = n.logPaths i := by
  ext path
  constructor
  · rintro ⟨j, hFollow, ⟨_⟩ | hLog⟩
    exact ⟨j, hLog, hFollow⟩
  · rintro ⟨j, hLog, hFollow⟩
    exact ⟨j, hFollow, .logged hLog⟩

/-- Any violation will do to find the paths. -/
theorem finite_paths {j : n.Place} (h : n.get j = .recorder) : (n.paths i j).Finite := by
  rw [← pathsTo_recorded (v := .plain .warning .mismatch "" "") h]
  exact finite_pathsTo

theorem finite_logPaths : (n.logPaths i).Finite := by
  rw [← pathsTo_logged (v := .plain .warning .mismatch "" "")]
  exact finite_pathsTo

end Network

/-! ## Records and the log -/

def Delivery.violation : Delivery → Violation
  | .logged v => v
  | .recorded _ v => v

mutual

/-- Whoever an observer tells is told of the violation itself. -/
theorem Observer.violation_of_mem {v : Violation} {x : Delivery} : {o : Observer} →
    x ∈ o.deliveries v → x.violation = v
  | .recorder _, h => by
    rw [deliveries] at h
    exact List.mem_singleton.mp h ▸ rfl
  | .log, h => by
    rw [deliveries] at h
    exact List.mem_singleton.mp h ▸ rfl
  | .fanOut _, h => by
    rw [deliveries] at h
    exact violation_of_mem_children h

theorem Observer.violation_of_mem_children {v : Violation} {x : Delivery} : {os : List Observer} →
    x ∈ childDeliveries v os → x.violation = v
  | [], h => by
    rw [childDeliveries] at h
    cases h
  | _ :: _, h => by
    rw [childDeliveries, List.mem_append] at h
    exact h.elim violation_of_mem violation_of_mem_children

end

section Records

variable {v : Violation} {deliveries : List Delivery}

theorem recordedBy_eq_replicate (h : ∀ x ∈ deliveries, x.violation = v) (id : ℕ) :
    recordedBy id deliveries = List.replicate (deliveries.count (.recorded id v)) v := by
  induction deliveries with
  | nil => rfl
  | cons x rest ih =>
    obtain ⟨rfl, hRest⟩ := List.forall_mem_cons.mp h
    cases x with
    | logged v =>
      rw [List.count_cons_of_ne (by simp), ← ih hRest]
      rfl
    | recorded i v =>
      by_cases hi : i = id
      · subst hi
        rw [Delivery.violation] at ih hRest ⊢
        rw [List.count_cons_self, List.replicate_succ, ← ih hRest]
        exact List.filterMap_cons_some (if_pos rfl)
      · rw [List.count_cons_of_ne (by simp [hi]), ← ih hRest]
        exact List.filterMap_cons_none (if_neg hi)

theorem logged_eq_replicate (h : ∀ x ∈ deliveries, x.violation = v) :
    logged deliveries = List.replicate (deliveries.count (.logged v)) v := by
  induction deliveries with
  | nil => rfl
  | cons x rest ih =>
    obtain ⟨rfl, hRest⟩ := List.forall_mem_cons.mp h
    cases x with
    | logged v =>
      rw [Delivery.violation] at ih hRest ⊢
      rw [List.count_cons_self, List.replicate_succ, ← ih hRest]
      rfl
    | recorded i v =>
      rw [List.count_cons_of_ne (by simp), ← ih hRest]
      rfl

end Records

theorem sublist_ofKind {kind : Kind} {l vs : List Violation} (hSub : l.Sublist vs)
    (hKind : ∀ v ∈ l, v.kind = kind) : l.Sublist (ofKind kind vs) := by
  have hAll : l.filter (fun v => v.kind = kind) = l :=
    List.filter_eq_self.mpr fun v hv => decide_eq_true (hKind v hv)
  rw [← hAll]
  exact hSub.filter _

theorem hasKind_iff {kind : Kind} {vs : List Violation} :
    hasKind kind vs = true ↔ ofKind kind vs ≠ [] := by
  rw [hasKind, List.any_eq_true, ofKind, ne_eq, List.filter_eq_nil_iff]
  push Not
  rfl

theorem length_ofKind_add (vs : List Violation) :
    (ofKind .mismatch vs).length + (ofKind .configuration vs).length = vs.length := by
  have hOther : ofKind .configuration vs = vs.filter fun v => !decide (v.kind = .mismatch) := by
    refine List.filter_congr fun v _ => ?_
    cases v.kind with
    | mismatch => rfl
    | configuration => rfl
  rw [hOther]
  exact (List.length_eq_length_filter_add _).symm

/-! ## Reports -/

namespace Network

variable (n : Network)

/-- What reports to places deliver, one report after the other. -/
def reported (reports : List (n.Place × Violation)) : List Delivery :=
  reports.flatMap fun r => deliver (some (n.observer r.1)) r.2

theorem recordedBy_reported (reports : List (n.Place × Violation)) (id : ℕ) :
    recordedBy id (n.reported reports) = reports.flatMap fun r =>
      List.replicate (n.pathsTo r.2 r.1 (.recorded id r.2)).ncard r.2 := by
  rw [recordedBy, reported, List.filterMap_flatMap]
  refine List.flatMap_congr fun r _ => ?_
  rw [← count_deliveries]
  exact recordedBy_eq_replicate (fun _ => Observer.violation_of_mem) id

theorem logged_report (i : n.Place) (v : Violation) :
    logged (deliver (some (n.observer i)) v) = List.replicate (n.logPaths i).ncard v := by
  rw [← pathsTo_logged (v := v), ← count_deliveries]
  exact logged_eq_replicate fun _ => Observer.violation_of_mem

/-- Violations are reported to places of a network, one after the other. The deliveries of a report
are made along all paths from its place to a recorder or the log, once along each and depth first.
So a recorder holds, report by report, the violation once for each path to it; nothing is recorded
elsewhere; and the log has an event for each path to the log. Of any record, the part of a kind is
the longest subsequence of violations of this kind, and the two parts together are as long as the
record. -/
theorem delivered_along_paths (reports : List (n.Place × Violation)) :
    (∀ i v, ∃ visits : List (List ℕ × Delivery),
      deliver (some (n.observer i)) v = visits.map Prod.snd ∧
      visits.Pairwise (fun a b => List.Lex (· < ·) a.1 b.1) ∧
      ∀ path x, (path, x) ∈ visits ↔ ∃ j, n.follow i path = some j ∧ n.Ends v j x) ∧
    (∀ j, n.get j = .recorder → (∀ i, (n.paths i j).Finite) ∧
      recordedBy j (n.reported reports) =
        reports.flatMap fun r => List.replicate (n.paths r.1 j).ncard r.2) ∧
    (∀ id : ℕ, (∀ j, n.get j = .recorder → id ≠ j.val) → recordedBy id (n.reported reports) = []) ∧
    ((∀ i, (n.logPaths i).Finite) ∧
      (reports.flatMap fun r => (Signal.raised (some (n.observer r.1)) r.2).events) =
        reports.flatMap fun r =>
          List.replicate (n.logPaths r.1).ncard (.ofViolation r.2)) ∧
    ∀ vs : List Violation,
      (∀ kind, (ofKind kind vs).Sublist vs ∧ (∀ v ∈ ofKind kind vs, v.kind = kind) ∧
        (∀ l : List Violation, l.Sublist vs → (∀ v ∈ l, v.kind = kind) →
          l.Sublist (ofKind kind vs)) ∧
        (hasKind kind vs = true ↔ ofKind kind vs ≠ [])) ∧
      (ofKind .mismatch vs).length + (ofKind .configuration vs).length = vs.length := by
  refine ⟨?_, ?_, ?_, ⟨?_, ?_⟩, ?_⟩
  · intro i v
    exact ⟨(n.observer i).visits v, ((n.observer i).map_snd_visits v).symm,
      (n.observer i).pairwise_visits, fun path x => mem_visits_iff⟩
  · intro j hj
    refine ⟨fun i => ?_, ?_⟩
    · exact finite_paths hj
    · rw [recordedBy_reported]
      refine List.flatMap_congr fun r _ => ?_
      rw [pathsTo_recorded hj]
  · intro id hNone
    rw [recordedBy_reported, List.flatMap_eq_nil_iff]
    intro r _
    rw [pathsTo_recorded_of_ne hNone, Set.ncard_empty, List.replicate_zero]
  · intro i
    exact finite_logPaths
  · refine List.flatMap_congr fun r _ => ?_
    rw [Signal.events, logged_report, List.map_replicate]
  · intro vs
    refine ⟨fun kind => ⟨List.filter_sublist, fun v hv => ?_, fun l => sublist_ofKind,
      hasKind_iff⟩, length_ofKind_add vs⟩
    exact of_decide_eq_true (List.mem_filter.mp hv).2

/-- The last fan-out names the other one twice, and both name the recorder: so there are five paths
to the recorder, and nothing is recorded at the place of the log. -/
theorem delivered_along_paths_shared :
    let n : Network := [.recorder, .log, .fanOut [0, 0, 1], .fanOut [2, 0, 2]]
    let bottom : n.Place := ⟨0, by decide⟩
    let top : n.Place := ⟨3, by decide⟩
    let v : Violation := .plain .critical .mismatch "first" "here"
    let w : Violation := .plain .error .configuration "second" "there"
    let reports : List (n.Place × Violation) := [(top, v), (bottom, w)]
    n.get bottom = .recorder ∧ (n.paths top bottom).ncard = 5 ∧
    (∀ j, n.get j = .recorder → 1 ≠ j.val) ∧ recordedBy 1 (n.reported reports) = [] ∧
    [w].Sublist [v, w] ∧ (∀ u ∈ [w], u.kind = .configuration) ∧
    [w].Sublist (ofKind .configuration [v, w]) := by
  intro n bottom top v w reports
  obtain ⟨-, hRecorded, -, -, hKinds⟩ := delivered_along_paths n [(top, v)]
  have hBottom : n.get bottom = .recorder := rfl
  have hCount : (n.paths top bottom).ncard = 5 := by
    have hLength := congrArg List.length (hRecorded bottom hBottom).2
    rw [List.flatMap_singleton, List.length_replicate] at hLength
    rw [← hLength]
    rfl
  have hLog : ∀ j, n.get j = .recorder → 1 ≠ j.val := by
    intro j hj hOne
    obtain rfl : j = ⟨1, by decide⟩ := Fin.ext hOne.symm
    cases hj
  have hSub : [w].Sublist [v, w] := List.sublist_append_right [v] [w]
  have hKind : ∀ u ∈ [w], u.kind = .configuration := List.forall_mem_singleton.mpr rfl
  obtain ⟨-, -, hLongest, -⟩ := (hKinds [v, w]).1 .configuration
  exact ⟨hBottom, hCount, hLog, (delivered_along_paths n reports).2.2.1 1 hLog, hSub, hKind,
    hLongest [w] hSub hKind⟩

end Network

end DivisionAudit
