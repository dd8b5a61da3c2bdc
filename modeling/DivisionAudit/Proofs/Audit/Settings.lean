import DivisionAudit.Proofs.Audit.Failures

/-!
# What a draft is built from

A draft is set up by any number of settings in any order. Of each kind only the last one counts, and
an audit of a domain is built from three of them: its own sources, the observer and, where no
sources were set, the workload. The sources of the other domain have no part in it.

* `Setting`, `Draft.ofSettings`: settings, and the draft after a list of them.
* `last?`: the last setting of a kind.
* `Draft.view_ofSettings`: what a draft shows of its settings, by induction from the last one.
* `Draft.build_depends`: what an audit depends on.
-/

namespace DivisionAudit

/-! ## Settings -/

inductive Setting
  | workload (w : Workload)
  | sources (d : Domain) (l : List (Source d))
  | observer (o : Observer)

namespace Setting

def apply (b : Draft) : Setting → Draft
  | workload w => b.withWorkload w
  | sources _ l => b.withSources l
  | observer o => b.withObserver o

def workload? : Setting → Option Workload
  | workload w => some w
  | sources _ _ | observer _ => none

/-- The list, if it is one for the domain. -/
def sources? : Setting → (d : Domain) → Option (List (Source d))
  | sources .word l, .word => some l
  | sources .double l, .double => some l
  | _, _ => none

def observer? : Setting → Option Observer
  | observer o => some o
  | workload _ | sources _ _ => none

theorem workload_apply (b : Draft) (s : Setting) :
    some (s.apply b).workload = s.workload?.or (some b.workload) := by
  cases s with
  | workload w => rfl
  | sources d l => cases d <;> rfl
  | observer o => rfl

theorem sources?_apply (d : Domain) (b : Draft) (s : Setting) :
    (s.apply b).sources? d = (s.sources? d).or (b.sources? d) := by
  cases s with
  | workload w => cases d <;> rfl
  | sources d' l => cases d <;> cases d' <;> rfl
  | observer o => cases d <;> rfl

theorem observer_apply (b : Draft) (s : Setting) :
    (s.apply b).observer = s.observer?.or b.observer := by
  cases s with
  | workload w => rfl
  | sources d l => cases d <;> rfl
  | observer o => rfl

theorem sources?_of_ne {d d' : Domain} (h : d' ≠ d) (l : List (Source d')) :
    (sources d' l).sources? d = none := by
  cases d <;> cases d'
  · exact absurd rfl h
  · rfl
  · rfl
  · exact absurd rfl h

end Setting

/-- What the last of the settings says that say something of a part. -/
def last? {α : Type} (part : Setting → Option α) (settings : List Setting) : Option α :=
  (settings.filterMap part).getLast?

/-- A new draft after the settings, one after the other. -/
def Draft.ofSettings (settings : List Setting) : Draft := settings.foldl Setting.apply {}

/-! ## The last setting -/

section Last

variable {α : Type} (part : Setting → Option α)

theorem last?_concat (settings : List Setting) (s : Setting) :
    last? part (settings ++ [s]) = (part s).or (last? part settings) := by
  unfold last?
  rw [List.filterMap_append, List.getLast?_append]
  cases h : part s with
  | none => rw [List.filterMap_cons_none h, List.filterMap_nil, List.getLast?_nil]
  | some a => rw [List.filterMap_cons_some h, List.filterMap_nil, List.getLast?_singleton]

theorem last?_isSome_iff (settings : List Setting) :
    (last? part settings).isSome = true ↔ ∃ s ∈ settings, (part s).isSome = true := by
  rw [last?, List.getLast?_isSome, ne_eq, List.filterMap_eq_nil_iff]
  simp only [not_forall, exists_prop, Option.isSome_iff_ne_none, ne_eq]

/-- A setting that says nothing of a part makes no difference to it. -/
theorem last?_of_part_eq_none {s : Setting} (h : part s = none) (before after : List Setting) :
    last? part (before ++ s :: after) = last? part (before ++ after) := by
  unfold last?
  rw [List.filterMap_append, List.filterMap_cons_none h, List.filterMap_append]

end Last

/-! ## Drafts after settings -/

namespace Draft

variable {d : Domain}

theorem ofSettings_concat (settings : List Setting) (s : Setting) :
    ofSettings (settings ++ [s]) = s.apply (ofSettings settings) := List.foldl_concat _ _ _ _

/-- What every setting replaces, or leaves as it was, is at the end what the last one says. -/
theorem view_ofSettings {α : Type} (view : Draft → Option α) {part : Setting → Option α}
    (h : ∀ b s, view (s.apply b) = (part s).or (view b)) (settings : List Setting) :
    view (ofSettings settings) = (last? part settings).or (view {}) := by
  induction settings using List.reverseRecOn with
  | nil => rfl
  | append_singleton settings s ih =>
    rw [ofSettings_concat, h, ih, last?_concat, Option.or_assoc]

theorem workload_ofSettings (settings : List Setting) :
    (ofSettings settings).workload = (last? Setting.workload? settings).getD .full := by
  have hView := view_ofSettings (fun b => some b.workload) Setting.workload_apply settings
  rw [Option.or_some] at hView
  exact Option.some.inj hView

theorem sources?_ofSettings (settings : List Setting) (d : Domain) :
    (ofSettings settings).sources? d = last? (·.sources? d) settings := by
  have hView := view_ofSettings (·.sources? d) (Setting.sources?_apply d) settings
  have hNew : ({} : Draft).sources? d = none := by cases d <;> rfl
  rwa [hNew, Option.or_none] at hView

theorem observer_ofSettings (settings : List Setting) :
    (ofSettings settings).observer = last? Setting.observer? settings := by
  have hView := view_ofSettings Draft.observer Setting.observer_apply settings
  exact hView.trans Option.or_none

/-! ## Building -/

/-- Three parts of a draft go into an audit. -/
theorem build_congr {b b' : Draft} (hWorkload : b.workload = b'.workload)
    (hSources : b.sources? d = b'.sources? d) (hObserver : b.observer = b'.observer) :
    b.build d = b'.build d := by
  unfold build
  rw [hWorkload, hSources, hObserver]

theorem result_build_of_sources {b : Draft} {l : List (Source d)} (h : b.sources? d = some l) :
    (b.build d).result = if l.isEmpty then .error (.invalidConfiguration (emptyList d))
      else .ok ⟨l, b.observer⟩ := by
  unfold build
  rw [h]
  cases l with
  | nil => rfl
  | cons s rest => rfl

theorem result_build_of_workload {b : Draft} (h : b.sources? d = none) :
    (b.build d).result = (b.workload.sources d).result.map (⟨·, b.observer⟩) := by
  unfold build
  rw [h]
  cases hResult : (b.workload.sources d).result with
  | error fault => exact (Attempt.bind_of_error hResult _).1
  | ok sources => exact (Attempt.bind_of_ok hResult _).1

/-- Of any settings in any order, the last sources for a domain, the last observer and, where there
are no sources, the last workload make up an audit of the domain. Sources that were set are taken as
they are, whatever the workload is, and only an empty list of them is refused. The audit has the
last observer, and one at all exactly if one was set. Settings that agree in these three parts build
the same, with the same signals; and it makes no difference to leave out sources for the other
domain. -/
theorem build_depends (settings : List Setting) (d : Domain) :
    let attempt := (ofSettings settings).build d
    let observer := last? Setting.observer? settings
    (∀ l, last? (·.sources? d) settings = some l →
      attempt.result = if l.isEmpty then .error (.invalidConfiguration (emptyList d))
        else .ok ⟨l, observer⟩) ∧
    (last? (·.sources? d) settings = none →
      attempt.result =
        (((last? Setting.workload? settings).getD .full).sources d).result.map (⟨·, observer⟩)) ∧
    (∀ a, attempt.result = .ok a →
      a.observer = observer ∧ (a.observer.isSome = true ↔ ∃ o, .observer o ∈ settings)) ∧
    (∀ settings', last? Setting.workload? settings' = last? Setting.workload? settings →
      last? (·.sources? d) settings' = last? (·.sources? d) settings →
      last? Setting.observer? settings' = observer →
      (ofSettings settings').build d = attempt) ∧
    ∀ before d' l after, d' ≠ d → settings = before ++ .sources d' l :: after →
      (ofSettings (before ++ after)).build d = attempt := by
  intro attempt observer
  have hLast : (ofSettings settings).observer = observer := observer_ofSettings settings
  have hSame : ∀ settings', last? Setting.workload? settings' = last? Setting.workload? settings →
      last? (·.sources? d) settings' = last? (·.sources? d) settings →
      last? Setting.observer? settings' = observer →
      (ofSettings settings').build d = attempt := by
    intro settings' hWorkload hSources hObserver
    apply build_congr
    · rw [workload_ofSettings, workload_ofSettings, hWorkload]
    · rw [sources?_ofSettings, sources?_ofSettings, hSources]
    · rw [observer_ofSettings, observer_ofSettings, hObserver]
  refine ⟨?_, ?_, ?_, hSame, ?_⟩
  · intro l hSources
    rw [← sources?_ofSettings] at hSources
    rw [← hLast]
    exact result_build_of_sources hSources
  · intro hSources
    rw [← sources?_ofSettings] at hSources
    rw [← workload_ofSettings, ← hLast]
    exact result_build_of_workload hSources
  · intro a hOk
    have hObserver : a.observer = observer := (observer_of_build hOk).trans hLast
    refine ⟨hObserver, ?_⟩
    rw [hObserver]
    refine (last?_isSome_iff _ settings).trans ?_
    constructor
    · rintro ⟨s, hs, hPart⟩
      cases s with
      | observer o => exact ⟨o, hs⟩
      | workload w => cases hPart
      | sources d l => cases hPart
    · rintro ⟨o, ho⟩
      exact ⟨_, ho, rfl⟩
  · rintro before d' l after hDomain rfl
    apply hSame
    · exact (last?_of_part_eq_none _ rfl before after).symm
    · exact (last?_of_part_eq_none _ (Setting.sources?_of_ne hDomain l) before after).symm
    · exact (last?_of_part_eq_none _ rfl before after).symm

/-- The sources that count were set between two settings of the observer; a workload that cannot be
used and sources for the other domain have no part in the audit. -/
theorem build_depends_last_list :
    let unusable : Workload := { Workload.smoke with sweepCount := 0 }
    let before : List Setting := [.sources .word [], .observer (.recorder 1), .workload unusable]
    let after : List Setting := [.sources .word [.edges, .edges], .observer .log]
    let settings := before ++ .sources .double [] :: after
    last? (·.sources? .word) settings = some [.edges, .edges] ∧
    ((ofSettings settings).build .word).result = .ok ⟨[.edges, .edges], some .log⟩ ∧
    Domain.double ≠ .word ∧
    (ofSettings (before ++ after)).build .word = (ofSettings settings).build .word := by
  intro unusable before after settings
  have hSources : last? (·.sources? .word) settings = some [.edges, .edges] := rfl
  obtain ⟨hOwn, -, -, -, hOther⟩ := build_depends settings .word
  have hDomain : Domain.double ≠ .word := by decide
  exact ⟨hSources, hOwn _ hSources, hDomain, hOther before .double [] after hDomain rfl⟩

end Draft

end DivisionAudit
