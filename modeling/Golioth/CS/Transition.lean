/-
# Labelled transition systems and their runs

A transition system is a relation `step label before after`. A run is a finite
sequence of steps together with its labels. An invariant of the system is a
property of states that every step preserves; it holds in every state a run
reaches. A guard restricts the steps a run may take, by the label and the state
before the step, which is how a statement about well-behaved environments is
said.
-/
import Mathlib.Logic.Relation

namespace CS

/-- `Run step labels s t`: the steps named by `labels` lead from `s` to `t`. -/
inductive Run {ℓ σ : Type*} (step : ℓ → σ → σ → Prop) : List ℓ → σ → σ → Prop
  | nil (s : σ) : Run step [] s s
  | cons {label : ℓ} {labels : List ℓ} {s t u : σ} :
      step label s t → Run step labels t u → Run step (label :: labels) s u

/-- The steps of a system that a guard on the label and the state before allows. -/
def Guarded {ℓ σ : Type*} (guard : ℓ → σ → Prop) (step : ℓ → σ → σ → Prop) :
    ℓ → σ → σ → Prop :=
  fun label s t => guard label s ∧ step label s t

namespace Run

variable {ℓ σ : Type*} {step : ℓ → σ → σ → Prop} {labels rest : List ℓ} {s t u : σ}

@[simp] theorem nil_iff : Run step [] s t ↔ s = t :=
  ⟨fun h => by cases h; rfl, fun h => h ▸ .nil s⟩

theorem cons_iff {label : ℓ} :
    Run step (label :: labels) s u ↔ ∃ t, step label s t ∧ Run step labels t u :=
  ⟨fun h => by cases h with | cons hstep hrest => exact ⟨_, hstep, hrest⟩,
   fun ⟨_, hstep, hrest⟩ => .cons hstep hrest⟩

theorem append (first : Run step labels s t) (second : Run step rest t u) :
    Run step (labels ++ rest) s u := by
  induction first with
  | nil => exact second
  | cons hstep _ ih => exact .cons hstep (ih second)

theorem single {label : ℓ} (hstep : step label s t) : Run step [label] s t :=
  .cons hstep (.nil t)

theorem snoc {label : ℓ} (first : Run step labels s t) (hstep : step label t u) :
    Run step (labels ++ [label]) s u :=
  first.append (single hstep)

theorem split (h : Run step (labels ++ rest) s u) :
    ∃ t, Run step labels s t ∧ Run step rest t u := by
  induction labels generalizing s with
  | nil => exact ⟨s, .nil s, h⟩
  | cons label labels ih =>
    obtain ⟨t, hstep, htail⟩ := cons_iff.mp h
    obtain ⟨v, hfirst, hsecond⟩ := ih htail
    exact ⟨v, .cons hstep hfirst, hsecond⟩

/-- **Invariant rule.** What every step preserves holds at the end of a run
whose first state has it. -/
theorem invariant (inv : σ → Prop)
    (hpreserve : ∀ label s t, inv s → step label s t → inv t)
    (h : Run step labels s t) (hinit : inv s) : inv t := by
  induction h with
  | nil => exact hinit
  | cons hstep _ ih => exact ih (hpreserve _ _ _ hinit hstep)

/-- A relation between states that composes relates the ends of every run. -/
theorem rel {r : σ → σ → Prop} (hrefl : ∀ s, r s s)
    (htrans : ∀ {s t u}, r s t → r t u → r s u)
    (hstep : ∀ label s t, step label s t → r s t)
    (h : Run step labels s t) : r s t := by
  induction h with
  | nil s => exact hrefl s
  | cons hfirst _ ih => exact htrans (hstep _ _ _ hfirst) ih

theorem mono {step' : ℓ → σ → σ → Prop}
    (hmono : ∀ label s t, step label s t → step' label s t)
    (h : Run step labels s t) : Run step' labels s t := by
  induction h with
  | nil s => exact .nil s
  | cons hstep _ ih => exact .cons (hmono _ _ _ hstep) ih

/-- A guarded run is a run. -/
theorem of_guarded {guard : ℓ → σ → Prop} (h : Run (Guarded guard step) labels s t) :
    Run step labels s t :=
  h.mono fun _ _ _ hstep => hstep.2

/-- Carry out the steps of a system whose steps are a partial function. -/
def execute {ℓ σ : Type*} (f : ℓ → σ → Option σ) : List ℓ → σ → Option σ
  | [], s => some s
  | label :: labels, s => (f label s).bind (execute f labels)

theorem of_execute {f : ℓ → σ → Option σ} (h : execute f labels s = some t) :
    Run (fun label s t => f label s = some t) labels s t := by
  induction labels generalizing s with
  | nil =>
    obtain rfl := Option.some_inj.mp h
    exact .nil s
  | cons label labels ih =>
    obtain ⟨u, hstep, hrest⟩ := Option.bind_eq_some_iff.mp h
    exact .cons hstep (ih hrest)

/-- Carry out the steps of such a system as long as a check allows them. -/
def executeIf {ℓ σ : Type*} (check : ℓ → σ → Bool) (f : ℓ → σ → Option σ) :
    List ℓ → σ → Option σ
  | [], s => some s
  | label :: labels, s =>
    if check label s then (f label s).bind (executeIf check f labels) else none

theorem of_executeIf {check : ℓ → σ → Bool} {guard : ℓ → σ → Prop} {f : ℓ → σ → Option σ}
    (hcheck : ∀ label s, check label s = true → guard label s)
    (h : executeIf check f labels s = some t) :
    Run (Guarded guard fun label s t => f label s = some t) labels s t := by
  induction labels generalizing s with
  | nil =>
    obtain rfl := Option.some_inj.mp h
    exact .nil s
  | cons label labels ih =>
    rw [executeIf] at h
    split at h
    · next hallowed =>
      obtain ⟨u, hstep, hrest⟩ := Option.bind_eq_some_iff.mp h
      exact .cons ⟨hcheck label s hallowed, hstep⟩ (ih hrest)
    · cases h

end Run

/-- Some run leads from `s` to `t` all of whose labels have the property. -/
def RunOf {ℓ σ : Type*} (step : ℓ → σ → σ → Prop) (p : ℓ → Prop) (s t : σ) : Prop :=
  ∃ labels, Run step labels s t ∧ ∀ label ∈ labels, p label

namespace RunOf

variable {ℓ σ : Type*} {step : ℓ → σ → σ → Prop} {p q : ℓ → Prop} {s t u : σ}

theorem refl (s : σ) : RunOf step p s s := ⟨[], .nil s, by simp⟩

theorem single {label : ℓ} (hstep : step label s t) (hlabel : p label) :
    RunOf step p s t :=
  ⟨[label], .single hstep, by simpa using hlabel⟩

theorem trans (h : RunOf step p s t) (h' : RunOf step p t u) : RunOf step p s u := by
  obtain ⟨labels, hrun, hlabels⟩ := h
  obtain ⟨labels', hrun', hlabels'⟩ := h'
  refine ⟨labels ++ labels', hrun.append hrun', fun label hmem => ?_⟩
  exact (List.mem_append.mp hmem).elim (hlabels label) (hlabels' label)

theorem mono (hmono : ∀ label, p label → q label) (h : RunOf step p s t) :
    RunOf step q s t := by
  obtain ⟨labels, hrun, hlabels⟩ := h
  exact ⟨labels, hrun, fun label hmem => hmono label (hlabels label hmem)⟩

/-- An invariant of the steps whose labels have the property holds at the end. -/
theorem invariant (inv : σ → Prop)
    (hpreserve : ∀ label s t, p label → inv s → step label s t → inv t)
    (h : RunOf step p s t) (hinit : inv s) : inv t := by
  obtain ⟨labels, hrun, hlabels⟩ := h
  induction hrun with
  | nil => exact hinit
  | cons hstep _ ih =>
    exact ih (hpreserve _ _ _ (hlabels _ List.mem_cons_self) hinit hstep)
      fun label hmem => hlabels label (List.mem_cons_of_mem _ hmem)

/-- A relation that composes holds across the run if it holds across the steps whose
labels have the property. -/
theorem rel {r : σ → σ → Prop} (hrefl : ∀ s, r s s)
    (htrans : ∀ {s t u}, r s t → r t u → r s u)
    (hstep : ∀ label s t, p label → step label s t → r s t) (h : RunOf step p s t) : r s t := by
  obtain ⟨labels, hrun, hlabels⟩ := h
  induction hrun with
  | nil s => exact hrefl s
  | cons hfirst _ ih =>
    exact htrans (hstep _ _ _ (hlabels _ List.mem_cons_self) hfirst)
      (ih fun label hmem => hlabels label (List.mem_cons_of_mem _ hmem))

end RunOf

/-! ## Traces -/

/-- A system that remembers the labels of its steps, so that a guard can look at them. -/
def Traced {ℓ σ : Type*} (step : ℓ → σ → σ → Prop) : ℓ → σ × List ℓ → σ × List ℓ → Prop :=
  fun label s t => step label s.1 t.1 ∧ t.2 = s.2 ++ [label]

/-- The partial function of a system whose steps are one, with the labels remembered. -/
def tracing {ℓ σ : Type*} (f : ℓ → σ → Option σ) : ℓ → σ × List ℓ → Option (σ × List ℓ) :=
  fun label s => (f label s.1).map fun t => (t, s.2 ++ [label])

/-- Carrying out the steps a check allows is a run with the labels remembered. -/
theorem Run.of_executeIf_tracing {ℓ σ : Type*} {check : ℓ → σ × List ℓ → Bool}
    {guard : ℓ → σ × List ℓ → Prop} {f : ℓ → σ → Option σ} {labels : List ℓ} {s t : σ × List ℓ}
    (hcheck : ∀ label s, check label s = true → guard label s)
    (h : executeIf check (tracing f) labels s = some t) :
    Run (Guarded guard (Traced fun label s t => f label s = some t)) labels s t := by
  refine (of_executeIf hcheck h).mono fun label s t ⟨hguard, hstep⟩ => ⟨hguard, ?_⟩
  obtain ⟨u, hu, rfl⟩ := Option.map_eq_some_iff.mp hstep
  exact ⟨hu, rfl⟩

/-- A run of such a system remembers the labels it goes through. -/
theorem Run.trace_eq {ℓ σ : Type*} {step : ℓ → σ → σ → Prop} {guard : ℓ → σ × List ℓ → Prop}
    {labels : List ℓ} {s t : σ × List ℓ} (h : Run (Guarded guard (Traced step)) labels s t) :
    t.2 = s.2 ++ labels := by
  induction h with
  | nil => exact (List.append_nil _).symm
  | cons hstep _ ih => rw [ih, hstep.2.2, List.append_assoc, List.singleton_append]

/-- **Trace rule.** In a run that a guard on states and traces allows, a property of the
states holds before every step, and so does the guard, of the state and of the labels
of the steps taken so far. -/
theorem Run.guarded_traced {ℓ σ : Type*} {step : ℓ → σ → σ → Prop}
    {guard : ℓ → σ × List ℓ → Prop} (inv : σ → Prop)
    (hpreserve : ∀ label s t, inv s → step label s t → inv t) {labels before after : List ℓ}
    {label : ℓ} {s t : σ × List ℓ} (h : Run (Guarded guard (Traced step)) labels s t)
    (hinit : inv s.1) (hsplit : labels = before ++ label :: after) :
    ∃ u v, inv u ∧ step label u v ∧ guard label (u, s.2 ++ before) := by
  subst hsplit
  induction before generalizing s with
  | nil =>
    obtain ⟨u, ⟨hguard, hstep, -⟩, -⟩ := Run.cons_iff.mp h
    exact ⟨s.1, u.1, hinit, hstep, by simpa using hguard⟩
  | cons first before ih =>
    obtain ⟨u, ⟨-, hstep, htrace⟩, hrest⟩ := Run.cons_iff.mp h
    obtain ⟨v, w, hinv, hstep', hguard⟩ := ih (hpreserve _ _ _ hinit hstep) hrest
    rw [htrace, List.append_assoc] at hguard
    exact ⟨v, w, hinv, hstep', hguard⟩

/-- The states some run reaches from `init`. -/
def Reachable {ℓ σ : Type*} (step : ℓ → σ → σ → Prop) (init s : σ) : Prop :=
  ∃ labels, Run step labels init s

namespace Reachable

variable {ℓ σ : Type*} {step : ℓ → σ → σ → Prop} {init s t : σ}

theorem refl : Reachable step init init := ⟨[], .nil init⟩

theorem snoc {label : ℓ} (h : Reachable step init s) (hstep : step label s t) :
    Reachable step init t :=
  let ⟨labels, hrun⟩ := h
  ⟨labels ++ [label], hrun.snoc hstep⟩

theorem trans (h : Reachable step init s) (h' : Reachable step s t) : Reachable step init t :=
  let ⟨_, hrun⟩ := h
  let ⟨_, hrun'⟩ := h'
  ⟨_, hrun.append hrun'⟩

theorem invariant (inv : σ → Prop) (h : Reachable step init s) (hinit : inv init)
    (hpreserve : ∀ label s t, inv s → step label s t → inv t) : inv s :=
  let ⟨_, hrun⟩ := h
  hrun.invariant inv hpreserve hinit

end Reachable

end CS
