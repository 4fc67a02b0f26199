/-
# Iterating over a list that the loop body may change

A loop over a linked list that reads the next element before it runs the body
may let the body unlink the current element and append new ones. The loop holds
two positions, the element it is about to visit and the one after it, and reads
a new second position only after the body has run. An element appended while
the last one is visited is therefore not visited in the same pass.

The state of the loop is arbitrary; the list is read off it. What composes holds
across a pass if it holds across each visit. A body that unlinks no element but
the one it visits, and appends none, visits every element once, in order; if it
unlinks each of them, the list is empty in the end.
-/
import Mathlib.Data.List.Nodup
import Golioth.CS.Transition

namespace CS.SafeIteration

variable {ρ S : Type*} [DecidableEq ρ]

/-- The element after `x` in a list. -/
def successor : List ρ → ρ → Option ρ
  | [], _ => none
  | y :: rest, x => if y = x then rest.head? else successor rest x

/-- Visit `current`, then `next`, then whatever follows `next` once `current`
has been visited. `none` is a loop that did not end within the given number of
visits, or whose body did not. -/
def visit (items : S → List ρ) (body : ρ → S → Option S) :
    ℕ → Option ρ → Option ρ → S → Option S
  | _, none, _, s => some s
  | 0, some _, _, _ => none
  | visits + 1, some current, next, s =>
    match body current s with
    | none => none
    | some s' => visit items body visits next (next.bind (successor (items s'))) s'

/-- One pass over the list, at most `visits` elements long. -/
def forEachSafe (items : S → List ρ) (body : ρ → S → Option S) (visits : ℕ) (s : S) :
    Option S :=
  visit items body visits (items s).head? ((items s).head?.bind (successor (items s))) s

section Relation

variable {items : S → List ρ} {body : ρ → S → Option S} {r : S → S → Prop}

private theorem visit_rel (hrefl : ∀ s, r s s) (htrans : ∀ {s t u}, r s t → r t u → r s u)
    (hbody : ∀ x s s', body x s = some s' → r s s') :
    ∀ (visits : ℕ) (current next : Option ρ) (s s' : S),
      visit items body visits current next s = some s' → r s s' := by
  intro visits
  induction visits with
  | zero =>
    intro current next s s' h
    cases current with
    | none => obtain rfl := Option.some_inj.mp h; exact hrefl s
    | some x => simp [visit] at h
  | succ visits ih =>
    intro current next s s' h
    cases current with
    | none => obtain rfl := Option.some_inj.mp h; exact hrefl s
    | some x =>
      rw [visit] at h
      cases hrun : body x s with
      | none => simp [hrun] at h
      | some t =>
        simp only [hrun] at h
        exact htrans (hbody x s t hrun) (ih _ _ _ _ h)

/-- A relation that composes holds across a pass if it holds across each visit. -/
theorem forEachSafe_rel (hrefl : ∀ s, r s s) (htrans : ∀ {s t u}, r s t → r t u → r s u)
    (hbody : ∀ x s s', body x s = some s' → r s s') {visits : ℕ} {s s' : S}
    (h : forEachSafe items body visits s = some s') : r s s' :=
  visit_rel hrefl htrans hbody visits _ _ s s' h

end Relation

section Drain

variable {items : S → List ρ} {body : ρ → S → Option S} {inv : S → Prop}

/-- A visit of the first element that takes it off the list, and nothing else. -/
structure TakesFirst (inv : S → Prop) (items : S → List ρ) (body : ρ → S → Option S)
    (x : ρ) (s s' : S) : Prop where
  inv : inv s
  items_eq : items s = x :: items s'
  visited : body x s = some s'

private theorem visit_drain
    (hbody : ∀ x s, inv s → (items s).head? = some x →
      ∃ s', inv s' ∧ TakesFirst inv items body x s s')
    (l : List ρ) :
    ∀ s, inv s → items s = l → ∃ s', inv s' ∧ items s' = [] ∧
      visit items body l.length l.head? (l.head?.bind (successor l)) s = some s' ∧
      Run (TakesFirst inv items body) l s s' := by
  induction l with
  | nil =>
    intro s hinv hitems
    exact ⟨s, hinv, hitems, rfl, .nil s⟩
  | cons x rest ih =>
    intro s hinv hitems
    obtain ⟨t, hinv', htakes⟩ := hbody x s hinv (by rw [hitems]; rfl)
    have hrest : items t = rest := by
      have h := htakes.items_eq
      rw [hitems] at h
      exact (List.cons.inj h).2.symm
    obtain ⟨s', hinv'', hempty, hvisit, hrun⟩ := ih t hinv' hrest
    refine ⟨s', hinv'', hempty, ?_, .cons htakes hrun⟩
    -- the second position is read off the list as it is after the visit
    have hsuccessor : successor (x :: rest) x = rest.head? := if_pos rfl
    rw [List.head?_cons, Option.bind_some, hsuccessor, List.length_cons, visit, htakes.visited]
    simp only [hrest]
    exact hvisit

/-- **Draining rule.** A pass whose body takes the first element off the list, and
changes the list in no other way, ends with the list empty, having visited the
elements in order. -/
theorem forEachSafe_drain
    (hbody : ∀ x s, inv s → (items s).head? = some x →
      ∃ s', inv s' ∧ TakesFirst inv items body x s s')
    {s : S} (hinv : inv s) :
    ∃ s', inv s' ∧ items s' = [] ∧ forEachSafe items body (items s).length s = some s' ∧
      Run (TakesFirst inv items body) (items s) s s' :=
  visit_drain hbody (items s) s hinv rfl

end Drain

section Sweep

variable {items : S → List ρ} {body : ρ → S → Option S} {inv : List ρ → S → Prop}

/-- The element after one that is visited is the first of those that are left. -/
theorem successor_of_suffix {y : ρ} {rest : List ρ} :
    ∀ {l : List ρ}, l.Nodup → (y :: rest) <:+ l → successor l y = rest.head?
  | [], _, h => by simp at h
  | z :: l, hnodup, h => by
    rw [successor]
    rcases List.suffix_cons_iff.mp h with heq | hsuffix
    · obtain ⟨rfl, rfl⟩ := List.cons.inj heq
      rw [if_pos rfl]
    · have hmem : y ∈ l := hsuffix.subset List.mem_cons_self
      have hne : z ≠ y := fun hzy => (List.nodup_cons.mp hnodup).1 (hzy ▸ hmem)
      rw [if_neg hne]
      exact successor_of_suffix (List.nodup_cons.mp hnodup).2 hsuffix

private theorem next_of_suffix {todo l : List ρ} (hnodup : l.Nodup) (hsuffix : todo <:+ l) :
    todo.head?.bind (successor l) = todo.tail.head? := by
  cases todo with
  | nil => rfl
  | cons x todo => exact successor_of_suffix hnodup hsuffix

/-- **Sweeping rule.** A body that unlinks no element but the one it visits, and appends none,
is run for every element in order: what it establishes of the elements that are left is in the
end established of none being left. -/
theorem forEachSafe_sweep
    (hitems : ∀ todo s, inv todo s → (items s).Nodup ∧ todo <:+ items s)
    (hbody : ∀ x todo s s', inv (x :: todo) s → body x s = some s' → inv todo s')
    {visits : ℕ} {s s' : S} (hinv : inv (items s) s)
    (h : forEachSafe items body visits s = some s') : inv [] s' := by
  suffices hvisit : ∀ (visits : ℕ) (todo : List ρ) (s s' : S), inv todo s →
      visit items body visits todo.head? todo.tail.head? s = some s' → inv [] s' by
    have hstart := hitems _ s hinv
    rw [forEachSafe, next_of_suffix hstart.1 hstart.2] at h
    exact hvisit visits _ s s' hinv h
  intro visits
  induction visits with
  | zero =>
    intro todo s s' hinv h
    cases todo with
    | nil => obtain rfl := Option.some_inj.mp h; exact hinv
    | cons x todo => simp [visit] at h
  | succ visits ih =>
    intro todo s s' hinv h
    cases todo with
    | nil => obtain rfl := Option.some_inj.mp h; exact hinv
    | cons x todo =>
      rw [List.head?_cons, visit] at h
      cases hrun : body x s with
      | none => simp [hrun] at h
      | some t =>
        simp only [hrun] at h
        have hinv' := hbody x todo s t hinv hrun
        obtain ⟨hnodup, hsuffix⟩ := hitems todo t hinv'
        rw [List.tail_cons, next_of_suffix hnodup hsuffix] at h
        exact ih todo t s' hinv' h

/-- **Sweeping rule** with a way out. A body that may also do something else, which is not undone
in the rest of the pass, has done it in the end if it has not swept the list. -/
theorem forEachSafe_sweep_or {escaped : S → Prop}
    (hescaped : ∀ x s s', escaped s → body x s = some s' → escaped s')
    (hitems : ∀ todo s, inv todo s → (items s).Nodup ∧ todo <:+ items s)
    (hbody : ∀ x todo s s', inv (x :: todo) s → body x s = some s' → escaped s' ∨ inv todo s')
    {visits : ℕ} {s s' : S} (hinv : inv (items s) s)
    (h : forEachSafe items body visits s = some s') : escaped s' ∨ inv [] s' := by
  suffices hvisit : ∀ (visits : ℕ) (todo : List ρ) (s s' : S), inv todo s →
      visit items body visits todo.head? todo.tail.head? s = some s' → escaped s' ∨ inv [] s' by
    have hstart := hitems _ s hinv
    rw [forEachSafe, next_of_suffix hstart.1 hstart.2] at h
    exact hvisit visits _ s s' hinv h
  intro visits
  induction visits with
  | zero =>
    intro todo s s' hinv h
    cases todo with
    | nil => obtain rfl := Option.some_inj.mp h; exact .inr hinv
    | cons x todo => simp [visit] at h
  | succ visits ih =>
    intro todo s s' hinv h
    cases todo with
    | nil => obtain rfl := Option.some_inj.mp h; exact .inr hinv
    | cons x todo =>
      rw [List.head?_cons, visit] at h
      cases hrun : body x s with
      | none => simp [hrun] at h
      | some t =>
        simp only [hrun] at h
        rcases hbody x todo s t hinv hrun with hout | hinv'
        · -- whatever is visited from here on
          exact .inl (visit_rel (r := fun s t => escaped s → escaped t) (fun _ => id)
            (fun h h' => h' ∘ h) (fun x s t hrun hout => hescaped x s t hout hrun) _ _ _ t s' h hout)
        · obtain ⟨hnodup, hsuffix⟩ := hitems todo t hinv'
          rw [List.tail_cons, next_of_suffix hnodup hsuffix] at h
          exact ih todo t s' hinv' h

/-- Such a pass ends after as many visits as there are elements, if its body always does. -/
theorem forEachSafe_sweep_total
    (hitems : ∀ todo s, inv todo s → (items s).Nodup ∧ todo <:+ items s)
    (hbody : ∀ x todo s, inv (x :: todo) s → ∃ s', body x s = some s' ∧ inv todo s')
    {s : S} (hinv : inv (items s) s) :
    ∃ s', forEachSafe items body (items s).length s = some s' := by
  suffices hvisit : ∀ (todo : List ρ) (s : S), inv todo s →
      ∃ s', visit items body todo.length todo.head? todo.tail.head? s = some s' by
    have hstart := hitems _ s hinv
    rw [forEachSafe, next_of_suffix hstart.1 hstart.2]
    exact hvisit _ s hinv
  intro todo
  induction todo with
  | nil => exact fun s _ => ⟨s, rfl⟩
  | cons x todo ih =>
    intro s hinv
    obtain ⟨t, hrun, hinv'⟩ := hbody x todo s hinv
    obtain ⟨hnodup, hsuffix⟩ := hitems todo t hinv'
    obtain ⟨s', hvisit⟩ := ih t hinv'
    refine ⟨s', ?_⟩
    rw [List.length_cons, List.head?_cons, visit, hrun]
    simp only [List.tail_cons, next_of_suffix hnodup hsuffix]
    exact hvisit

end Sweep

end CS.SafeIteration
