/-
# Serial numbers and streams filtered by the last member accepted

Numbers that wrap around are compared on a circle: one is newer than another if
it lies ahead of it by less than half of the circle. On representatives the
comparison is a case distinction on the usual order.

A filter that compares each member of a stream with the last one accepted is
determined by its rule; a stream that goes with its decisions says what a run of
the filter did.
-/
import Mathlib.Data.Int.ModEq
import Mathlib.Data.List.Basic

namespace CS

namespace SerialNumber

variable {half u v : ℤ}

/-- How far `v` lies ahead of `u` on a circle of `2 * half` numbers. -/
def ahead (half u v : ℤ) : ℤ := (v - u) % (2 * half)

/-- `v` is newer than `u`. -/
def Newer (half u v : ℤ) : Prop := 0 < ahead half u v ∧ ahead half u v < half

instance (half u v : ℤ) : Decidable (Newer half u v) := by
  unfold Newer
  infer_instance

/-- The distance between two numbers below the modulus. -/
theorem ahead_eq (hu : 0 ≤ u) (hu' : u < 2 * half) (hv : 0 ≤ v) (hv' : v < 2 * half) :
    ahead half u v = if u ≤ v then v - u else v - u + 2 * half := by
  rw [ahead]
  split
  · exact Int.emod_eq_of_lt (by omega) (by omega)
  · rw [← Int.add_emod_right]
    exact Int.emod_eq_of_lt (by omega) (by omega)

/-- On representatives the comparison is two comparisons in the usual order. -/
theorem newer_iff (hu : 0 ≤ u) (hu' : u < 2 * half) (hv : 0 ≤ v) (hv' : v < 2 * half) :
    Newer half u v ↔ (u < v ∧ v - u < half) ∨ (v < u ∧ half < u - v) := by
  rw [Newer, ahead_eq hu hu' hv hv']
  split <;> omega

theorem not_newer_self (half u : ℤ) : ¬ Newer half u u := by
  rw [Newer, ahead, Int.sub_self, Int.zero_emod]
  omega

/-- No two numbers are newer than each other. -/
theorem Newer.asymm (h : Newer half u v) : ¬ Newer half v u := by
  rintro ⟨-, hback⟩
  obtain ⟨hpos, hlt⟩ := h
  have hsum : (ahead half u v + ahead half v u) % (2 * half) = 0 := by
    rw [ahead, ahead, ← Int.add_emod]
    simp
  have hback' : 0 ≤ ahead half v u := Int.emod_nonneg _ (by omega)
  rw [Int.emod_eq_of_lt (by omega) (by omega)] at hsum
  omega

end SerialNumber

namespace LastAccepted

variable {α : Type*} (rule : α → α → Bool)

/-- Whether a member is accepted after the last one accepted; the first always is. -/
def accepts : Option α → α → Bool
  | none, _ => true
  | some last, x => rule last x

/-- The last member accepted, once a decision on `x` was made. -/
def update (last : Option α) (x : α) (accepted : Bool) : Option α :=
  if accepted then some x else last

/-- The decisions that go with a stream are those of the rule. -/
def Decides : Option α → List (α × Bool) → Prop
  | _, [] => True
  | last, (x, accepted) :: rest =>
    accepted = accepts rule last x ∧ Decides (update last x accepted) rest

/-- The last member accepted by the end of a stream. -/
def lastAccepted : Option α → List (α × Bool) → Option α
  | last, [] => last
  | last, (x, accepted) :: rest => lastAccepted (update last x accepted) rest

variable {rule} {last : Option α} {xs ys : List (α × Bool)}

theorem decides_append :
    Decides rule last (xs ++ ys) ↔
      Decides rule last xs ∧ Decides rule (lastAccepted last xs) ys := by
  induction xs generalizing last with
  | nil => simp [Decides, lastAccepted]
  | cons x xs ih => simp only [List.cons_append, Decides, lastAccepted, ih, and_assoc]

/-- Once a member was accepted there is a last one. -/
theorem isSome_lastAccepted (h : last.isSome) : (lastAccepted last xs).isSome := by
  induction xs generalizing last with
  | nil => exact h
  | cons x xs ih =>
    refine ih ?_
    rw [update]
    split
    · rfl
    · exact h

/-- What the last member accepted before a stream has, and every member accepted in
it, the last member accepted by its end has. -/
theorem lastAccepted_of_accepted {p : α → Prop} (hlast : ∀ z ∈ last, p z)
    (hxs : ∀ x ∈ xs, x.2 = true → p x.1) : ∀ z ∈ lastAccepted last xs, p z := by
  induction xs generalizing last with
  | nil => exact hlast
  | cons x xs ih =>
    refine ih (fun z hz => ?_) fun x hmem => hxs x (List.mem_cons_of_mem _ hmem)
    rw [update] at hz
    split at hz
    · next haccepted =>
      obtain rfl := Option.some_inj.mp hz
      exact hxs x List.mem_cons_self haccepted
    · exact hlast z hz

/-- A member after an accepted one is compared with that one, or with one accepted
in between. -/
theorem Decides.after_accepted {x y : α × Bool} {before mid after : List (α × Bool)}
    (h : Decides rule last (before ++ x :: mid ++ y :: after)) (hx : x.2 = true) :
    y.2 = accepts rule (lastAccepted (some x.1) mid) y.1 := by
  rw [List.append_assoc, decides_append] at h
  obtain ⟨-, -, hrest⟩ := h
  rw [update, if_pos hx] at hrest
  exact (decides_append.mp hrest).2.1

end LastAccepted

end CS
