/-
# Exponential back-off

A sender that hears nothing waits, and doubles its waiting time. Its deadlines,
counted from the first one, are apart by a first timeout, twice that, four times
that, and so on. When it looks at the clock it may find that several deadlines
have passed at once; it then goes on to the first one that has not.

The clock may have a fixed width. A difference of times is then known up to a
multiple of the modulus, and is the true difference as long as that is short.
-/
import Mathlib.Data.Int.ModEq
import Mathlib.Tactic.Ring

namespace CS.Backoff

/-! ## Deadlines -/

/-- The deadline after `k` waiting times, the first of which is `timeout`. -/
def deadline (start : ℤ) (timeout k : ℕ) : ℤ := start + (2 ^ k - 1) * timeout

variable {start : ℤ} {timeout : ℕ}

@[simp] theorem deadline_zero : deadline start timeout 0 = start := by simp [deadline]

theorem deadline_succ (k : ℕ) :
    deadline start timeout (k + 1) = deadline start timeout k + (2 ^ k * timeout : ℕ) := by
  rw [deadline, deadline]
  push_cast
  ring

theorem deadline_mono {j k : ℕ} (hle : j ≤ k) :
    deadline start timeout j ≤ deadline start timeout k := by
  induction hle with
  | refl => exact le_rfl
  | step _ ih =>
    rw [Nat.succ_eq_add_one, deadline_succ]
    omega

/-! ## Catching up -/

/-- The first of the stages from `stage` on, and at most `left` further ones, whose
deadline has not passed. -/
def next (deadline : ℕ → ℤ) (now : ℤ) : (left stage : ℕ) → Option ℕ
  | 0, stage => if now < deadline stage then some stage else none
  | left + 1, stage => if now < deadline stage then some stage else next deadline now left (stage + 1)

variable {deadline : ℕ → ℤ} {now : ℤ}

theorem next_of_lt {left stage : ℕ} (h : now < deadline stage) :
    next deadline now left stage = some stage := by
  cases left <;> exact if_pos h

theorem next_of_le {left stage : ℕ} (h : deadline stage ≤ now) :
    next deadline now (left + 1) stage = next deadline now left (stage + 1) :=
  if_neg (not_lt.mpr h)

theorem next_zero_of_le {stage : ℕ} (h : deadline stage ≤ now) :
    next deadline now 0 stage = none :=
  if_neg (not_lt.mpr h)

/-- The stage that is found is the first one whose deadline has not passed. -/
theorem next_eq_some {left stage k : ℕ} (h : next deadline now left stage = some k) :
    stage ≤ k ∧ k ≤ stage + left ∧ now < deadline k ∧ ∀ j, stage ≤ j → j < k → deadline j ≤ now := by
  induction left generalizing stage with
  | zero =>
    rw [next] at h
    split at h
    · next hlt =>
      obtain rfl := Option.some_inj.mp h
      exact ⟨le_rfl, le_rfl, hlt, fun j hle hlt => absurd hle (not_le.mpr hlt)⟩
    · cases h
  | succ left ih =>
    rw [next] at h
    split at h
    · next hlt =>
      obtain rfl := Option.some_inj.mp h
      exact ⟨le_rfl, Nat.le_add_right _ _, hlt, fun j hle hlt => absurd hle (not_le.mpr hlt)⟩
    · next hpassed =>
      obtain ⟨hstage, hbound, hlt, hbefore⟩ := ih h
      refine ⟨by omega, by omega, hlt, fun j hle hj => ?_⟩
      rcases hle.eq_or_lt with rfl | hnext
      · exact not_lt.mp hpassed
      · exact hbefore j hnext hj

/-- None is found if all deadlines have passed. -/
theorem next_eq_none {left stage : ℕ} (h : next deadline now left stage = none) :
    deadline (stage + left) ≤ now := by
  induction left generalizing stage with
  | zero =>
    rw [next] at h
    split at h
    · cases h
    · next hpassed => exact not_lt.mp hpassed
  | succ left ih =>
    rw [next] at h
    split at h
    · cases h
    · have hlast := ih h
      rwa [Nat.add_right_comm] at hlast

/-! ## Clocks of a fixed width -/

/-- The signed difference of two readings of a clock is the true one if that is
shorter than half of the modulus. -/
theorem bmod_eq_of_modEq {width : ℕ} (hwidth : 0 < width) {x y : ℤ}
    (h : x ≡ y [ZMOD (2 * width : ℕ)]) (hlow : -width ≤ y) (hhigh : y < width) :
    Int.bmod x (2 * width) = y := by
  refine (Int.bmod_eq_iff (by omega)).mpr ⟨?_, ?_, h.dvd⟩
  · push_cast
    omega
  · push_cast
    omega

end CS.Backoff
