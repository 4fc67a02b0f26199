/-
# A worker that sleeps until an alarm or a bell

A worker has items, each with a time that is left for it. It looks at them, sets an
alarm for no later than the least time that is left, and sleeps until the alarm goes
off or a bell has rung. Other threads add items at any time, between the look and the
alarm too, and ring the bell afterwards. The bell is counted and does not go silent
before the worker is awake.

An item that is added after the worker has looked is not covered by its alarm. Then
the bell has rung, or the thread that has added the item is about to ring it.
-/
import Golioth.CS.Transition
import Mathlib.Order.Bounds.Basic

namespace CS.Doorbell

inductive Phase
  | awake
  /-- It has looked at its items and has not set the alarm yet. -/
  | looked
  | asleep
  deriving DecidableEq, Repr

structure State (δ : Type*) where
  phase : Phase
  /-- The times left for the items, seen from when the worker looked. -/
  left : Set δ
  /-- What the worker has found to be the least of them. -/
  least : δ
  alarm : Option δ
  /-- How often the bell has rung since the worker heard it. -/
  bell : ℕ
  /-- How many threads have added an item and not yet rung the bell. -/
  ringing : ℕ

variable {δ : Type*} [LE δ]

inductive Step : State δ → State δ → Prop
  /-- What the worker finds is right unless the bell has rung in between. -/
  | look {s : State δ} {left : Set δ} {least : δ} {bell : ℕ} (hbell : s.bell ≤ bell)
      (hleast : s.bell < bell ∨ least ∈ lowerBounds left) :
      Step s { s with phase := .looked, left := left, least := least, bell := bell }
  | sleep {s : State δ} {delay : δ} (hphase : s.phase = .looked) (hdelay : delay ≤ s.least) :
      Step s { s with phase := .asleep, alarm := some delay }
  | add {s : State δ} (left : Set δ) {count : ℕ} (hcount : 0 < count) :
      Step s { s with left := left, ringing := s.ringing + count }
  | ring {s : State δ} (hringing : 0 < s.ringing) :
      Step s { s with ringing := s.ringing - 1, bell := s.bell + 1 }
  /-- The bell rings without an item, as it does for the alarm. -/
  | disturb {s : State δ} (alarm : Option δ) :
      Step s { s with alarm := alarm, bell := s.bell + 1 }
  /-- Anything at all, after which the worker is awake. -/
  | work {s t : State δ} (hphase : t.phase = .awake) : Step s t
  | stay {s : State δ} : Step s s

variable {s t : State δ}

/-! ## No item is slept through -/

/-- What the worker goes by is right, or the bell will tell it. -/
structure Covered (s : State δ) : Prop where
  least : s.phase ≠ .awake → s.bell = 0 → s.ringing = 0 → s.least ∈ lowerBounds s.left
  alarm : s.phase = .asleep → s.bell = 0 → ∃ delay, s.alarm = some delay ∧ delay ≤ s.least

theorem covered_of_awake (hphase : s.phase = .awake) : Covered s :=
  ⟨fun h => absurd hphase h, fun h => absurd (hphase.symm.trans h) (by decide)⟩

/-- While the bell rings, nothing needs to be covered. -/
theorem covered_of_bell (hbell : 0 < s.bell) : Covered s :=
  ⟨fun _ h => absurd h hbell.ne', fun _ h => absurd h hbell.ne'⟩

/-- **Step.** -/
theorem covered_step (hcovered : Covered s) (hstep : Step s t) : Covered t := by
  cases hstep with
  | @look _ _ bell hbell hleast =>
    refine ⟨fun _ hsilent _ => ?_, fun hphase => by cases hphase⟩
    -- a bell that is silent now has not rung during the look
    have hsilent : bell = 0 := hsilent
    exact hleast.resolve_left (by omega)
  | sleep hphase hdelay =>
    refine ⟨fun _ => hcovered.least ?_, fun _ _ => ⟨_, rfl, hdelay⟩⟩
    rw [hphase]
    decide
  | @add _ count hcount =>
    refine ⟨fun _ _ hringing => ?_, hcovered.alarm⟩
    have hringing : s.ringing + count = 0 := hringing
    omega
  | ring hringing => exact covered_of_bell (Nat.succ_pos _)
  | disturb alarm => exact covered_of_bell (Nat.succ_pos _)
  | work hphase => exact covered_of_awake hphase
  | stay => exact hcovered

/-- **No item is slept through.** A worker that is asleep, with nobody about to ring the bell
and the bell silent, has an alarm set that goes off before the time of any item is over. -/
theorem alarm_of_asleep {δ : Type*} [Preorder δ] {s : State δ} (hcovered : Covered s)
    (hphase : s.phase = .asleep) (hbell : s.bell = 0) (hringing : s.ringing = 0) :
    ∃ delay, s.alarm = some delay ∧ delay ∈ lowerBounds s.left := by
  obtain ⟨delay, halarm, hdelay⟩ := hcovered.alarm hphase hbell
  have hleast := hcovered.least (by rw [hphase]; decide) hbell hringing
  exact ⟨delay, halarm, fun _ hmem => hdelay.trans (hleast hmem)⟩

end CS.Doorbell
