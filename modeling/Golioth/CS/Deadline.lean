/-
# A worker that keeps a deadline

A worker has a deadline that it meets again and again: whenever it looks at the clock, it
moves the deadline to a time that is not over yet, or gives up its work. In between it
sleeps, until a bell rings. It has set an alarm for no later than the deadline, which rings
the bell when it goes off.

None of this happens at once: the alarm goes off, the worker wakes up when the bell rings,
and a worker that is awake gets to the next look at the clock, each within some slack. So a
deadline is missed by no more than four times the slack, as long as the worker works.
-/
import Golioth.CS.Transition
import Mathlib.Tactic.Linarith

namespace CS.Deadline

inductive Phase
  /-- It has given up its work, or not taken it up. -/
  | away
  /-- It has looked at the clock. -/
  | ready
  | asleep
  /-- It has been woken and has not looked at the clock since. -/
  | awake
  deriving DecidableEq, Repr

structure State (T : Type*) where
  phase : Phase
  due : T
  now : T
  /-- When the worker last looked at the clock or woke up. -/
  active : T
  /-- The time the alarm was last set for, and whether it is still to go off. -/
  alarm : T
  armed : Bool
  /-- When the bell last began to ring, and whether it rings. -/
  rung : T
  ringing : Bool

section Steps

variable {T : Type*} [CommRing T] [LinearOrder T]

/-- Time may pass up to `now`: nobody is late by more than the slack. -/
structure Prompt (slack : T) (s : State T) (now : T) : Prop where
  alarm : s.phase = .asleep → s.armed = true → now ≤ s.alarm + slack
  wake : s.phase = .asleep → s.ringing = true → now ≤ max s.active s.rung + slack
  work : s.phase = .ready ∨ s.phase = .awake → now ≤ s.active + slack

/-- No time passes, and the bell does not begin to ring. -/
structure Silent (s t : State T) : Prop where
  now : t.now = s.now
  rung : t.rung = s.rung

inductive Step (slack : T) (s t : State T) : Prop
  | pass (hle : s.now ≤ t.now) (hprompt : Prompt slack s t.now)
      (hrest : t = { s with now := t.now })
  | look (hsilent : Silent s t) (hphase : t.phase ≠ .asleep) (hactive : t.active = s.now)
      (hdue : s.now ≤ t.due)
  | sleep (hsilent : Silent s t) (hready : s.phase = .ready) (hphase : t.phase = .asleep)
      (hactive : t.active = s.now) (hdue : t.due = s.due) (hlater : s.now ≤ t.alarm)
      (halarm : t.alarm ≤ max s.due s.now) (harmed : t.armed = true)
  /-- The bell rings, for the alarm or for another reason. -/
  | ring (armed : Bool) (hkeep : armed = true → s.armed = true)
      (hrest : t = { s with
        armed := armed, ringing := true, rung := if s.ringing then s.rung else s.now })
  | wake (hsilent : Silent s t) (hasleep : s.phase = .asleep) (hphase : t.phase = .awake)
      (hactive : t.active = s.now) (hdue : t.due = s.due)
  | goOn (hsilent : Silent s t) (hphase : t.phase = s.phase) (hawake : s.phase ≠ .asleep)
      (hactive : t.active = s.active) (hdue : t.due = s.due)
  | leave (hsilent : Silent s t) (hphase : t.phase = .away) (hactive : t.active ≤ s.now)
  | stay (hrest : t = s)

variable {slack : T} {s t : State T}

/-! ## How late the worker is -/

/-- What holds of a worker that is asleep: the alarm goes off in time, and then the bell rings. -/
structure Sleeps (slack : T) (s : State T) : Prop where
  alarm_le : s.alarm ≤ s.due + slack
  active_le : s.active ≤ s.alarm
  woken : s.armed = true ∨ s.ringing = true
  armed : s.armed = true → s.now ≤ s.alarm + slack
  rung : s.ringing = true → s.rung ≤ s.alarm + slack ∧ s.now ≤ max s.active s.rung + slack

/-- What holds of a worker in any phase. -/
structure Punctual (slack : T) (s : State T) : Prop where
  active_le : s.active ≤ s.now
  rung_le : s.rung ≤ s.now
  ready : s.phase = .ready → s.active ≤ s.due ∧ s.now ≤ s.active + slack
  asleep : s.phase = .asleep → Sleeps slack s
  awake : s.phase = .awake → s.active ≤ s.due + 3 * slack ∧ s.now ≤ s.active + slack

theorem punctual_of_away (hphase : s.phase = .away) (hactive : s.active ≤ s.now)
    (hrung : s.rung ≤ s.now) : Punctual slack s where
  active_le := hactive
  rung_le := hrung
  ready h := by rw [hphase] at h; cases h
  asleep h := by rw [hphase] at h; cases h
  awake h := by rw [hphase] at h; cases h

theorem punctual_pass {now : T} (h : Punctual slack s) (hle : s.now ≤ now)
    (hprompt : Prompt slack s now) : Punctual slack { s with now := now } where
  active_le := h.active_le.trans hle
  rung_le := h.rung_le.trans hle
  ready hphase := ⟨(h.ready hphase).1, hprompt.work (.inl hphase)⟩
  asleep hphase :=
    { alarm_le := (h.asleep hphase).alarm_le
      active_le := (h.asleep hphase).active_le
      woken := (h.asleep hphase).woken
      armed := hprompt.alarm hphase
      rung := fun hringing =>
        ⟨((h.asleep hphase).rung hringing).1, hprompt.wake hphase hringing⟩ }
  awake hphase := ⟨(h.awake hphase).1, hprompt.work (.inr hphase)⟩

variable [IsStrictOrderedRing T]

/-- A worker that is asleep is woken up in time. -/
theorem Sleeps.now_le (h : Sleeps slack s) (hslack : 0 ≤ slack) : s.now ≤ s.due + 3 * slack := by
  have halarm := h.alarm_le
  have hactive := h.active_le
  -- either the alarm is still to go off, or the bell rings and the worker is about to wake up
  rcases h.woken with harmed | hringing
  · have hnow := h.armed harmed
    linarith
  · obtain ⟨hrung, hnow⟩ := h.rung hringing
    have hmax : max s.active s.rung ≤ s.alarm + slack := max_le (by linarith) hrung
    linarith

/-- **The deadline is kept.** -/
theorem Punctual.now_le (h : Punctual slack s) (hslack : 0 ≤ slack) (hphase : s.phase ≠ .away) :
    s.now ≤ s.due + 4 * slack := by
  cases hp : s.phase with
  | away => exact absurd hp hphase
  | ready =>
    obtain ⟨hactive, hnow⟩ := h.ready hp
    linarith
  | asleep =>
    have hnow := (h.asleep hp).now_le hslack
    linarith
  | awake =>
    obtain ⟨hactive, hnow⟩ := h.awake hp
    linarith

/-- The bell begins to ring before the alarm is late. -/
private theorem sleeps_ring (h : Sleeps slack s) (hslack : 0 ≤ slack) {armed : Bool}
    (hkeep : armed = true → s.armed = true) :
    Sleeps slack { s with
      armed := armed, ringing := true, rung := if s.ringing then s.rung else s.now } where
  alarm_le := h.alarm_le
  active_le := h.active_le
  woken := .inr rfl
  armed harmed := h.armed (hkeep harmed)
  rung _ := by
    cases hringing : s.ringing with
    | true => exact h.rung hringing
    | false =>
      -- it begins to ring now, and the alarm has not gone off yet
      have harmed := h.woken.resolve_right (by rw [hringing]; exact Bool.false_ne_true)
      exact ⟨h.armed harmed, (le_max_right _ _).trans (le_add_of_nonneg_right hslack)⟩

/-- The alarm is set in time. -/
private theorem sleeps_sleep (h : Punctual slack s) (hslack : 0 ≤ slack) (hsilent : Silent s t)
    (hready : s.phase = .ready) (hactive : t.active = s.now) (hdue : t.due = s.due)
    (hlater : s.now ≤ t.alarm) (halarm : t.alarm ≤ max s.due s.now) (harmed : t.armed = true) :
    Sleeps slack t := by
  -- the deadline was not over at the last look, and the worker has not taken long since
  obtain ⟨hlooked, hnow⟩ := h.ready hready
  have hrung := h.rung_le
  have hmax : max s.due s.now ≤ s.due + slack :=
    max_le (le_add_of_nonneg_right hslack) (by linarith)
  refine ⟨?_, ?_, .inl harmed, fun _ => ?_, fun _ => ⟨?_, ?_⟩⟩
  · rw [hdue]
    exact halarm.trans hmax
  · rw [hactive]
    exact hlater
  · rw [hsilent.now]
    linarith
  · rw [hsilent.rung]
    linarith
  · rw [hsilent.now, hactive]
    exact (le_max_left _ _).trans (le_add_of_nonneg_right hslack)

/-- **Step.** -/
theorem punctual_step (h : Punctual slack s) (hslack : 0 ≤ slack) (hstep : Step slack s t) :
    Punctual slack t := by
  have hrung : Silent s t → t.rung ≤ t.now := fun hsilent => by
    rw [hsilent.now, hsilent.rung]
    exact h.rung_le
  have hactive : Silent s t → t.active = s.now → t.active ≤ t.now ∧ t.now ≤ t.active + slack := by
    intro hsilent hactive
    rw [hactive, hsilent.now]
    exact ⟨le_rfl, le_add_of_nonneg_right hslack⟩
  cases hstep with
  | pass hle hprompt hrest => exact hrest ▸ punctual_pass h hle hprompt
  | look hsilent hphase hlooked hdue =>
    obtain ⟨hle, hnow⟩ := hactive hsilent hlooked
    refine ⟨hle, hrung hsilent, fun _ => ⟨?_, hnow⟩, fun hasleep => absurd hasleep hphase,
      fun _ => ⟨?_, hnow⟩⟩
    · rw [hlooked]
      exact hdue
    · rw [hlooked]
      linarith
  | sleep hsilent hready hphase hlooked hdue hlater halarm harmed =>
    exact ⟨(hactive hsilent hlooked).1, hrung hsilent, fun hp => (by rw [hphase] at hp; cases hp),
      fun _ => sleeps_sleep h hslack hsilent hready hlooked hdue hlater halarm harmed,
      fun hp => (by rw [hphase] at hp; cases hp)⟩
  | ring armed hkeep hrest =>
    subst hrest
    refine ⟨h.active_le, ?_, h.ready, fun hphase => sleeps_ring (h.asleep hphase) hslack hkeep,
      h.awake⟩
    show (if s.ringing then s.rung else s.now) ≤ s.now
    split
    · exact h.rung_le
    · exact le_rfl
  | wake hsilent hasleep hphase hwoken hdue =>
    obtain ⟨hle, hnow⟩ := hactive hsilent hwoken
    have hintime := (h.asleep hasleep).now_le hslack
    refine ⟨hle, hrung hsilent, fun hp => (by rw [hphase] at hp; cases hp),
      fun hp => (by rw [hphase] at hp; cases hp), fun _ => ⟨?_, hnow⟩⟩
    rw [hwoken, hdue]
    exact hintime
  | goOn hsilent hphase hawake hsame hdue =>
    refine ⟨?_, hrung hsilent, fun hp => ?_, fun hp => absurd (hphase.symm.trans hp) hawake,
      fun hp => ?_⟩
    · rw [hsame, hsilent.now]
      exact h.active_le
    · rw [hsame, hsilent.now, hdue]
      exact h.ready (hphase.symm.trans hp)
    · rw [hsame, hsilent.now, hdue]
      exact h.awake (hphase.symm.trans hp)
  | leave hsilent hphase hle => exact punctual_of_away hphase (hsilent.now ▸ hle) (hrung hsilent)
  | stay hrest => exact hrest ▸ h

end Steps

end CS.Deadline
