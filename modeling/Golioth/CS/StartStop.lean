/-
# A worker that is started and stopped by other threads

The worker waits until a semaphore is available, without taking it, and then
serves a session. A caller that wants it to stop takes the semaphore and raises a
flag; the worker looks at the flag from time to time, clears it, and ends its
session if it was raised. What is kept of such a system here is where the worker
stands, the semaphore, the flag and the callers that are on their way to raising
it.
-/
import Golioth.CS.Transition
import Mathlib.Data.List.DropRight
import Mathlib.Logic.Function.Basic

namespace CS.StartStop

inductive Phase
  /-- Outside of a session and not waiting. -/
  | away
  /-- Waiting for the semaphore, which was not available. -/
  | blocked
  | session
  /-- The flag has been seen and cleared; the session is about to end. -/
  | stopping
  deriving DecidableEq, Repr

/-- Where a caller that wants the worker to stop stands. -/
inductive Caller
  | idle
  /-- It has not yet taken the semaphore. -/
  | entered
  /-- It has not yet raised the flag. -/
  | taken
  deriving DecidableEq, Repr

structure State (τ : Type*) where
  phase : Phase
  permits : ℕ
  /-- The semaphore has been given while the worker was blocked. -/
  signalled : Bool
  flag : Bool
  callers : τ → Caller

inductive Op (τ : Type*)
  | give
  | block
  /-- The wait for the semaphore ends. -/
  | pass
  /-- The worker looks at the flag and clears it. -/
  | look
  /-- The session ends. -/
  | leave
  | enter (caller : τ)
  | take (caller : τ)
  | raise (caller : τ)
  /-- Anything else. -/
  | stay
  deriving DecidableEq, Repr

variable {τ : Type*}

inductive Step [DecidableEq τ] : Op τ → State τ → State τ → Prop
  | give {s : State τ} {permits : ℕ} (hpermits : 0 < permits) :
      Step .give s
        { s with permits := permits, signalled := s.signalled || s.phase = .blocked }
  | block {s : State τ} (hphase : s.phase = .away) : Step .block s { s with phase := .blocked }
  | pass {s : State τ}
      (havailable : s.phase = .away ∧ 0 < s.permits ∨ s.phase = .blocked ∧ s.signalled = true) :
      Step .pass s { s with phase := .session, signalled := false }
  | look {s : State τ} (hphase : s.phase = .session) :
      Step .look s { s with phase := if s.flag then .stopping else .session, flag := false }
  | leave {s : State τ} (hphase : s.phase = .session ∨ s.phase = .stopping) :
      Step .leave s { s with phase := .away }
  | enter {s : State τ} {caller : τ} (hcaller : s.callers caller = .idle) :
      Step (.enter caller) s { s with callers := Function.update s.callers caller .entered }
  | take {s : State τ} {caller : τ} (hcaller : s.callers caller = .entered) :
      Step (.take caller) s
        { s with
          permits := s.permits - 1
          callers := Function.update s.callers caller .taken }
  | raise {s : State τ} {caller : τ} (hcaller : s.callers caller = .taken) :
      Step (.raise caller) s
        { s with flag := true, callers := Function.update s.callers caller .idle }
  | stay {s : State τ} : Step .stay s s

variable {op : Op τ} {ops : List (Op τ)} {s t : State τ}

/-! ## No stop request is lost -/

/-- A session goes on without the semaphore only if some caller has raised the flag or
is about to. -/
structure Kept (s : State τ) : Prop where
  signalled : s.signalled = true → s.phase = .blocked
  raised : s.phase = .session ∨ s.signalled = true → s.permits = 0 →
    (∀ caller, s.callers caller ≠ .taken) → s.flag = true

theorem Kept.not_signalled (hkept : Kept s) (hphase : s.phase ≠ .blocked) :
    s.signalled = false :=
  Bool.eq_false_iff.mpr fun h => hphase (hkept.signalled h)

/-- **No lost request.** A worker in a session that lacks the semaphore, with no caller
about to raise the flag, has its flag raised. -/
theorem flag_of_session (hkept : Kept s) (hphase : s.phase = .session) (hpermits : s.permits = 0)
    (htaken : ∀ caller, s.callers caller ≠ .taken) : s.flag = true :=
  hkept.raised (.inl hphase) hpermits htaken

/-- Outside of a session nothing needs to be kept. -/
theorem kept_of_away (hphase : s.phase = .away) (hsignalled : s.signalled = false) : Kept s :=
  ⟨fun h => absurd h (by simp [hsignalled]), fun h => absurd h (by simp [hphase, hsignalled])⟩

variable [DecidableEq τ]

/-- The callers that have taken the semaphore are the same after a step of another one. -/
private theorem taken_of_update {caller : τ} {next : Caller}
    (hcaller : s.callers caller ≠ .taken)
    (h : ∀ other, Function.update s.callers caller next other ≠ .taken) (other : τ) :
    s.callers other ≠ .taken := by
  by_cases hother : other = caller
  · exact hother ▸ hcaller
  · simpa [Function.update_of_ne hother] using h other

theorem kept_step (hkept : Kept s) (hstep : Step op s t) : Kept t := by
  cases hstep with
  | give hpermits =>
    refine ⟨fun h => ?_, fun _ h => absurd h hpermits.ne'⟩
    exact (Bool.or_eq_true _ _ ▸ h).elim hkept.signalled of_decide_eq_true
  | block hphase =>
    have hsignalled := hkept.not_signalled (by simp [hphase])
    exact ⟨fun _ => rfl, fun h => absurd h (by simp [hsignalled])⟩
  | pass havailable =>
    refine ⟨fun h => absurd h (by simp), fun _ hpermits htaken => ?_⟩
    rcases havailable with ⟨-, hpos⟩ | ⟨-, hsignalled⟩
    · exact absurd hpermits hpos.ne'
    · exact hkept.raised (.inr hsignalled) hpermits htaken
  | look hphase =>
    have hsignalled := hkept.not_signalled (by simp [hphase])
    refine ⟨fun h => absurd h (by simp [hsignalled]), fun h hpermits htaken => ?_⟩
    -- the flag that is looked at is raised, so that the session does not go on
    have hflag := hkept.raised (.inl hphase) hpermits htaken
    simp [hflag, hsignalled] at h
  | leave hphase =>
    have hsignalled := hkept.not_signalled fun h => by simp [h] at hphase
    exact ⟨fun h => absurd h (by simp [hsignalled]), fun h => absurd h (by simp [hsignalled])⟩
  | enter hcaller =>
    refine ⟨hkept.signalled, fun h hpermits htaken => hkept.raised h hpermits ?_⟩
    exact taken_of_update (by simp [hcaller]) htaken
  | @take _ caller hcaller =>
    exact ⟨hkept.signalled, fun _ _ htaken => absurd (by simp) (htaken caller)⟩
  | raise hcaller => exact ⟨hkept.signalled, fun _ _ _ => rfl⟩
  | stay => exact hkept

/-- The flag stays raised until the worker looks at it. -/
theorem flag_step (hflag : s.flag = true) (hop : op ≠ .look) (hstep : Step op s t) :
    t.flag = true := by
  cases hstep with
  | look => exact absurd rfl hop
  | raise => rfl
  | give | block | pass | leave | enter | take | stay => exact hflag

/-- The semaphore is out of reach of the worker: it is not available, and no wait for it is
about to end. -/
structure Withheld (s : State τ) : Prop where
  permits : s.permits = 0
  signalled : s.signalled = false

theorem withheld_step (hwithheld : Withheld s) (hop : op ≠ .give) (hstep : Step op s t) :
    Withheld t := by
  cases hstep with
  | give => exact absurd rfl hop
  | pass => exact ⟨hwithheld.permits, rfl⟩
  | take => exact ⟨by simp [hwithheld.permits], hwithheld.signalled⟩
  | block | look | leave | enter | raise | stay => exact ⟨hwithheld.permits, hwithheld.signalled⟩

/-- Outside of a session, with the semaphore out of reach. -/
structure Idle (s : State τ) : Prop extends Withheld s where
  phase : s.phase = .away ∨ s.phase = .blocked

/-- A worker that is idle stays so until the semaphore is given. -/
theorem idle_step (hidle : Idle s) (hop : op ≠ .give) (hstep : Step op s t) : Idle t := by
  refine ⟨withheld_step hidle.toWithheld hop hstep, ?_⟩
  cases hstep with
  | give => exact absurd rfl hop
  | block => exact .inr rfl
  | pass havailable => simp [hidle.permits, hidle.signalled] at havailable
  | look hphase => exact absurd hidle.phase (by simp [hphase])
  | leave => exact .inl rfl
  | enter | take | raise | stay => exact hidle.phase

/-- After a session that ends with the semaphore out of reach, the worker is idle. -/
theorem idle_of_leave (hwithheld : Withheld s) (hstep : Step .leave s t) : Idle t := by
  refine ⟨withheld_step hwithheld (by simp) hstep, ?_⟩
  cases hstep
  exact .inl rfl

/-! ## Requests that outlive their session -/

section Trace

variable {ℓ : Type*} {passes gives : ℓ → Bool} {trace : List ℓ} {label : ℓ}

/-- The steps taken since the semaphore was last given before the wait for it that ended
last: those since the start the present session is due to. -/
def sinceAdmitted (passes gives : ℓ → Bool) (trace : List ℓ) : List ℓ :=
  (trace.rdropWhile fun label => !passes label).rtakeWhile (fun label => !gives label) ++
    trace.rtakeWhile fun label => !passes label

theorem sinceAdmitted_snoc (hlabel : passes label = false) :
    sinceAdmitted passes gives (trace ++ [label]) =
      sinceAdmitted passes gives trace ++ [label] := by
  rw [sinceAdmitted, List.rdropWhile_concat_pos _ _ _ (by simp [hlabel]),
    List.rtakeWhile_concat_pos _ _ _ (by simp [hlabel]), sinceAdmitted, List.append_assoc]

theorem sinceAdmitted_pass (hpasses : passes label = true) (hgives : gives label = false) :
    sinceAdmitted passes gives (trace ++ [label]) =
      (trace.rtakeWhile fun label => !gives label) ++ [label] := by
  have hadmitted : (trace ++ [label]).rdropWhile (fun label => !passes label) =
      trace ++ [label] := List.rdropWhile_concat_neg _ _ _ (by simp [hpasses])
  have hafter : (trace ++ [label]).rtakeWhile (fun label => !passes label) = [] :=
    List.rtakeWhile_concat_neg _ _ _ (by simp [hpasses])
  rw [sinceAdmitted, hadmitted, hafter, List.append_nil,
    List.rtakeWhile_concat_pos _ _ _ (by simp [hgives])]

theorem rtakeWhile_map {ℓ' : Type*} (f : ℓ → ℓ') (p : ℓ' → Bool) :
    (trace.map f).rtakeWhile p = (trace.rtakeWhile fun label => p (f label)).map f := by
  simp only [List.rtakeWhile, ← List.map_reverse, List.takeWhile_map]
  rfl

theorem sinceAdmitted_map {ℓ' : Type*} (f : ℓ → ℓ') (passes gives : ℓ' → Bool) :
    sinceAdmitted passes gives (trace.map f) =
      (sinceAdmitted (fun label => passes (f label)) (fun label => gives (f label)) trace).map
        f := by
  have hdrop : (trace.map f).rdropWhile (fun label => !passes label) =
      (trace.rdropWhile fun label => !passes (f label)).map f := by
    simp only [List.rdropWhile, ← List.map_reverse, List.dropWhile_map]
    rfl
  rw [sinceAdmitted, hdrop, rtakeWhile_map, rtakeWhile_map, sinceAdmitted, List.map_append]

end Trace

def Op.passes : Op τ → Bool
  | .pass => true
  | _ => false

def Op.gives : Op τ → Bool
  | .give => true
  | _ => false

/-- Some caller has entered among these steps. -/
def Entered (trace : List (Op τ)) : Prop := ∃ caller, Op.enter caller ∈ trace

omit [DecidableEq τ] in
theorem Entered.append (h : Entered ops) (rest : List (Op τ)) : Entered (ops ++ rest) :=
  let ⟨caller, hmem⟩ := h
  ⟨caller, List.mem_append_left _ hmem⟩

/-- The wait for the semaphore ends with no stop request left over: the flag is not raised and no
caller is about to raise it, unless one has entered since the semaphore was last given. -/
def Fresh : Op τ → State τ × List (Op τ) → Prop
  | .pass, (s, trace) =>
    s.flag = false ∧ (∀ caller, s.callers caller = .idle) ∨
      Entered (trace.rtakeWhile fun op => !op.gives)
  | _, _ => True

/-- Whatever may end the session is due to a caller that entered after the start the session
is due to. -/
structure Owned (s : State τ) (trace : List (Op τ)) : Prop where
  session : s.phase = .session → s.flag = true ∨ (∃ caller, s.callers caller ≠ .idle) →
    Entered (sinceAdmitted Op.passes Op.gives trace)
  stopping : s.phase = .stopping → Entered (sinceAdmitted Op.passes Op.gives trace)

omit [DecidableEq τ] in
theorem owned_of_away {trace : List (Op τ)} (hphase : s.phase = .away) : Owned s trace :=
  ⟨fun h => absurd h (by simp [hphase]), fun h => absurd h (by simp [hphase])⟩

theorem owned_step {trace : List (Op τ)} (howned : Owned s trace) (hfresh : Fresh op (s, trace))
    (hstep : Step op s t) : Owned t (trace ++ [op]) := by
  -- a step that is no pass only adds to the steps since the start
  have hgrow (hpasses : op.passes = false)
      (h : Entered (sinceAdmitted Op.passes Op.gives trace)) :
      Entered (sinceAdmitted Op.passes Op.gives (trace ++ [op])) := by
    rw [sinceAdmitted_snoc hpasses]
    exact h.append _
  cases hstep with
  | give =>
    exact ⟨fun hphase h => hgrow rfl (howned.session hphase h),
      fun hphase => hgrow rfl (howned.stopping hphase)⟩
  | block | leave => exact ⟨fun h _ => (by cases h), fun h => (by cases h)⟩
  | pass =>
    refine ⟨fun _ h => ?_, fun h => by cases h⟩
    rw [sinceAdmitted_pass rfl rfl]
    rcases hfresh with ⟨hflag, hidle⟩ | hentered
    · rcases h with h | ⟨caller, h⟩
      · exact absurd (hflag.symm.trans h) (by decide)
      · exact absurd (hidle caller) h
    · exact hentered.append _
  | look hphase =>
    refine ⟨fun _ h => ?_, fun h => ?_⟩
    · rcases h with h | h
      · cases h
      · exact hgrow rfl (howned.session hphase (.inr h))
    · refine hgrow rfl (howned.session hphase (.inl ?_))
      by_contra hflag
      simp [hflag] at h
  | @enter _ caller hcaller =>
    have hentered : Entered (sinceAdmitted Op.passes Op.gives (trace ++ [.enter caller])) := by
      rw [sinceAdmitted_snoc rfl]
      exact ⟨caller, by simp⟩
    exact ⟨fun _ _ => hentered, fun _ => hentered⟩
  | @take _ caller hcaller =>
    refine ⟨fun hphase _ => hgrow rfl (howned.session hphase (.inr ⟨caller, ?_⟩)),
      fun hphase => hgrow rfl (howned.stopping hphase)⟩
    simp [hcaller]
  | @raise _ caller hcaller =>
    refine ⟨fun hphase _ => hgrow rfl (howned.session hphase (.inr ⟨caller, ?_⟩)),
      fun hphase => hgrow rfl (howned.stopping hphase)⟩
    simp [hcaller]
  | stay =>
    exact ⟨fun hphase h => hgrow rfl (howned.session hphase h),
      fun hphase => hgrow rfl (howned.stopping hphase)⟩

end CS.StartStop
