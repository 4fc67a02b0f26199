/-
# The descriptors of the pool

The descriptor of a socket goes through one variable of `sock_wrapper_create`, which has
three exits, and one field of a context, which is used again. To what the pool does with
its contexts there belongs a pool of slots: a context that is used is a slot that holds a
descriptor, until its socket is closed.
-/
import Golioth.CS.SlotPool
import Golioth.Sockets.PollWrapper

namespace Golioth.Sockets.PollWrapper

open CS
open CS.SlotPool (Slot Fate)

variable {n : ℕ} {families : List NetSocketRegister} {s s' : Pool n} {op : Op n}
  {ops : List (Op n)}

/-! ## Slots -/

/-- The slot a context is. -/
def WrapperContext.slot (w : WrapperContext) : Slot ℤ :=
  if w.isUsed = false then .free else if w.closing = .closed then .drained else .holds w.fd

/-- The slots of the contexts. -/
def Pool.slots (s : Pool n) (i : Fin n) : Slot ℤ := (s.contexts i).slot

/-- What an event is to the descriptor of a socket. -/
def Event.onDescriptor : Event n → Option (SlotPool.Event ℤ)
  | .opened fd => some (.acquired fd)
  | .passed fd => some (.passed fd)
  | .closed fd => some (.released fd)
  | _ => none

/-- What happened to the descriptors of sockets. -/
def Pool.trace (s : Pool n) : List (SlotPool.Event ℤ) := s.log.filterMap Event.onDescriptor

/-- A wrapper descriptor was returned. -/
def Event.isCreated : Event n → Bool
  | .created _ _ _ => true
  | _ => false

/-- The call that closes a wrapper descriptor returns. -/
def Op.isFree : Op n → Bool
  | .closeFree _ => true
  | _ => false

theorem slots_update (s : Pool n) (i : Fin n) (w : WrapperContext) (events : List (Event n)) :
    (s.update i w events).slots = Function.update s.slots i w.slot := by
  funext j
  by_cases hj : j = i
  · rw [hj, Function.update_self, Pool.slots, Pool.contexts_update_self]
  · rw [Function.update_of_ne hj, Pool.slots, Pool.contexts_update_of_ne s hj, Pool.slots]

/-- A context that stays the same slot. -/
theorem slots_update_same {i : Fin n} {w : WrapperContext} (hslot : w.slot = s.slots i)
    (events : List (Event n)) : (s.update i w events).slots = s.slots := by
  rw [slots_update, hslot, Function.update_eq_self]

theorem trace_update (s : Pool n) (i : Fin n) (w : WrapperContext) (events : List (Event n)) :
    (s.update i w events).trace = s.trace ++ events.filterMap Event.onDescriptor :=
  List.filterMap_append

theorem trace_emit (s : Pool n) (events : List (Event n)) :
    (s.emit events).trace = s.trace ++ events.filterMap Event.onDescriptor :=
  List.filterMap_append

/-- While a wrapper descriptor is being closed its context is used, and nothing else is done under
the lock. -/
structure Locked (s : Pool n) : Prop where
  used : ∀ i, (s.contexts i).closing ≠ .no → (s.contexts i).isUsed = true
  lock : ∀ i, (s.contexts i).closing ≠ .no → s.lock = some i

theorem locked_sockWrapperInit : Locked (sockWrapperInit : Pool n) :=
  ⟨fun _ hclosing => absurd rfl hclosing, fun _ hclosing => absurd rfl hclosing⟩

/-- What is done in a context that is not being closed, and not closed by it. -/
theorem Locked.update (h : Locked s) {i : Fin n} {w : WrapperContext} {events : List (Event n)}
    (hclosing : w.closing = (s.contexts i).closing)
    (hused : (s.contexts i).isUsed = true → w.isUsed = true) : Locked (s.update i w events) := by
  constructor
  · intro j hj
    by_cases hji : j = i
    · rw [hji, Pool.contexts_update_self] at hj ⊢
      rw [hclosing] at hj
      exact hused (h.used i hj)
    · rw [Pool.contexts_update_of_ne s hji] at hj ⊢
      exact h.used j hj
  · intro j hj
    by_cases hji : j = i
    · rw [hji, Pool.contexts_update_self, hclosing] at hj
      exact hji ▸ h.lock i hj
    · rw [Pool.contexts_update_of_ne s hji] at hj
      exact h.lock j hj

/-- What is done in the context that is being closed, which keeps the lock or gives it back. -/
theorem Locked.close (h : Locked s) {i : Fin n} {w : WrapperContext} {events : List (Event n)}
    {lock : Option (Fin n)} (hlock : ∀ j, s.lock = some j → j = i)
    (hused : w.closing ≠ .no → w.isUsed = true) (hheld : w.closing ≠ .no → lock = some i) :
    Locked { s.update i w events with lock := lock } := by
  have hothers : ∀ j, j ≠ i → (s.contexts j).closing = .no := by
    intro j hj
    by_contra hclosing
    exact hj (hlock j (h.lock j hclosing))
  constructor
  · intro j hj
    by_cases hji : j = i
    · subst hji
      have hself : (s.update j w events).contexts j = w := s.contexts_update_self j w events
      rw [hself] at hj ⊢
      exact hused hj
    · have hother := s.contexts_update_of_ne hji w events
      exact absurd ((congrArg WrapperContext.closing hother).trans (hothers j hji)) hj
  · intro j hj
    by_cases hji : j = i
    · subst hji
      have hself : (s.update j w events).contexts j = w := s.contexts_update_self j w events
      rw [hself] at hj
      exact hheld hj
    · have hother := s.contexts_update_of_ne hji w events
      exact absurd ((congrArg WrapperContext.closing hother).trans (hothers j hji)) hj

theorem locked_sockWrapperCreate (h : Locked s) {family type proto : ℕ} {answers : Answers} :
    Locked (sockWrapperCreate families family type proto answers s).2 := by
  unfold sockWrapperCreate
  dsimp only
  split
  · exact h
  · split
    · exact ⟨h.used, h.lock⟩
    · split
      · exact ⟨h.used, h.lock⟩
      · next i hfirst =>
        split
        · refine h.update rfl fun hused => ?_
          rw [isUsed_of_firstUnused hfirst] at hused
          cases hused
        · exact h.update rfl fun _ => rfl

theorem locked_step (h : Locked s) (hstep : Step families op s s') : Locked s' := by
  cases op with
  | create family type proto answers =>
    obtain ⟨-, hs'⟩ := Option.ite_none_right_eq_some.mp hstep
    obtain rfl := Option.some_inj.mp hs'
    exact locked_sockWrapperCreate h
  | pollPrepare i pollin pollout room =>
    obtain ⟨-, hs'⟩ := Option.ite_none_right_eq_some.mp hstep
    obtain rfl := Option.some_inj.mp hs'
    unfold sockWrapperPollPrepareCtx
    split_ifs <;> exact h.update rfl fun hused => hused
  | pollReady i =>
    obtain ⟨-, hs'⟩ := Option.ite_none_right_eq_some.mp hstep
    obtain rfl := Option.some_inj.mp hs'
    exact h.update rfl fun hused => hused
  | pollUpdate i =>
    obtain ⟨-, hs'⟩ := Option.ite_none_right_eq_some.mp hstep
    obtain rfl := Option.some_inj.mp hs'
    unfold sockWrapperPollUpdateCtx
    split <;> exact h.update rfl fun hused => hused
  | workStart i =>
    obtain ⟨-, hs'⟩ := Option.ite_none_right_eq_some.mp hstep
    obtain rfl := Option.some_inj.mp hs'
    exact h.update rfl fun hused => hused
  | workReturn i =>
    cases hrunning : (s.contexts i).running with
    | none =>
      rw [Step, perform, hrunning] at hstep
      cases hstep
    | some fd =>
      rw [Step, perform, hrunning] at hstep
      obtain rfl := Option.some_inj.mp hstep
      exact h.update rfl fun hused => hused
  | closeCancel i =>
    obtain ⟨⟨hused, -, -, hfree⟩, hs'⟩ := Option.ite_none_right_eq_some.mp hstep
    obtain rfl := Option.some_inj.mp hs'
    refine h.close (fun j hj => ?_) (fun _ => hused) fun _ => rfl
    rw [hfree] at hj
    cases hj
  | closeSocket i =>
    obtain ⟨hclosing, hs'⟩ := Option.ite_none_right_eq_some.mp hstep
    obtain rfl := Option.some_inj.mp hs'
    have hlock : s.lock = some i := h.lock i (by simp [hclosing])
    refine h.close (fun j hj => ?_) (fun _ => h.used i (by simp [hclosing])) fun _ => hlock
    exact (Option.some_inj.mp (hlock.symm.trans hj)).symm
  | closeFree i =>
    obtain ⟨⟨hclosing, -⟩, hs'⟩ := Option.ite_none_right_eq_some.mp hstep
    obtain rfl := Option.some_inj.mp hs'
    have hlock : s.lock = some i := h.lock i (by simp [hclosing])
    refine h.close (fun j hj => ?_) (fun hno => absurd rfl hno) fun hno => absurd rfl hno
    exact (Option.some_inj.mp (hlock.symm.trans hj)).symm

/-! ## The pool of slots -/

variable {may : ℤ → (Fin n → Slot ℤ) → Prop} {vacated : ℕ}

/-- The contexts are slots of a pool that some handles may come to; so many wrapper descriptors
were closed. -/
def Pool.Refines (may : ℤ → (Fin n → Slot ℤ) → Prop) (vacated : ℕ) (s : Pool n) : Prop :=
  SlotPool.Reached may s.trace (s.log.countP Event.isCreated) vacated s.slots

/-- Which descriptors a family may return. -/
def Comes (may : ℤ → (Fin n → Slot ℤ) → Prop) : Op n → Pool n → Prop
  | .create _ _ _ answers, s => may answers.fd s.slots
  | _, _ => True

theorem refines_sockWrapperInit : (sockWrapperInit : Pool n).Refines may 0 := SlotPool.Reached.init

/-- What is done in a context that stays the same slot. -/
theorem Pool.Refines.quiet (h : s.Refines may vacated) {i : Fin n} {w : WrapperContext}
    {events : List (Event n)} (hslot : w.slot = s.slots i)
    (hquiet : events.filterMap Event.onDescriptor = [])
    (hcreated : events.countP Event.isCreated = 0) : (s.update i w events).Refines may vacated := by
  have hlog : (s.update i w events).log.countP Event.isCreated = s.log.countP Event.isCreated := by
    rw [Pool.update, List.countP_append, hcreated, Nat.add_zero]
  rw [Pool.Refines, trace_update, hquiet, List.append_nil, slots_update_same hslot, hlog]
  exact h

/-- The descriptor a family returned. -/
theorem sockWrapperSocket_eq {family type proto : ℕ} {answers : Answers}
    (hfd : ¬ (sockWrapperSocket families family type proto answers).1 < 0) :
    (sockWrapperSocket families family type proto answers).1 = answers.fd := by
  unfold sockWrapperSocket at hfd ⊢
  split at hfd
  · exact absurd (by decide) hfd
  · rfl

/-- **Create.** The descriptor of the socket is passed on, or closed, or kept in a context. -/
theorem refines_sockWrapperCreate (hlocked : Locked s) (h : s.Refines may vacated)
    {family type proto : ℕ}
    {answers : Answers} (hmay : may answers.fd s.slots) :
    (sockWrapperCreate families family type proto answers s).2.Refines may vacated := by
  unfold sockWrapperCreate
  dsimp only
  split
  · exact h
  · next hopened =>
    rw [sockWrapperSocket_eq hopened]
    have hcreated (event : Event n) (hnot : event.isCreated = false) :
        (s.log ++ [.opened answers.fd, event]).countP Event.isCreated =
          s.log.countP Event.isCreated := by
      have hopen : (Event.opened answers.fd : Event n).isCreated = false := rfl
      simp [hopen, hnot]
    split
    · rw [Pool.Refines, trace_emit, Pool.emit, hcreated _ rfl]
      exact SlotPool.Reached.pass h hmay
    · split
      · rw [Pool.Refines, trace_emit, Pool.emit, hcreated _ rfl]
        exact SlotPool.Reached.refuse h hmay
      · next i hfirst =>
        have hunused := isUsed_of_firstUnused hfirst
        have hfree : s.slots i = .free := by rw [Pool.slots, WrapperContext.slot, if_pos hunused]
        split
        · -- the context is free again
          rw [Pool.Refines, slots_update_same (hfree ▸ if_pos rfl), trace_update, Pool.update,
            hcreated _ rfl]
          exact SlotPool.Reached.refuse h hmay
        · have hopen : (s.contexts i).closing ≠ .closed := by
            intro hclosed
            have hused := hlocked.used i (by simp [hclosed])
            rw [hunused] at hused
            cases hused
          have hlog : (s.log ++ ([.opened answers.fd, .created i answers.reservedFd answers.fd] :
              List (Event n))).countP Event.isCreated = s.log.countP Event.isCreated + 1 := by
            rw [List.countP_append]
            rfl
          rw [Pool.Refines, slots_update, trace_update, Pool.update, hlog]
          rw [WrapperContext.slot, if_neg (by simp), if_neg hopen]
          exact SlotPool.Reached.take h hmay hfree

/-- **Step.** -/
theorem refines_step (hlocked : Locked s) (h : s.Refines may vacated) (hcomes : Comes may op s)
    (hstep : Step families op s s') :
    s'.Refines may (vacated + if op.isFree then 1 else 0) := by
  cases op with
  | create family type proto answers =>
    obtain ⟨-, hs'⟩ := Option.ite_none_right_eq_some.mp hstep
    obtain rfl := Option.some_inj.mp hs'
    exact refines_sockWrapperCreate hlocked h hcomes
  | pollPrepare i pollin pollout room =>
    obtain ⟨-, hs'⟩ := Option.ite_none_right_eq_some.mp hstep
    obtain rfl := Option.some_inj.mp hs'
    refine h.quiet ?_ rfl rfl
    unfold sockWrapperPollPrepareCtx
    split_ifs <;> rfl
  | pollReady i =>
    obtain ⟨-, hs'⟩ := Option.ite_none_right_eq_some.mp hstep
    obtain rfl := Option.some_inj.mp hs'
    exact h.quiet rfl rfl rfl
  | pollUpdate i =>
    obtain ⟨-, hs'⟩ := Option.ite_none_right_eq_some.mp hstep
    obtain rfl := Option.some_inj.mp hs'
    refine h.quiet ?_ ?_ ?_
    · unfold sockWrapperPollUpdateCtx
      split <;> rfl
    · split <;> rfl
    · split <;> rfl
  | workStart i =>
    obtain ⟨-, hs'⟩ := Option.ite_none_right_eq_some.mp hstep
    obtain rfl := Option.some_inj.mp hs'
    exact h.quiet rfl rfl rfl
  | workReturn i =>
    cases hrunning : (s.contexts i).running with
    | none =>
      rw [Step, perform, hrunning] at hstep
      cases hstep
    | some fd =>
      rw [Step, perform, hrunning] at hstep
      obtain rfl := Option.some_inj.mp hstep
      exact h.quiet rfl rfl rfl
  | closeCancel i =>
    obtain ⟨⟨hused, -, hclosing, -⟩, hs'⟩ := Option.ite_none_right_eq_some.mp hstep
    obtain rfl := Option.some_inj.mp hs'
    -- still held: its socket is closed in the next step
    have hslot : ({ s.contexts i with queued := false, closing := .cancelled } : WrapperContext).slot =
        s.slots i := by
      simp [Pool.slots, WrapperContext.slot, hused, hclosing]
    exact h.quiet hslot rfl rfl
  | closeSocket i =>
    obtain ⟨hclosing, hs'⟩ := Option.ite_none_right_eq_some.mp hstep
    obtain rfl := Option.some_inj.mp hs'
    have hused := hlocked.used i (by simp [hclosing])
    have hholds : s.slots i = .holds (s.contexts i).fd := by
      simp [Pool.slots, WrapperContext.slot, hused, hclosing]
    have hlog : (s.log ++ ([.closed (s.contexts i).fd] : List (Event n))).countP Event.isCreated =
        s.log.countP Event.isCreated := by
      rw [List.countP_append]
      rfl
    have hslot : { s.contexts i with closing := .closed }.slot = .drained := by
      simp [WrapperContext.slot, hused]
    rw [Pool.Refines, slots_update, trace_update, Pool.update, hlog, hslot]
    exact SlotPool.Reached.drain h hholds
  | closeFree i =>
    obtain ⟨⟨hclosing, -⟩, hs'⟩ := Option.ite_none_right_eq_some.mp hstep
    obtain rfl := Option.some_inj.mp hs'
    have hused := hlocked.used i (by simp [hclosing])
    -- the one step that gives a context back
    have hdrained : s.slots i = .drained := by
      simp [Pool.slots, WrapperContext.slot, hused, hclosing]
    have hvacated := SlotPool.Reached.vacate h hdrained
    have hfreed : (s.update i (wrapperCtxFree { s.contexts i with closing := .no }) []).Refines may
        (vacated + 1) := by
      rw [Pool.Refines, slots_update, trace_update, Pool.update, List.filterMap_nil,
        List.append_nil, List.append_nil]
      exact hvacated
    exact hfreed

/-- **Run.** -/
theorem refines_run (hrun : Run (Guarded (Comes may) (Step families)) ops s s')
    (hlocked : Locked s) (h : s.Refines may vacated) :
    Locked s' ∧ s'.Refines may (vacated + ops.countP Op.isFree) := by
  induction hrun generalizing vacated with
  | nil s => exact ⟨hlocked, h⟩
  | cons hstep _ ih =>
    have hnext := ih (locked_step hlocked hstep.2) (refines_step hlocked h hstep.1 hstep.2)
    rwa [List.countP_cons, Nat.add_comm (List.countP _ _), ← Nat.add_assoc]

/-! ## Where the descriptors are -/

/-- How many contexts are used. -/
def Pool.usedContexts (s : Pool n) : ℕ := (Finset.univ.filter fun i => (s.contexts i).isUsed).card

/-- How many used contexts own a descriptor. -/
def Pool.owners (s : Pool n) (fd : ℤ) : ℕ :=
  (Finset.univ.filter fun i => (s.contexts i).isUsed ∧ (s.contexts i).fd = fd).card

/-- The descriptors that are owned by a used context. -/
def Pool.owned (s : Pool n) (i : Fin n) : Slot ℤ :=
  if (s.contexts i).isUsed then .holds (s.contexts i).fd else .free

/-- A family returns no descriptor that is open: none that a used context owns. -/
def FreshAtCreate : Op n → Pool n → Prop
  | .create _ _ _ answers, s => ∀ i, (s.contexts i).isUsed = true → (s.contexts i).fd ≠ answers.fd
  | _, _ => True

/-- As often as a descriptor was opened, it was passed on or closed, but for the contexts that own
it; and the contexts that are used are those of the wrapper descriptors that were returned and are
not closed. -/
structure Accounted (ops : List (Op n)) (s : Pool n) : Prop where
  descriptors : ∀ fd, s.trace.count (.acquired fd) =
    s.trace.count (.passed fd) + s.trace.count (.released fd) + s.owners fd
  wrappers : s.log.countP Event.isCreated = s.usedContexts + ops.countP Op.isFree

/-- Between the calls the slots are what the contexts own. -/
theorem slots_eq_owned (hlocked : Locked s) (hlock : s.lock = none) : s.slots = s.owned := by
  funext i
  have hopen : (s.contexts i).closing = .no := by
    by_contra hclosing
    have hheld := hlocked.lock i hclosing
    rw [hlock] at hheld
    cases hheld
  rw [Pool.slots, WrapperContext.slot, Pool.owned, if_neg (by simp [hopen] : ¬ _ = Closing.closed)]
  cases (s.contexts i).isUsed <;> rfl

theorem owned_eq_holds_iff {i : Fin n} {fd : ℤ} :
    s.owned i = .holds fd ↔ (s.contexts i).isUsed = true ∧ (s.contexts i).fd = fd := by
  rw [Pool.owned]
  split
  · next hused => simp [hused]
  · next hunused => simp [hunused]

theorem owned_ne_free_iff {i : Fin n} : s.owned i ≠ .free ↔ (s.contexts i).isUsed = true := by
  rw [Pool.owned]
  split
  · next hused => simp [hused]
  · next hunused => simp [hunused]

theorem accounted_of_refines {closed : ℕ} (hlocked : Locked s) (hlock : s.lock = none)
    (h : s.Refines may closed) (hclosed : closed = ops.countP Op.isFree) : Accounted ops s where
  descriptors fd := by
    have hbalanced := SlotPool.Reached.balanced h fd
    rw [slots_eq_owned hlocked hlock, SlotPool.count] at hbalanced
    simp only [owned_eq_holds_iff] at hbalanced
    exact hbalanced
  wrappers := by
    have hoccupied := SlotPool.Reached.occupied h
    rw [slots_eq_owned hlocked hlock, SlotPool.count] at hoccupied
    simp only [owned_ne_free_iff] at hoccupied
    rw [hclosed] at hoccupied
    exact hoccupied

/-- A call that fails takes no context. -/
theorem usedContexts_of_neg {family type proto : ℕ} {answers : Answers}
    (hfailed : (sockWrapperCreate families family type proto answers s).1 < 0) :
    (sockWrapperCreate families family type proto answers s).2.usedContexts = s.usedContexts := by
  unfold sockWrapperCreate at hfailed ⊢
  dsimp only at hfailed ⊢
  split at hfailed
  · next hnone => rw [if_pos hnone]
  · next hopened =>
    rw [if_neg hopened]
    split at hfailed
    · exact absurd hfailed hopened
    · next hoffloaded =>
      rw [if_neg hoffloaded]
      cases hfirst : s.firstUnused with
      | none => rfl
      | some i =>
        simp only [hfirst] at hfailed ⊢
        split at hfailed
        · next hunreserved =>
          rw [if_pos hunreserved, Pool.usedContexts, Pool.usedContexts]
          congr 2
          funext j
          by_cases hj : j = i
          · rw [hj, Pool.contexts_update_self, isUsed_of_firstUnused hfirst]
            rfl
          · rw [Pool.contexts_update_of_ne s hj]
        · next hreserved => exact absurd hfailed hreserved

private def checkFresh : Op n → Pool n → Bool
  | .create _ _ _ answers, s =>
    (List.finRange n).all fun i => !(s.contexts i).isUsed || (s.contexts i).fd ≠ answers.fd
  | _, _ => true

private theorem fresh_of_check (op : Op n) (s : Pool n) (hcheck : checkFresh op s = true) :
    FreshAtCreate op s := by
  cases op with
  | create family type proto answers =>
    intro i hused
    have hone := List.all_eq_true.mp hcheck i (List.mem_finRange i)
    rw [hused] at hone
    simpa using hone
  | _ => trivial

/-- The only context there is. -/
def onlyContext : Fin 1 := ⟨0, Nat.one_pos⟩

/-- With one context: a socket in it, a second one for which there is none, and after the first is
closed one for which no descriptor can be reserved, and another. -/
def reconnectRun : List (Op 1) :=
  [.create 1 2 17 ⟨5, none, 3⟩, .create 1 2 17 ⟨6, none, 4⟩, .closeCancel onlyContext,
    .closeSocket onlyContext, .closeFree onlyContext, .create 1 2 17 ⟨6, none, -1⟩,
    .create 1 2 17 ⟨5, none, 3⟩]

end Golioth.Sockets.PollWrapper
