/-
# Sockets polled by a helper thread

A socket of an offloaded family cannot be waited for together with other objects. The
wrapper gives it a context with a helper thread: a poll of the wrapper's descriptor has
the helper poll the socket, and waits for a signal that the helper raises when this
returns. Contexts are used again. The signal is lowered in one place only, where a poll
reports it; and closing a socket wakes the helper, which raises the signal on its way
out. A signal that is left raised is what the next socket in the context finds.

The helper runs at any time in between the calls: when it starts, and when the poll of
the socket returns, are steps of their own.
-/
import Golioth.CS.Ownership
import Golioth.CS.Transition
import Golioth.Platform

namespace Golioth.Sockets.PollWrapper

open CS

/-! ## Contexts -/

/-- A poll of a wrapper descriptor: whether `ZSOCK_POLLIN` was asked for, and whether the
poll event of the signal is ready. -/
inductive Poll
  | none
  | waiting (pollin ready : Bool)
  deriving DecidableEq

/-- How far closing a wrapper descriptor has come. -/
inductive Closing
  | no
  | cancelled
  | closed
  deriving DecidableEq

/-- `struct wrapper_context`, with the poll and the close that go on. Of the signal it is
whether it is raised; of the work item, whether it is queued, and the descriptor its
handler is polling while it runs. -/
structure WrapperContext where
  fd : ℤ
  myFd : ℤ
  isUsed : Bool
  pollSignal : Bool
  queued : Bool
  running : Option ℤ
  poll : Poll
  closing : Closing
  deriving DecidableEq

/-- What happens to the descriptors. -/
inductive Event (n : ℕ)
  /-- A family returned a descriptor. -/
  | opened (fd : ℤ)
  /-- A descriptor of a family is passed to `zsock_close`. -/
  | closed (fd : ℤ)
  /-- A descriptor is returned to the caller as it is. -/
  | passed (fd : ℤ)
  /-- A wrapper descriptor is returned, for a socket in a context. -/
  | created (i : Fin n) (myFd fd : ℤ)
  /-- The threaded poll of a socket returned. -/
  | returned (i : Fin n) (fd : ℤ)
  /-- A poll of a wrapper descriptor reports `ZSOCK_POLLIN`. -/
  | reported (i : Fin n) (myFd : ℤ)
  deriving DecidableEq

/-- The contexts, the context whose closing holds `wrapper_lock`, and what happened. -/
structure Pool (n : ℕ) where
  contexts : Fin n → WrapperContext
  lock : Option (Fin n)
  log : List (Event n)

variable {n : ℕ}

/-- Static memory after `sock_wrapper_init`. -/
def sockWrapperInit : Pool n where
  contexts _ :=
    { fd := 0, myFd := 0, isUsed := false, pollSignal := false, queued := false, running := none
      poll := .none, closing := .no }
  lock := none
  log := []

namespace Pool

/-- Write to a context, and record events. -/
def update (s : Pool n) (i : Fin n) (w : WrapperContext) (events : List (Event n)) : Pool n :=
  { s with contexts := Function.update s.contexts i w, log := s.log ++ events }

@[simp] theorem contexts_update_self (s : Pool n) (i : Fin n) (w : WrapperContext)
    (events : List (Event n)) : (s.update i w events).contexts i = w := by
  simp only [update, Function.update_self]

theorem contexts_update_of_ne (s : Pool n) {i j : Fin n} (hne : j ≠ i) (w : WrapperContext)
    (events : List (Event n)) : (s.update i w events).contexts j = s.contexts j := by
  simp only [update, Function.update_of_ne hne]

/-- Record events. -/
def emit (s : Pool n) (events : List (Event n)) : Pool n := { s with log := s.log ++ events }

/-- The first context that is not used. -/
def firstUnused (s : Pool n) : Option (Fin n) :=
  (List.finRange n).find? fun i => !(s.contexts i).isUsed

end Pool

/-! ## Creating -/

/-- `struct net_socket_register`, of the families linked into the program. -/
structure NetSocketRegister where
  /-- `handler == sock_wrapper_create` -/
  isWrapper : Bool
  family : ℕ
  isSupported : (family type proto : ℕ) → Bool
  isOffloaded : Bool

/-- `AF_UNSPEC`. -/
def afUnspec : ℕ := 0

/-- What one call of `sock_wrapper_create` gets from outside: the descriptor the handler of
the family returns, what the probe with `ZFD_IOCTL_POLL_PREPARE` returns if there is an
object behind the descriptor, and the descriptor that is reserved. -/
structure Answers where
  fd : ℤ
  probe : Option ℤ
  reservedFd : ℤ

/-- `sock_wrapper_socket`: the descriptor, and whether the family is offloaded. -/
def sockWrapperSocket (families : List NetSocketRegister) (family type proto : ℕ)
    (answers : Answers) : ℤ × Bool :=
  match families.find? fun r => !r.isWrapper && (r.family = family || r.family = afUnspec) &&
      r.isSupported family type proto with
  | none => (-1, false)
  | some r => (answers.fd, r.isOffloaded)

/-- `__wrapper_ctx_free`. -/
def wrapperCtxFree (w : WrapperContext) : WrapperContext :=
  { w with fd := -1, myFd := -1, isUsed := false }

/-- `sock_wrapper_create`. -/
def sockWrapperCreate (families : List NetSocketRegister) (family type proto : ℕ)
    (answers : Answers) (s : Pool n) : ℤ × Pool n :=
  let socket := sockWrapperSocket families family type proto answers
  if socket.1 < 0 then (socket.1, s)
  else
    let fd := socket.1
    let isOffloaded := socket.2 || answers.probe = some (-Errno.exdev)
    -- a socket that is not offloaded is passed on without a wrapper
    if isOffloaded = false then (fd, s.emit [.opened fd, .passed fd])
    else
      match s.firstUnused with
      | none => (-1, s.emit [.opened fd, .closed fd])
      | some i =>
        -- nothing else of the context is reset, nor is its signal
        let w := { s.contexts i with isUsed := true, fd := fd }
        if answers.reservedFd < 0 then
          (-1, s.update i (wrapperCtxFree w) [.opened fd, .closed fd])
        else
          (answers.reservedFd, s.update i { w with myFd := answers.reservedFd }
            [.opened fd, .created i answers.reservedFd fd])

/-! ## Polling -/

/-- `sock_wrapper_poll_prepare_ctx`; `room` says whether there is room for one more poll
event. -/
def sockWrapperPollPrepareCtx (pollin pollout room : Bool) (w : WrapperContext) :
    ℤ × WrapperContext :=
  if pollin ∧ ¬ room then (-Errno.enomem, w)
  else if pollout then (-Errno.enotsup, w)
  else (0, { w with poll := .waiting pollin false, queued := true })

/-- `sock_wrapper_poll_update_ctx`: whether `ZSOCK_POLLIN` is reported. -/
def sockWrapperPollUpdateCtx (w : WrapperContext) : Bool × WrapperContext :=
  match w.poll with
  | .waiting true true => (true, { w with poll := .none, pollSignal := false })
  | _ => (false, { w with poll := .none })

/-! ## Steps -/

/-- The calls, and what the helper threads and `k_poll` do in between. -/
inductive Op (n : ℕ)
  | create (family type proto : ℕ) (answers : Answers)
  | pollPrepare (i : Fin n) (pollin pollout room : Bool)
  /-- `k_poll` finds the signal raised. -/
  | pollReady (i : Fin n)
  | pollUpdate (i : Fin n)
  /-- The helper takes up the work item: `sock_wrapper_poll_handler` begins. -/
  | workStart (i : Fin n)
  /-- `zsock_poll` returns to `sock_wrapper_poll_handler`, which raises the signal. -/
  | workReturn (i : Fin n)
  /-- `k_work_cancel` in `sock_wrapper_close_vmeth`. -/
  | closeCancel (i : Fin n)
  /-- `zsock_close` in `sock_wrapper_close_vmeth`. -/
  | closeSocket (i : Fin n)
  /-- `k_work_cancel_sync` in `sock_wrapper_close_vmeth` returns, and the context is freed. -/
  | closeFree (i : Fin n)

/-- One step, if it can be made. The calls on a wrapper descriptor come one after the
other; creating and closing take `wrapper_lock`. -/
def perform (families : List NetSocketRegister) : Op n → Pool n → Option (Pool n)
  | .create family type proto answers, s =>
    if s.lock = none then some (sockWrapperCreate families family type proto answers s).2
    else none
  | .pollPrepare i pollin pollout room, s =>
    let w := s.contexts i
    if w.isUsed ∧ w.poll = .none ∧ w.closing = .no then
      some (s.update i (sockWrapperPollPrepareCtx pollin pollout room w).2 [])
    else none
  | .pollReady i, s =>
    let w := s.contexts i
    if w.poll = .waiting true false ∧ w.pollSignal then
      some (s.update i { w with poll := .waiting true true } [])
    else none
  | .pollUpdate i, s =>
    let w := s.contexts i
    if w.poll ≠ .none then
      let updated := sockWrapperPollUpdateCtx w
      some (s.update i updated.2 (if updated.1 then [.reported i w.myFd] else []))
    else none
  | .workStart i, s =>
    let w := s.contexts i
    if w.queued ∧ w.running = none then
      -- the handler reads the descriptor once, before it polls
      some (s.update i { w with queued := false, running := some w.fd } [])
    else none
  | .workReturn i, s =>
    let w := s.contexts i
    match w.running with
    | none => none
    -- the signal is the one of the context, whichever socket was polled
    | some fd => some (s.update i { w with running := none, pollSignal := true } [.returned i fd])
  | .closeCancel i, s =>
    let w := s.contexts i
    if w.isUsed ∧ w.poll = .none ∧ w.closing = .no ∧ s.lock = none then
      -- a handler that is running goes on
      some { s.update i { w with queued := false, closing := .cancelled } [] with lock := some i }
    else none
  | .closeSocket i, s =>
    let w := s.contexts i
    if w.closing = .cancelled then
      some (s.update i { w with closing := .closed } [.closed w.fd])
    else none
  | .closeFree i, s =>
    let w := s.contexts i
    if w.closing = .closed ∧ w.running = none then
      some { s.update i (wrapperCtxFree { w with closing := .no }) [] with lock := none }
    else none

/-- The steps of the pool. -/
def Step (families : List NetSocketRegister) (op : Op n) (s s' : Pool n) : Prop :=
  perform families op s = some s'

/-- The states some sequence of steps leads to. -/
def Reachable (families : List NetSocketRegister) (s : Pool n) : Prop :=
  CS.Reachable (Step families) sockWrapperInit s

/-! ## Readiness of one's own -/

variable {families : List NetSocketRegister} {s s' : Pool n} {log : List (Event n)} {i j : Fin n}
  {myFd fd : ℤ}

/-- The socket in a context is the one the context was last used for. -/
def CreatedAs (i : Fin n) (myFd fd : ℤ) (log : List (Event n)) : Prop :=
  ∃ earlier since, log = earlier ++ .created i myFd fd :: since ∧
    ∀ myFd' fd', .created i myFd' fd' ∉ since

/-- The threaded poll of the socket in a context returned since it was created. -/
def PolledAs (i : Fin n) (myFd fd : ℤ) (log : List (Event n)) : Prop :=
  ∃ earlier since, log = earlier ++ .created i myFd fd :: since ∧
    (∀ myFd' fd', .created i myFd' fd' ∉ since) ∧ .returned i fd ∈ since

/-- Whenever a poll of a wrapper descriptor reported `ZSOCK_POLLIN`, the threaded poll of
the descriptor's own socket had returned since the descriptor was created. -/
def OwnReadiness (log : List (Event n)) : Prop :=
  ∀ before i myFd after, log = before ++ .reported i myFd :: after →
    ∃ fd, PolledAs i myFd fd before

theorem CreatedAs.append (h : CreatedAs i myFd fd log) {events : List (Event n)}
    (hnone : ∀ myFd fd, .created i myFd fd ∉ events) : CreatedAs i myFd fd (log ++ events) := by
  obtain ⟨earlier, since, rfl, hlast⟩ := h
  refine ⟨earlier, since ++ events, by simp, fun myFd' fd' hmem => ?_⟩
  exact (List.mem_append.mp hmem).elim (hlast myFd' fd') (hnone myFd' fd')

theorem PolledAs.append (h : PolledAs i myFd fd log) {events : List (Event n)}
    (hnone : ∀ myFd fd, .created i myFd fd ∉ events) : PolledAs i myFd fd (log ++ events) := by
  obtain ⟨earlier, since, rfl, hlast, hreturned⟩ := h
  refine ⟨earlier, since ++ events, by simp, fun myFd' fd' hmem => ?_,
    List.mem_append_left _ hreturned⟩
  exact (List.mem_append.mp hmem).elim (hlast myFd' fd') (hnone myFd' fd')

theorem CreatedAs.polled (h : CreatedAs i myFd fd log) :
    PolledAs i myFd fd (log ++ [.returned i fd]) := by
  obtain ⟨earlier, since, rfl, hlast⟩ := h
  refine ⟨earlier, since ++ [.returned i fd], by simp, fun myFd' fd' hmem => ?_, by simp⟩
  rcases List.mem_append.mp hmem with hmem | hmem
  · exact hlast myFd' fd' hmem
  · simp at hmem

/-- Events that are no reports keep readiness one's own. -/
theorem OwnReadiness.append (h : OwnReadiness log) {events : List (Event n)}
    (hnone : ∀ i myFd, .reported i myFd ∉ events) : OwnReadiness (log ++ events) := by
  intro before i myFd after hlog
  rcases List.append_eq_append_iff.mp hlog with ⟨rest, rfl, hevents⟩ | ⟨rest, rfl, hafter⟩
  · exact absurd (hevents ▸ by simp) (hnone i myFd)
  · cases rest with
    | nil => exact absurd (List.mem_of_mem_head? (congrArg List.head? hafter.symm)) (hnone i myFd)
    | cons event rest =>
      obtain ⟨rfl, -⟩ := List.cons.inj hafter
      exact h before i myFd rest rfl

/-- So does a report after the threaded poll returned. -/
theorem OwnReadiness.reported (h : OwnReadiness log) (hpolled : PolledAs i myFd fd log) :
    OwnReadiness (log ++ [.reported i myFd]) := by
  intro before j myFd' after hlog
  rcases snoc_eq_append_cons hlog with ⟨rfl, hevent, -⟩ | ⟨rest, -, hlog'⟩
  · obtain ⟨rfl, rfl⟩ := Event.reported.inj hevent
    exact ⟨fd, hpolled⟩
  · exact h before j myFd' rest hlog'

/-- **The invariant of a context.** While it is free nothing goes on in it. While it is
used, its handler polls its own socket; and a raised signal, or a ready poll event, is
due to that. -/
structure Sane (log : List (Event n)) (i : Fin n) (w : WrapperContext) : Prop where
  free : w.isUsed = false →
    w.queued = false ∧ w.running = none ∧ w.poll = .none ∧ w.closing = .no
  created : w.isUsed = true → CreatedAs i w.myFd w.fd log
  running : ∀ fd, w.running = some fd → fd = w.fd
  raised : w.isUsed = true → w.pollSignal = true → PolledAs i w.myFd w.fd log
  ready : w.isUsed = true → w.poll = .waiting true true → PolledAs i w.myFd w.fd log
  closing : w.closing ≠ .no → w.queued = false ∧ w.poll = .none

/-- The invariant. -/
structure Sound (s : Pool n) : Prop where
  own : OwnReadiness s.log
  sane : ∀ i, Sane s.log i (s.contexts i)

/-- `sock_wrapper_create` gets to the search for a context: there is a socket, and it has to be
wrapped. -/
def Searches (families : List NetSocketRegister) (family type proto : ℕ) (answers : Answers) :
    Prop :=
  0 ≤ (sockWrapperSocket families family type proto answers).1 ∧
    ((sockWrapperSocket families family type proto answers).2 = true ∨
      answers.probe = some (-Errno.exdev))

instance (families : List NetSocketRegister) (family type proto : ℕ) (answers : Answers) :
    Decidable (Searches families family type proto answers) := by
  unfold Searches
  infer_instance

/-- A search for a context finds one whose signal is lowered. -/
def LoweredAtCreate (families : List NetSocketRegister) : Op n → Pool n → Prop
  | .create family type proto answers, s => Searches families family type proto answers →
      ∀ i, s.firstUnused = some i → (s.contexts i).pollSignal = false
  | _, _ => True

theorem Sane.append {w : WrapperContext} (h : Sane log i w) {events : List (Event n)}
    (hnone : ∀ myFd fd, .created i myFd fd ∉ events) : Sane (log ++ events) i w where
  free := h.free
  created hused := (h.created hused).append hnone
  running := h.running
  raised hused hraised := (h.raised hused hraised).append hnone
  ready hused hready := (h.ready hused hready).append hnone
  closing := h.closing

/-- What is done in one context leaves the others sane. -/
theorem Sound.update (h : Sound s) {w : WrapperContext} {events : List (Event n)}
    (hown : OwnReadiness (s.log ++ events))
    (hothers : ∀ j myFd fd, .created j myFd fd ∈ events → j = i)
    (hsane : Sane (s.log ++ events) i w) : Sound (s.update i w events) := by
  refine ⟨hown, fun j => ?_⟩
  by_cases hj : j = i
  · subst hj
    rw [Pool.contexts_update_self]
    exact hsane
  · rw [Pool.contexts_update_of_ne s hj]
    exact (h.sane j).append fun myFd fd hmem => hj (hothers j myFd fd hmem)

/-- Events that neither create nor report keep the invariant. -/
theorem Sound.emit (h : Sound s) {events : List (Event n)}
    (hnone : ∀ i myFd fd, .created i myFd fd ∉ events) (hquiet : ∀ i myFd, .reported i myFd ∉ events) :
    Sound (s.emit events) :=
  ⟨h.own.append hquiet, fun i => (h.sane i).append (hnone i)⟩

theorem isUsed_of_firstUnused (h : s.firstUnused = some i) : (s.contexts i).isUsed = false := by
  simpa using List.find?_some h

/-- A context that is freed is sane, whatever its signal. -/
theorem sane_wrapperCtxFree {w : WrapperContext} (hqueued : w.queued = false)
    (hrunning : w.running = none) (hpoll : w.poll = .none) (hclosing : w.closing = .no) :
    Sane log i (wrapperCtxFree w) where
  free _ := ⟨hqueued, hrunning, hpoll, hclosing⟩
  created hused := by cases hused
  running fd hfd := by
    rw [wrapperCtxFree, hrunning] at hfd
    cases hfd
  raised hused := by cases hused
  ready hused := by cases hused
  closing _ := ⟨hqueued, hpoll⟩

/-- **Create.** -/
theorem sound_sockWrapperCreate (h : Sound s) {family type proto : ℕ} {answers : Answers}
    (hlowered : Searches families family type proto answers →
      ∀ i, s.firstUnused = some i → (s.contexts i).pollSignal = false) :
    Sound (sockWrapperCreate families family type proto answers s).2 := by
  unfold sockWrapperCreate
  dsimp only
  split
  · exact h
  · next hopened =>
    have hsearches (hwrapped : ((sockWrapperSocket families family type proto answers).2 ||
        decide (answers.probe = some (-Errno.exdev))) ≠ false) :
        Searches families family type proto answers :=
      ⟨not_lt.mp hopened, by
        simpa only [ne_eq, Bool.not_eq_false, Bool.or_eq_true, decide_eq_true_eq] using hwrapped⟩
    generalize (sockWrapperSocket families family type proto answers).1 = fd
    split
    · exact h.emit (by simp) (by simp)
    · next hwrapped =>
      split
      · exact h.emit (by simp) (by simp)
      · next i hfirst =>
        obtain ⟨hqueued, hrunning, hpoll, hclosing⟩ :=
          (h.sane i).free (isUsed_of_firstUnused hfirst)
        split
        · exact h.update (h.own.append (by simp)) (by simp)
            (sane_wrapperCtxFree hqueued hrunning hpoll hclosing)
        · refine h.update (h.own.append (by simp)) (by simp +contextual) ?_
          refine
            { free := fun hunused => by cases hunused
              created := fun _ => ⟨s.log ++ [.opened fd], [], by simp, by simp⟩
              running := fun fd' hfd' => ?_
              raised := fun _ hraised => ?_
              ready := fun _ hready => ?_
              closing := fun _ => ⟨hqueued, hpoll⟩ }
          · rw [hrunning] at hfd'
            cases hfd'
          · exact absurd (hraised.symm.trans (hlowered (hsearches hwrapped) i hfirst)) (by simp)
          · rw [hpoll] at hready
            cases hready

/-- What is done in one context without an event. -/
private theorem Sound.quiet (h : Sound s) {w : WrapperContext} (hsane : Sane s.log i w) :
    Sound (s.update i w []) :=
  h.update ((List.append_nil s.log).symm ▸ h.own) (by simp)
    ((List.append_nil s.log).symm ▸ hsane)

/-- In a context that is polled, or in which work is queued or running, there is a socket. -/
theorem Sane.isUsed {w : WrapperContext} (h : Sane log i w)
    (hbusy : w.queued = true ∨ w.running ≠ none ∨ w.poll ≠ .none ∨ w.closing ≠ .no) :
    w.isUsed = true := by
  by_contra hused
  obtain ⟨hqueued, hrunning, hpoll, hclosing⟩ := h.free (by simpa using hused)
  simp [hqueued, hrunning, hpoll, hclosing] at hbusy

/-- **Step.** Every step keeps the invariant. -/
theorem sound_step (h : Sound s) {op : Op n} (hlowered : LoweredAtCreate families op s)
    (hstep : Step families op s s') : Sound s' := by
  cases op with
  | create family type proto answers =>
    obtain ⟨-, hs'⟩ := Option.ite_none_right_eq_some.mp hstep
    obtain rfl := Option.some_inj.mp hs'
    exact sound_sockWrapperCreate h hlowered
  | pollPrepare i pollin pollout room =>
    obtain ⟨⟨hused, hpoll, hclosing⟩, hs'⟩ := Option.ite_none_right_eq_some.mp hstep
    obtain rfl := Option.some_inj.mp hs'
    have hsane := h.sane i
    refine h.quiet ?_
    unfold sockWrapperPollPrepareCtx
    split_ifs
    · exact hsane
    · exact hsane
    · exact
        { hsane with
          free := fun hunused => absurd (hunused.symm.trans hused) (by simp)
          ready := fun _ hready => by simp at hready
          closing := fun hclosing' => absurd hclosing hclosing' }
  | pollReady i =>
    obtain ⟨⟨hpoll, hraised⟩, hs'⟩ := Option.ite_none_right_eq_some.mp hstep
    obtain rfl := Option.some_inj.mp hs'
    have hsane := h.sane i
    have hused := hsane.isUsed (.inr (.inr (.inl (by simp [hpoll]))))
    -- the event is ready because the signal is raised
    refine h.quiet
      { hsane with
        free := fun hunused => absurd (hunused.symm.trans hused) (by simp)
        ready := fun _ _ => hsane.raised hused hraised
        closing := fun hclosing => ?_ }
    have hidle := (hsane.closing hclosing).2
    rw [hpoll] at hidle
    cases hidle
  | pollUpdate i =>
    obtain ⟨hpoll, hs'⟩ := Option.ite_none_right_eq_some.mp hstep
    obtain rfl := Option.some_inj.mp hs'
    have hsane := h.sane i
    have hused := hsane.isUsed (.inr (.inr (.inl hpoll)))
    have hopen : (s.contexts i).closing = .no := by
      by_contra hclosing
      exact hpoll (hsane.closing hclosing).2
    unfold sockWrapperPollUpdateCtx
    split
    · next hready =>
      -- what is reported is due to the threaded poll, and the signal is lowered
      refine h.update (h.own.reported (hsane.ready hused hready)) (by simp) ?_
      have hsane' : Sane (s.log ++ [.reported i (s.contexts i).myFd]) i (s.contexts i) :=
        hsane.append (by simp)
      exact
        { hsane' with
          free := fun hunused => absurd (hunused.symm.trans hused) (by simp)
          raised := fun _ hraised => by cases hraised
          ready := fun _ hready => by cases hready
          closing := fun hclosing => absurd hopen hclosing }
    · exact h.quiet
        { hsane with
          free := fun hunused => absurd (hunused.symm.trans hused) (by simp)
          ready := fun _ hready => by cases hready
          closing := fun hclosing => absurd hopen hclosing }
  | workStart i =>
    obtain ⟨⟨hqueued, hrunning⟩, hs'⟩ := Option.ite_none_right_eq_some.mp hstep
    obtain rfl := Option.some_inj.mp hs'
    have hsane := h.sane i
    have hused := hsane.isUsed (.inl hqueued)
    exact h.quiet
      { hsane with
        free := fun hunused => absurd (hunused.symm.trans hused) (by simp)
        running := fun fd hfd => (Option.some_inj.mp hfd).symm
        closing := fun hclosing => ⟨rfl, (hsane.closing hclosing).2⟩ }
  | workReturn i =>
    have hsane := h.sane i
    cases hrunning : (s.contexts i).running with
    | none =>
      rw [Step, perform, hrunning] at hstep
      cases hstep
    | some fd =>
      rw [Step, perform, hrunning] at hstep
      obtain rfl := Option.some_inj.mp hstep
      have hused := hsane.isUsed (.inr (.inl (by simp [hrunning])))
      obtain rfl := hsane.running fd hrunning
      have hpolled := (hsane.created hused).polled
      refine h.update (h.own.append (by simp)) (by simp) ?_
      have hsane' : Sane (s.log ++ [.returned i (s.contexts i).fd]) i (s.contexts i) :=
        hsane.append (by simp)
      exact
        { hsane' with
          free := fun hunused => absurd (hunused.symm.trans hused) (by simp)
          running := fun fd hfd => by cases hfd
          raised := fun _ _ => hpolled
          ready := fun _ _ => hpolled }
  | closeCancel i =>
    obtain ⟨⟨hused, hpoll, hclosing, -⟩, hs'⟩ := Option.ite_none_right_eq_some.mp hstep
    obtain rfl := Option.some_inj.mp hs'
    have hsane := h.sane i
    have hquiet := h.quiet (w := { s.contexts i with queued := false, closing := .cancelled })
      { hsane with
        free := fun hunused => absurd (hunused.symm.trans hused) (by simp)
        closing := fun _ => ⟨rfl, hpoll⟩ }
    exact ⟨hquiet.own, hquiet.sane⟩
  | closeSocket i =>
    obtain ⟨hclosing, hs'⟩ := Option.ite_none_right_eq_some.mp hstep
    obtain rfl := Option.some_inj.mp hs'
    have hsane := h.sane i
    have hidle := hsane.closing (by simp [hclosing])
    have hused := hsane.isUsed (.inr (.inr (.inr (by simp [hclosing]))))
    refine h.update (h.own.append (by simp)) (by simp) ?_
    have hsane' : Sane (s.log ++ [.closed (s.contexts i).fd]) i (s.contexts i) :=
      hsane.append (by simp)
    exact
      { hsane' with
        free := fun hunused => absurd (hunused.symm.trans hused) (by simp)
        closing := fun _ => hidle }
  | closeFree i =>
    obtain ⟨⟨hclosing, hrunning⟩, hs'⟩ := Option.ite_none_right_eq_some.mp hstep
    obtain rfl := Option.some_inj.mp hs'
    obtain ⟨hqueued, hpoll⟩ := (h.sane i).closing (by simp [hclosing])
    have hquiet := h.quiet (i := i) (sane_wrapperCtxFree
      (w := { s.contexts i with closing := .no }) hqueued hrunning hpoll rfl)
    exact ⟨hquiet.own, hquiet.sane⟩

theorem sound_sockWrapperInit : Sound (sockWrapperInit : Pool n) where
  own before i myFd after hlog := by simp [sockWrapperInit] at hlog
  sane _ :=
    { free := fun _ => ⟨rfl, rfl, rfl, rfl⟩
      created := fun hused => by cases hused
      running := fun _ hfd => by cases hfd
      raised := fun hused => by cases hused
      ready := fun hused => by cases hused
      closing := fun _ => ⟨rfl, rfl⟩ }

theorem sound_of_lowered {ops : List (Op n)}
    (hrun : Run (Guarded (LoweredAtCreate families) (Step families)) ops sockWrapperInit s) : Sound s :=
  hrun.invariant Sound (fun _ _ _ h hstep => sound_step h hstep.1 hstep.2) sound_sockWrapperInit

/-- **Readiness is one's own**, in every run in which each search for a context finds one with its
signal lowered. -/
theorem ownReadiness_of_lowered {ops : List (Op n)}
    (hrun : Run (Guarded (LoweredAtCreate families) (Step families)) ops sockWrapperInit s) :
    OwnReadiness s.log :=
  (sound_of_lowered hrun).own

/-- One family, which is offloaded. -/
def offloaded : List NetSocketRegister :=
  [{ isWrapper := true, family := 0, isSupported := fun _ _ _ => true, isOffloaded := false },
    { isWrapper := false, family := 1, isSupported := fun _ _ _ => true, isOffloaded := true }]

private def checkLowered (families : List NetSocketRegister) : Op n → Pool n → Bool
  | .create family type proto answers, s =>
    !decide (Searches families family type proto answers) ||
      match s.firstUnused with
      | none => true
      | some i => !(s.contexts i).pollSignal
  | _, _ => true

private theorem lowered_of_check (op : Op n) (s : Pool n)
    (hcheck : checkLowered families op s = true) : LoweredAtCreate families op s := by
  cases op with
  | create family type proto answers =>
    intro hsearches i hfirst
    unfold checkLowered at hcheck
    simpa [hsearches, hfirst] using hcheck
  | _ => trivial

/-- A socket is polled, found ready and closed, and its context is taken again. -/
def consumedRun : List (Op 1) :=
  [.create 1 2 17 ⟨5, none, 3⟩, .pollPrepare 0 true false true, .workStart 0, .workReturn 0,
    .pollReady 0, .pollUpdate 0, .closeCancel 0, .closeSocket 0, .closeFree 0,
    .create 1 2 17 ⟨6, none, 4⟩]

theorem ownReadiness_of_lowered_consumed :
    ∃ s, Run (Guarded (LoweredAtCreate offloaded) (Step offloaded)) consumedRun sockWrapperInit s ∧
      s.log = [.opened 5, .created 0 3 5, .returned 0 5, .reported 0 3, .closed 5, .opened 6,
        .created 0 4 6] ∧ OwnReadiness s.log := by
  have hlog : (Run.executeIf (checkLowered offloaded) (perform offloaded) consumedRun sockWrapperInit).map
      (·.log) = some [.opened 5, .created 0 3 5, .returned 0 5, .reported 0 3, .closed 5,
        .opened 6, .created 0 4 6] := by decide +kernel
  obtain ⟨s, hrun, hlog⟩ := Option.map_eq_some_iff.mp hlog
  have hguarded := Run.of_executeIf lowered_of_check hrun
  exact ⟨s, hguarded, hlog, ownReadiness_of_lowered hguarded⟩

/-! ## Readiness of another -/

private theorem not_polledAs_created {events : List (Event n)} {fd' : ℤ} :
    ¬ PolledAs i myFd fd' (events ++ [.created i myFd fd]) := by
  rintro ⟨earlier, since, hlog, hlast, hreturned⟩
  rcases snoc_eq_append_cons hlog with ⟨-, -, rfl⟩ | ⟨rest, rfl, -⟩
  · cases hreturned
  · exact hlast myFd fd (List.mem_append_right _ (List.mem_singleton_self _))

/-- A context that is taken with its signal raised reports the first poll at once. -/
theorem leak_of_raised (h : Sound s) (hlock : s.lock = none) {family type proto : ℕ}
    {answers : Answers} (hsocket : sockWrapperSocket families family type proto answers = (fd, true))
    (hfd : 0 ≤ fd) (hreserved : 0 ≤ answers.reservedFd) (hfirst : s.firstUnused = some i)
    (hraised : (s.contexts i).pollSignal = true) :
    ∃ s', Run (Step families) [.create family type proto answers,
        .pollPrepare i true false true, .pollReady i, .pollUpdate i] s s' ∧
      ¬ OwnReadiness s'.log := by
  obtain ⟨hqueued, hrunning, hpoll, hclosing⟩ := (h.sane i).free (isUsed_of_firstUnused hfirst)
  generalize hw : ({ s.contexts i with isUsed := true, fd := fd, myFd := answers.reservedFd } :
    WrapperContext) = w
  have hidle : w.isUsed = true ∧ w.poll = .none ∧ w.closing = .no ∧ w.pollSignal = true := by
    rw [← hw]
    exact ⟨rfl, hpoll, hclosing, hraised⟩
  have hmine : w.myFd = answers.reservedFd := by rw [← hw]
  obtain ⟨hused, hpoll, hclosing, hraised⟩ := hidle
  -- the new socket takes the context whose signal is still raised
  have hcreate : Step families (.create family type proto answers) s
      (s.update i w [.opened fd, .created i answers.reservedFd fd]) := by
    refine Option.ite_none_right_eq_some.mpr ⟨hlock, ?_⟩
    simp only [sockWrapperCreate, hsocket, not_lt.mpr hfd, not_lt.mpr hreserved, hfirst, ← hw,
      Bool.true_or, Bool.true_eq_false, if_false]
  generalize hs₁ : s.update i w [.opened fd, .created i answers.reservedFd fd] = s₁ at hcreate
  have hw₁ : s₁.contexts i = w := by rw [← hs₁, Pool.contexts_update_self]
  have hprepare : Step families (.pollPrepare i true false true) s₁
      (s₁.update i { w with poll := .waiting true false, queued := true } []) := by
    refine Option.ite_none_right_eq_some.mpr ⟨?_, ?_⟩
    · rw [hw₁]
      exact ⟨hused, hpoll, hclosing⟩
    · rw [hw₁]
      rfl
  generalize hs₂ : s₁.update i { w with poll := .waiting true false, queued := true } [] = s₂
    at hprepare
  have hw₂ : s₂.contexts i = { w with poll := .waiting true false, queued := true } := by
    rw [← hs₂, Pool.contexts_update_self]
  -- the helper has not polled the new socket, and yet the poll is ready
  have hready : Step families (.pollReady i) s₂
      (s₂.update i { w with poll := .waiting true true, queued := true } []) := by
    refine Option.ite_none_right_eq_some.mpr ⟨?_, ?_⟩
    · rw [hw₂]
      exact ⟨rfl, hraised⟩
    · rw [hw₂]
  generalize hs₃ : s₂.update i { w with poll := .waiting true true, queued := true } [] = s₃
    at hready
  have hw₃ : s₃.contexts i = { w with poll := .waiting true true, queued := true } := by
    rw [← hs₃, Pool.contexts_update_self]
  have hlog₃ : s₃.log = s.log ++ [.opened fd] ++ [.created i answers.reservedFd fd] := by
    rw [← hs₃, ← hs₂, ← hs₁]
    simp [Pool.update]
  have hupdate : Step families (.pollUpdate i) s₃
      (s₃.update i { w with poll := .none, pollSignal := false, queued := true }
        [.reported i answers.reservedFd]) := by
    refine Option.ite_none_right_eq_some.mpr ⟨?_, ?_⟩
    · rw [hw₃]
      simp
    · rw [hw₃, ← hmine]
      rfl
  refine ⟨_, .cons hcreate (.cons hprepare (.cons hready (.single hupdate))), fun hown => ?_⟩
  obtain ⟨fd', hpolled⟩ := hown _ i answers.reservedFd [] (by rw [Pool.update, hlog₃])
  exact not_polledAs_created hpolled

/-- A socket is closed while the helper polls it; its context is taken again, and the new
socket is polled. -/
def leakRun : List (Op 1) :=
  [.create 1 2 17 ⟨5, none, 3⟩, .pollPrepare 0 true false true, .workStart 0, .pollUpdate 0,
    .closeCancel 0, .closeSocket 0, .workReturn 0, .closeFree 0, .create 1 2 17 ⟨6, none, 4⟩,
    .pollPrepare 0 true false true, .pollReady 0, .pollUpdate 0]

/-- The poll of the new socket reports what happened on the old one. -/
theorem leakRun_reports :
    ∃ s, Run (Step offloaded) leakRun sockWrapperInit s ∧ ¬ OwnReadiness s.log := by
  have hlog : (Run.execute (perform offloaded) leakRun sockWrapperInit).map (·.log) =
      some [.opened 5, .created 0 3 5, .closed 5, .returned 0 5, .opened 6, .created 0 4 6,
        .reported 0 4] := by decide +kernel
  obtain ⟨s, hrun, hlog⟩ := Option.map_eq_some_iff.mp hlog
  refine ⟨s, Run.of_execute hrun, fun hown => ?_⟩
  rw [hlog] at hown
  have hreport := hown [.opened 5, .created 0 3 5, .closed 5, .returned 0 5, .opened 6,
    .created 0 4 6] 0 4 [] rfl
  obtain ⟨fd, hpolled⟩ := hreport
  have hcreated : ¬ PolledAs (0 : Fin 1) 4 fd ([.opened 5, .created 0 3 5, .closed 5,
    .returned 0 5, .opened 6] ++ [.created 0 4 6]) := not_polledAs_created
  exact hcreated hpolled

end Golioth.Sockets.PollWrapper
