/-
# Stop requests of the system client

The loop and its callers are a worker that is started by a semaphore and stopped
by a flag. A stop request is never lost. It may come too late, though: the loop
clears the flag for reconnecting and the event descriptor before it connects, but
not the flag for stopping, so that a stop request nothing was left to do about
ends the session that is started next.
-/
import Golioth.SystemClient.Loop
import Golioth.CS.StartStop

namespace Golioth.SystemClient

open CS CS.StartStop

/-! ## The loop as a worker -/

/-- The loop has opened a socket and not closed it. -/
def MainPc.inSession : MainPc → Bool
  | .handshaking | .setExpiries | .pollPrepare | .polling | .readEvents _ | .testReconnect _
  | .testStop _ _ | .handleRequests _ _ _ | .handleSocket _ | .disconnecting _ | .exited => true
  | .top | .waitForClientStart | .blocked | .flushReconnect | .flushEvents | .connecting
  | .sleeping => false

/-- The loop has cleared `FLAG_STOP_CLIENT`, which was set, and not disconnected yet. -/
def MainPc.isStopping : MainPc → Bool
  | .handleRequests _ true _ | .disconnecting .stopRequest => true
  | _ => false

def Call.caller : Call → Caller
  | .stopEntered => .entered
  | .stopTaken => .taken
  | .idle | .stopSet | .reconnectEntered | .reconnectSet => .idle

variable {τ : Type}

/-- Where the loop stands, seen as a worker. -/
def State.phase (s : State τ) : Phase :=
  match s.pc with
  | .top => if s.sock < 0 then .away else .session
  | .waitForClientStart | .sleeping => .away
  | .blocked => .blocked
  | pc => if pc.isStopping then .stopping else .session

/-- The client as a worker and its callers. -/
def State.worker (s : State τ) : StartStop.State τ where
  phase := s.phase
  permits := s.started
  signalled := s.startSignalled
  flag := s.stopClient
  callers := fun caller => (s.calls caller).caller

/-- What a step of the client is to the worker. -/
def Label.op (config : Config) : Label τ → Op τ
  | .main .block => .block
  | .main .passWait => .pass
  | .main .testStop => .look
  | .main .connectFailed | .main .close => .leave
  | .start store => if checkCredentials config store = 0 then .give else .stay
  | .stop caller => .enter caller
  | .takeStarted caller => .take caller
  | .setStop caller => .raise caller
  | .main _ | .requestReconnect _ | .setReconnect _ | .writeEvent _ | .wakeup
  | .notifyTimeout => .stay

/-- The socket is open exactly where the loop says so. -/
structure Sound (s : State τ) : Prop where
  opened : s.pc.inSession = true → 0 ≤ s.sock
  closed : s.pc.inSession = false → s.pc ≠ .top → s.sock < 0

variable {config : Config} {label : Label τ} {s t : State τ}

theorem sound_init : Sound (State.init τ) :=
  ⟨fun h => (by cases h), fun _ h => absurd rfl h⟩

theorem sound_mainMove {action : MainStep} (hsound : Sound s)
    (hmove : MainMove config action s t) : Sound t := by
  obtain ⟨hopened, hclosed⟩ := hsound
  cases hmove with
  -- the steps that leave the session closed
  | wait hpc hsock => exact ⟨fun h => (by cases h), fun _ _ => hsock⟩
  | block hpc | clearReconnect hpc | flushEvents hpc | connectFailed hpc =>
    exact ⟨fun h => (by cases h), fun _ _ => hclosed (by rw [hpc]; rfl) (by simp [hpc])⟩
  | passWait havailable =>
    refine ⟨fun h => (by cases h), fun _ _ => ?_⟩
    rcases havailable with ⟨hpc, -⟩ | ⟨hpc, -⟩
    · exact hclosed (by rw [hpc]; rfl) (by simp [hpc])
    · exact hclosed (by rw [hpc]; rfl) (by simp [hpc])
  | refused => exact ⟨fun h => (by cases h), fun _ _ => Int.negSucc_lt_zero 0⟩
  -- the steps that leave it open
  | goOn hpc hsock => exact ⟨fun _ => hsock, fun h => (by cases h)⟩
  | openSocket hpc hsock => exact ⟨fun _ => hsock, fun h => (by cases h)⟩
  | connected hpc | setExpiries hpc | reschedule hpc | pollError hpc | pollTimeout hpc
  | pollEvents hpc | pollSocket hpc | readEvents hpc | testReconnect hpc | testStop hpc
  | disconnect hpc | keepAlive hpc | receiveFailed hpc =>
    exact ⟨fun _ => hopened (by rw [hpc]; rfl), fun h => (by cases h)⟩
  -- the steps that lead back to where the socket is looked at
  | wake | received | skipSocket | close =>
    exact ⟨fun h => (by cases h), fun _ h => absurd rfl h⟩

/-! ## Every step is a step of the worker -/

/-- The loop says that it stops exactly if it has seen the flag set. -/
theorem reason_eq_stopRequest_iff {reconnectRequest receiveTimeout stopRequest : Bool}
    {reason : Reason}
    (h : reasonToDisconnect reconnectRequest receiveTimeout stopRequest = some reason) :
    reason = .stopRequest ↔ stopRequest = true := by
  rw [reasonToDisconnect] at h
  split_ifs at h with hstop hreconnect htimeout <;> obtain rfl := Option.some_inj.mp h <;>
    simp [hstop]

theorem stopRequest_eq_false {reconnectRequest receiveTimeout stopRequest : Bool}
    (h : reasonToDisconnect reconnectRequest receiveTimeout stopRequest = none) :
    stopRequest = false := by
  rw [reasonToDisconnect] at h
  split_ifs at h with hstop
  exact Bool.eq_false_iff.mpr hstop

theorem MainPc.isStopping_disconnecting (reason : Reason) :
    (MainPc.disconnecting reason).isStopping = decide (reason = .stopRequest) := by
  cases reason <;> rfl

theorem MainPc.isStopping_handleRequests (reconnectRequest stopRequest socketReady : Bool) :
    (MainPc.handleRequests reconnectRequest stopRequest socketReady).isStopping = stopRequest := by
  cases stopRequest <;> rfl

/-- Where the loop has a socket, it is in a session that it is about to end or not. -/
theorem phase_of_inSession (hpc : s.pc.inSession = true) :
    s.phase = if s.pc.isStopping then .stopping else .session := by
  rw [State.phase]
  cases h : s.pc <;> simp [h, MainPc.inSession] at hpc ⊢

theorem phase_eq_blocked_iff : s.phase = .blocked ↔ s.pc = .blocked := by
  rw [State.phase]
  cases h : s.pc <;> simp <;> split <;> simp

theorem worker_eq (hphase : t.phase = s.phase) (hstarted : t.started = s.started)
    (hsignalled : t.startSignalled = s.startSignalled) (hflag : t.stopClient = s.stopClient)
    (hcalls : t.calls = s.calls) : t.worker = s.worker := by
  rw [State.worker, State.worker, hphase, hstarted, hsignalled, hflag, hcalls]

/-- Giving the semaphore signals the loop where the worker is blocked. -/
theorem worker_semGive (s : State τ) :
    (semGive s).worker =
      { s.worker with
        permits := if s.started = 1 then s.started else s.started + 1
        signalled := s.worker.signalled || s.worker.phase = .blocked } := by
  have hblocked : decide (s.worker.phase = .blocked) = decide (s.pc = .blocked) :=
    decide_eq_decide.mpr phase_eq_blocked_iff
  rw [hblocked]
  rfl

/-- A connected client that is not about to disconnect is in a session. -/
theorem phase_of_connected (hsound : Sound s) (hconnected : 0 ≤ s.sock)
    (hpc : s.pc.isStopping = false) : s.phase = .session := by
  by_cases htop : s.pc = .top
  · simp [State.phase, htop, hconnected]
  · cases hsession : s.pc.inSession with
    | true => simp [phase_of_inSession hsession, hpc]
    | false => exact absurd (hsound.closed hsession htop) (not_lt.mpr hconnected)

variable [DecidableEq τ]

/-- What is no step of the worker keeps it as it is. -/
private theorem stay_of_eq (h : t.worker = s.worker) :
    StartStop.Step .stay s.worker t.worker := h ▸ .stay

/-- A step of the loop is the step of the worker that its label names. -/
theorem worker_mainMove {action : MainStep} (hsound : Sound s)
    (hmove : MainMove config action s t) :
    StartStop.Step (Label.op config (.main action)) s.worker t.worker := by
  cases hmove with
  | block hpc => exact .block (s := s.worker) (by simp [State.worker, State.phase, hpc])
  | passWait havailable =>
    refine .pass (s := s.worker) ?_
    rcases havailable with ⟨hpc, hstarted⟩ | ⟨hpc, hsignalled⟩
    · exact .inl ⟨by simp [State.worker, State.phase, hpc], hstarted⟩
    · exact .inr ⟨by simp [State.worker, State.phase, hpc], hsignalled⟩
  | @testStop _ reconnectRequest socketReady hpc =>
    have hphase : s.worker.phase = .session := by
      simp [State.worker, State.phase, hpc, MainPc.isStopping]
    have hlook := StartStop.Step.look hphase
    have hworker : ({ s with
        pc := .handleRequests reconnectRequest s.stopClient socketReady
        stopClient := false } : State τ).worker =
        { s.worker with
          phase := if s.worker.flag then .stopping else .session
          flag := false } := by
      cases hflag : s.stopClient <;> simp [State.worker, State.phase, MainPc.isStopping, hflag]
    exact hworker ▸ hlook
  | connectFailed hpc =>
    exact .leave (s := s.worker)
      (.inl (by simp [State.worker, State.phase, hpc, MainPc.isStopping]))
  | @close _ reason hpc =>
    refine .leave (s := s.worker) ?_
    have hphase : s.worker.phase = _ := phase_of_inSession (by rw [hpc]; rfl)
    rw [hphase]
    split
    · exact .inr rfl
    · exact .inl rfl
  -- the other steps leave the worker where it is
  | wait hpc hsock =>
    exact stay_of_eq (worker_eq (by simp [State.phase, hpc, hsock]) rfl rfl rfl rfl)
  | wake hpc =>
    have hsock := hsound.closed (by rw [hpc]; rfl) (by simp [hpc])
    exact stay_of_eq (worker_eq (by simp [State.phase, hpc, hsock]) rfl rfl rfl rfl)
  | goOn hpc hsock =>
    exact stay_of_eq (worker_eq (by simp [State.phase, hpc, hsock, MainPc.isStopping]) rfl rfl rfl
      rfl)
  | received hpc | skipSocket hpc =>
    have hsock := hsound.opened (by rw [hpc]; rfl)
    exact stay_of_eq (worker_eq (by simp [State.phase, hpc, hsock, MainPc.isStopping]) rfl rfl rfl
      rfl)
  | disconnect hpc hreason =>
    have hstop := reason_eq_stopRequest_iff hreason
    exact stay_of_eq (worker_eq (by
      simp [State.phase, hpc, MainPc.isStopping_handleRequests, MainPc.isStopping_disconnecting,
        hstop]) rfl rfl rfl rfl)
  | keepAlive hpc hreason =>
    obtain rfl := stopRequest_eq_false hreason
    exact stay_of_eq (worker_eq (by simp [State.phase, hpc, MainPc.isStopping]) rfl rfl rfl rfl)
  | clearReconnect hpc | flushEvents hpc | openSocket hpc | connected hpc | refused hpc
  | setExpiries hpc | reschedule hpc | pollError hpc | pollTimeout hpc | pollEvents hpc
  | pollSocket hpc | readEvents hpc | testReconnect hpc | receiveFailed hpc =>
    exact stay_of_eq (worker_eq (by simp [State.phase, hpc, MainPc.isStopping]) rfl rfl rfl rfl)

theorem sound_step (hsound : Sound s) (hstep : Step config label s t) : Sound t := by
  cases label with
  | main action => exact sound_mainMove hsound hstep.mainMove
  | start store =>
    obtain rfl := Option.some_inj.mp hstep
    split_ifs
    · exact ⟨hsound.opened, hsound.closed⟩
    · exact hsound
  | wakeup =>
    obtain rfl := Option.some_inj.mp hstep
    exact ⟨hsound.opened, hsound.closed⟩
  | stop | takeStarted | setStop | requestReconnect | setReconnect | writeEvent | notifyTimeout =>
    obtain ⟨-, h⟩ := Option.ite_none_right_eq_some.mp hstep
    obtain rfl := Option.some_inj.mp h
    exact ⟨hsound.opened, hsound.closed⟩

/-- The caller of a call is where the call puts it. -/
theorem callers_setCall (s : State τ) (caller : τ) (call : Call) :
    (s.setCall caller call).worker =
      { s.worker with callers := Function.update s.worker.callers caller call.caller } := by
  have hcallers : (fun other => (Function.update s.calls caller call other).caller) =
      Function.update (fun other => (s.calls other).caller) caller call.caller :=
    Function.comp_update Call.caller s.calls caller call
  simp only [State.worker, State.setCall, State.phase, hcallers]
  rfl

/-- A call that is no call of the worker leaves it as it is. -/
theorem worker_setCall_of_idle {caller : τ} {call : Call}
    (hidle : (s.calls caller).caller = .idle) (hcall : call.caller = .idle) :
    (s.setCall caller call).worker = s.worker := by
  have hsame : Function.update s.worker.callers caller call.caller = s.worker.callers := by
    rw [hcall, ← hidle]
    exact Function.update_eq_self caller s.worker.callers
  rw [callers_setCall, hsame]

/-- **Simulation.** Every step of the client is the step of the worker that its label names. -/
theorem worker_step (hsound : Sound s) (hstep : Step config label s t) :
    StartStop.Step (label.op config) s.worker t.worker := by
  cases label with
  | main action => exact worker_mainMove hsound hstep.mainMove
  | start store =>
    obtain rfl := Option.some_inj.mp hstep
    rw [Label.op]
    split_ifs with hcheck
    · rw [worker_semGive]
      exact .give (s := s.worker) (by split <;> omega)
    · exact .stay
  | stop caller =>
    obtain ⟨hidle, h⟩ := Option.ite_none_right_eq_some.mp hstep
    obtain rfl := Option.some_inj.mp h
    rw [callers_setCall]
    exact .enter (s := s.worker) (by simp [State.worker, hidle, Call.caller])
  | takeStarted caller =>
    obtain ⟨hentered, h⟩ := Option.ite_none_right_eq_some.mp hstep
    obtain rfl := Option.some_inj.mp h
    rw [callers_setCall]
    exact .take (s := s.worker) (by simp [State.worker, hentered, Call.caller])
  | setStop caller =>
    obtain ⟨htaken, h⟩ := Option.ite_none_right_eq_some.mp hstep
    obtain rfl := Option.some_inj.mp h
    have hcaller : (if s.stopClient then Call.idle else Call.stopSet).caller = .idle := by
      split <;> rfl
    rw [callers_setCall, hcaller]
    exact .raise (s := s.worker) (by simp [State.worker, htaken, Call.caller])
  | requestReconnect caller =>
    obtain ⟨hidle, h⟩ := Option.ite_none_right_eq_some.mp hstep
    obtain rfl := Option.some_inj.mp h
    exact stay_of_eq (worker_setCall_of_idle (by rw [hidle]; rfl) rfl)
  | setReconnect caller =>
    obtain ⟨hentered, h⟩ := Option.ite_none_right_eq_some.mp hstep
    obtain rfl := Option.some_inj.mp h
    have hcaller : (if s.reconnect then Call.idle else Call.reconnectSet).caller = .idle := by
      split <;> rfl
    exact stay_of_eq (worker_setCall_of_idle (s := { s with reconnect := true })
      (by simp [hentered, Call.caller]) hcaller)
  | writeEvent caller =>
    obtain ⟨hset, h⟩ := Option.ite_none_right_eq_some.mp hstep
    obtain rfl := Option.some_inj.mp h
    exact stay_of_eq (worker_setCall_of_idle (s := { s with events := s.events + 1 })
      (by rcases hset with h | h <;> simp [h, Call.caller]) rfl)
  | wakeup =>
    obtain rfl := Option.some_inj.mp hstep
    exact .stay
  | notifyTimeout =>
    obtain ⟨-, h⟩ := Option.ite_none_right_eq_some.mp hstep
    obtain rfl := Option.some_inj.mp h
    exact .stay

/-! ## No stop request is lost -/

/-- What holds in every state: the socket is where the loop says it is, and a session goes on
without the semaphore only if its stop request is still to be seen. -/
structure Standing (s : State τ) : Prop where
  sound : Sound s
  kept : Kept s.worker

theorem standing_of_reachable (h : Reachable (Step config) (.init τ) s) : Standing s := by
  refine h.invariant Standing ⟨sound_init, kept_of_away rfl rfl⟩ fun label s t hs hstep => ?_
  exact ⟨sound_step hs.sound hstep, kept_step hs.kept (worker_step hs.sound hstep)⟩

/-- A call of `stop` that is not in progress has not stopped short of setting the flag. -/
theorem taken_of_isStop {call : Call} (h : call.isStop = false) : call.caller ≠ .taken := by
  cases call <;> simp_all [Call.isStop, Call.caller]

theorem pc_step (hmain : label.isMain = false) (hstep : Step config label s t) : t.pc = s.pc := by
  cases label with
  | main => cases hmain
  | start =>
    obtain rfl := Option.some_inj.mp hstep
    split_ifs <;> rfl
  | wakeup =>
    obtain rfl := Option.some_inj.mp hstep
    rfl
  | stop | takeStarted | setStop | requestReconnect | setReconnect | writeEvent | notifyTimeout =>
    obtain ⟨-, h⟩ := Option.ite_none_right_eq_some.mp hstep
    obtain rfl := Option.some_inj.mp h
    rfl

/-- The other threads do not move the loop. -/
theorem pc_run {labels : List (Label τ)} (hmain : ∀ label ∈ labels, label.isMain = false)
    (h : Run (Step config) labels s t) : t.pc = s.pc :=
  RunOf.invariant (fun u => u.pc = s.pc)
    (fun _ _ _ hlabel hpc hstep => (pc_step hlabel hstep).trans hpc) ⟨labels, h, hmain⟩ rfl

/-- All the loop can do is disconnect because of a stop request and close the socket. -/
structure Disconnects (config : Config) (s : State τ) : Prop where
  can : ∀ now, ∃ t, Step config (.main (.disconnect .stopRequest now)) s t
  must : ∀ action t, Step config (.main action) s t → ∃ now, action = .disconnect .stopRequest now
  closes : ∀ now others action t u v, Step config (.main (.disconnect .stopRequest now)) s t →
    Run (Step config) others t u → (∀ label ∈ others, label.isMain = false) →
    Step config (.main action) u v → action = .close ∧ v.sock = -1

theorem close_of_disconnecting {action : MainStep} {reason : Reason}
    (hpc : s.pc = .disconnecting reason) (hstep : Step config (.main action) s t) :
    action = .close ∧ t.sock = -1 := by
  have hmove := hstep.mainMove
  cases hmove <;> simp_all

theorem disconnects_of_pc {reconnectRequest socketReady : Bool}
    (hpc : s.pc = .handleRequests reconnectRequest true socketReady) : Disconnects config s where
  can now := by
    have hreason : reasonToDisconnect reconnectRequest (s.recvExpiry ≤ now) true =
        some .stopRequest := rfl
    exact ⟨_, by rw [Step, step, mainStep, hpc]; exact if_pos hreason⟩
  must action t hstep := by
    have hmove := hstep.mainMove
    cases hmove <;> simp_all [reasonToDisconnect]
  closes now others action t u v hfirst hothers hmain hsecond := by
    have hmove := hfirst.mainMove
    cases hmove
    exact close_of_disconnecting (pc_run hmain hothers) hsecond

/-- The next event the loop handles makes it disconnect. -/
def DisconnectsNext (config : Config) (s : State τ) : Prop :=
  ∀ quiet others t, Run (Step config) (quiet ++ .main .testStop :: others) s t →
    (∀ label ∈ quiet, label.handlesEvent = false) → (∀ label ∈ others, label.isMain = false) →
    Disconnects config t

/-- Once the loop has disconnected it does not try to connect until a start gives the
semaphore. -/
def ConnectsOnlyAfterStart (config : Config) (s : State τ) : Prop :=
  ∀ before after t, Run (Step config) (before ++ .main .close :: after) s t →
    (∀ label ∈ before ++ after, label.gives config = false) →
    ∀ label ∈ after, label.attemptsConnect = false

omit [DecidableEq τ] in
/-- The loop looks at the flag only where it handles an event. -/
theorem handlesEvent_of_op (h : label.op config = .look) : label.handlesEvent = true := by
  cases label with
  | main action => cases action <;> first | rfl | cases h
  | start => rw [Label.op] at h; split_ifs at h
  | _ => cases h

omit [DecidableEq τ] in
theorem gives_iff_op : label.gives config = true ↔ label.op config = .give := by
  cases label with
  | main action => cases action <;> simp [Label.gives, Label.op]
  | start => simp [Label.gives, Label.op]
  | _ => simp [Label.gives, Label.op]

theorem disconnectsNext_of_flag (hsound : Sound s) (hflag : s.stopClient = true) :
    DisconnectsNext config s := by
  intro quiet others t hrun hquiet hmain
  obtain ⟨u, hbefore, hrest⟩ := hrun.split
  obtain ⟨v, hlook, hothers⟩ := Run.cons_iff.mp hrest
  -- the flag is still set when the loop looks at it
  have hset : Sound u ∧ u.worker.flag = true := by
    refine RunOf.invariant (fun u => Sound u ∧ u.worker.flag = true)
      (fun label s t hlabel hs hstep => ?_) ⟨quiet, hbefore, hquiet⟩ ⟨hsound, hflag⟩
    refine ⟨sound_step hs.1 hstep, flag_step hs.2 (fun h => ?_) (worker_step hs.1 hstep)⟩
    exact absurd (handlesEvent_of_op h) (by simp [hlabel])
  have hmove := hlook.mainMove
  cases hmove with
  | testStop hpc =>
    have hstop : u.stopClient = true := hset.2
    exact disconnects_of_pc ((pc_run hmain hothers).trans
      (congrArg (fun stop => MainPc.handleRequests _ stop _) hstop))

/-- A loop that is idle does not connect. -/
theorem not_attemptsConnect_of_idle (hidle : Idle s.worker) (hstep : Step config label s t) :
    label.attemptsConnect = false := by
  cases label with
  | main action =>
    cases hattempts : (Label.main (τ := τ) action).attemptsConnect with
    | false => rfl
    | true =>
      -- a loop that connects is in a session
      have hconnecting : s.pc = .connecting := by
        have hmove := hstep.mainMove
        cases hmove <;> first | assumption | cases hattempts
      have hphase : s.worker.phase = .session := by
        simp [State.worker, State.phase, hconnecting, MainPc.isStopping]
      exact absurd hidle.phase (by simp [hphase])
  | _ => rfl

theorem idle_run {labels : List (Label τ)} (h : Run (Step config) labels s t) (hsound : Sound s)
    (hidle : Idle s.worker) (hgives : ∀ label ∈ labels, label.gives config = false) :
    ∀ label ∈ labels, label.attemptsConnect = false := by
  induction h with
  | nil => simp
  | cons hstep _ ih =>
    obtain ⟨hfirst, hrest⟩ := List.forall_mem_cons.mp hgives
    have hnext := idle_step hidle (fun h => absurd (gives_iff_op.mpr h) (by simp [hfirst]))
      (worker_step hsound hstep)
    exact List.forall_mem_cons.mpr
      ⟨not_attemptsConnect_of_idle hidle hstep, ih (sound_step hsound hstep) hnext hrest⟩

theorem connectsOnlyAfterStart_of_withheld (hsound : Sound s) (hwithheld : Withheld s.worker) :
    ConnectsOnlyAfterStart config s := by
  intro before after t hrun hgives
  obtain ⟨hbefore, hafter⟩ := List.forall_mem_append.mp hgives
  obtain ⟨u, hfirst, hrest⟩ := hrun.split
  obtain ⟨v, hclose, hlast⟩ := Run.cons_iff.mp hrest
  have hstill : Sound u ∧ Withheld u.worker := by
    refine RunOf.invariant (fun u => Sound u ∧ Withheld u.worker)
      (fun label s t hlabel hs hstep => ?_) ⟨before, hfirst, hbefore⟩ ⟨hsound, hwithheld⟩
    refine ⟨sound_step hs.1 hstep, withheld_step hs.2 (fun h => ?_) (worker_step hs.1 hstep)⟩
    exact absurd (gives_iff_op.mpr h) (by simp [hlabel])
  exact idle_run hlast (sound_step hstill.1 hclose)
    (idle_of_leave hstill.2 (worker_step hstill.1 hclose)) hafter

/-- **No stop request is lost.** Whatever the order of the calls, a client that is connected
without a start that stands, while no call of `stop` is in progress and the loop is not about to
disconnect because of one, has `FLAG_STOP_CLIENT` set. The next event makes it disconnect, and
it does not connect again until it is started. -/
theorem stop_never_lost (hreachable : Reachable (Step config) (.init τ) s)
    (hconnected : 0 ≤ s.sock) (hcalls : ∀ caller, (s.calls caller).isStop = false)
    (hpc : s.pc.isStopping = false) (hstarted : s.started = 0) :
    s.stopClient = true ∧ DisconnectsNext config s ∧ ConnectsOnlyAfterStart config s := by
  have hstanding := standing_of_reachable hreachable
  have hphase := phase_of_connected hstanding.sound hconnected hpc
  have hflag : s.stopClient = true :=
    flag_of_session hstanding.kept hphase hstarted fun caller => taken_of_isStop (hcalls caller)
  have hsignalled : s.startSignalled = false :=
    hstanding.kept.not_signalled fun h => by simp [State.worker, hphase] at h
  exact ⟨hflag, disconnectsNext_of_flag hstanding.sound hflag,
    connectsOnlyAfterStart_of_withheld hstanding.sound ⟨hstarted, hsignalled⟩⟩

/-- Credentials the client is started with. -/
def deviceCredentials : CredentialStore where
  pskId := { err := 0, bytes := [97, atSign, 98] }
  psk := { err := 0, bytes := [1] }
  serverCertificate := -Errno.enoent
  privateKey := -Errno.enoent

/-- The client is started and connects. -/
def startAndConnect : List (Label Unit) :=
  [.start deviceCredentials, .main .passWait, .main .clearReconnect, .main .flushEvents,
    .main (.openSocket 3), .main (.sendEmpty 0), .main (.setExpiries 0),
    .main (.reschedule 0 1000)]

/-- The client is stopped. -/
def stopCall : List (Label Unit) := [.stop (), .takeStarted (), .setStop (), .writeEvent ()]

/-- The loop disconnects because of a stop request it finds. -/
def stopSeen : List (Label Unit) :=
  [.main (.poll (.ready false)), .main .readEvents, .main .testReconnect, .main .testStop,
    .main (.disconnect .stopRequest 1000)]

/-- The client is started and then stopped while it waits for events. -/
def startThenStop : List (Label Unit) :=
  [.main .readSock, .main .block] ++ startAndConnect ++ stopCall

/-- The Kconfig defaults. -/
def nineSeconds : Config where
  authMethod := .psk
  pingInterval := 9000
  recvTimeout := 30000

theorem stop_never_lost_whilePolling :
    ∃ s : State Unit, s.pc = .polling ∧
      (s.stopClient = true ∧ DisconnectsNext nineSeconds s ∧
        ConnectsOnlyAfterStart nineSeconds s) := by
  obtain ⟨s, hs⟩ := Option.isSome_iff_exists.mp
    (show (Run.execute (step nineSeconds) startThenStop (.init Unit)).isSome = true by decide)
  have hfacts : (Run.execute (step nineSeconds) startThenStop (.init Unit)).map
      (fun s => (s.pc, s.sock, s.started, s.calls ())) = some (.polling, 3, 0, .idle) := by decide
  rw [hs] at hfacts
  obtain ⟨hpc, hsock, hstarted, hcalls⟩ :
      s.pc = .polling ∧ s.sock = 3 ∧ s.started = 0 ∧ s.calls () = .idle := by
    simpa using hfacts
  exact ⟨s, hpc, stop_never_lost ⟨_, Run.of_execute hs⟩ (by rw [hsock]; decide)
    (fun _ => by rw [hcalls]; rfl) (by rw [hpc]; rfl) hstarted⟩

/-! ## A stop request may end the wrong session -/

/-- Some thread has called `golioth_system_client_stop` in these steps. -/
def StopCalled (trace : List (Label τ)) : Prop := ∃ caller, Label.stop caller ∈ trace

/-- The steps since the start that allowed the present session to connect. -/
def sinceStart (config : Config) (trace : List (Label τ)) : List (Label τ) :=
  sinceAdmitted Label.passes (Label.gives config) trace

/-- Whenever the loop disconnects because of a stop request, `golioth_system_client_stop` has
been called since the start that allowed the session to connect. -/
def StopsOwnSession (config : Config) (labels : List (Label τ)) : Prop :=
  ∀ before now after, labels = before ++ .main (.disconnect .stopRequest now) :: after →
    StopCalled (sinceStart config before)

/-- The loop goes past its wait only if no stop request is left over from before: the flag is
not set and no call is about to set it, unless a stop has been called since the last start. -/
def NoneLeftOver (config : Config) : Label τ → State τ × List (Label τ) → Prop
  | .main .passWait, (s, trace) =>
    s.stopClient = false ∧
        (∀ caller, s.calls caller ≠ .stopEntered ∧ s.calls caller ≠ .stopTaken) ∨
      StopCalled (trace.rtakeWhile fun label => !label.gives config)
  | _, _ => True

omit [DecidableEq τ] in
theorem passes_op : (fun label : Label τ => (label.op config).passes) = Label.passes := by
  funext label
  cases label with
  | main action => cases action <;> rfl
  | start => rw [Label.op]; split_ifs <;> rfl
  | _ => rfl

omit [DecidableEq τ] in
theorem gives_op (config : Config) :
    (fun label : Label τ => (label.op config).gives) = Label.gives config := by
  funext label
  cases label with
  | main action => cases action <;> rfl
  | start => rw [Label.op]; split_ifs with h <;> simp [Label.gives, Op.gives, h]
  | _ => rfl

omit [DecidableEq τ] in
/-- The callers of the worker enter where a stop is called. -/
theorem entered_map_op {trace : List (Label τ)} :
    Entered (trace.map (Label.op config)) ↔ StopCalled trace := by
  refine ⟨fun ⟨caller, hmem⟩ => ?_, fun ⟨caller, hmem⟩ => ⟨caller, List.mem_map.mpr ⟨_, hmem, rfl⟩⟩⟩
  obtain ⟨label, hlabel, hop⟩ := List.mem_map.mp hmem
  cases label with
  | stop => cases hop; exact ⟨_, hlabel⟩
  | main action => cases action <;> cases hop
  | start => rw [Label.op] at hop; split_ifs at hop
  | _ => cases hop

omit [DecidableEq τ] in
theorem fresh_of_noneLeftOver {trace : List (Label τ)}
    (h : NoneLeftOver config label (s, trace)) :
    Fresh (label.op config) (s.worker, trace.map (Label.op config)) := by
  cases label with
  | main action =>
    cases action with
    | passWait =>
      rcases h with ⟨hflag, hcalls⟩ | hcalled
      · refine .inl ⟨hflag, fun caller => ?_⟩
        obtain ⟨hentered, htaken⟩ := hcalls caller
        show (s.calls caller).caller = .idle
        cases hcall : s.calls caller <;> simp_all [Call.caller]
      · refine .inr ?_
        rw [rtakeWhile_map, entered_map_op]
        simpa only [← congrFun (gives_op config)] using hcalled
    | _ => trivial
  | start => rw [Label.op]; split_ifs <;> trivial
  | _ => trivial

/-- What holds of a client and the steps it has taken. -/
structure Traced.Standing (config : Config) (s : State τ × List (Label τ)) : Prop where
  sound : Sound s.1
  owned : Owned s.1.worker (s.2.map (Label.op config))

theorem owned_of_run {labels : List (Label τ)} {t : State τ × List (Label τ)}
    (h : Run (Guarded (NoneLeftOver config) (Traced (Step config))) labels (.init τ, []) t) :
    Traced.Standing config t := by
  refine h.invariant (Traced.Standing config) (fun label s t hs hstep => ?_)
    ⟨sound_init, owned_of_away rfl⟩
  obtain ⟨hguard, hnext, htrace⟩ := hstep
  refine ⟨sound_step hs.sound hnext, ?_⟩
  rw [htrace, List.map_append]
  exact owned_step hs.owned (fresh_of_noneLeftOver hguard) (worker_step hs.sound hnext)

/-- **Stop requests.** In a run in which the loop never goes past its wait with a stop request
left over, each stop request ends only the session it was made for. -/
theorem stopsOwnSession_of_noneLeftOver {labels : List (Label τ)} {t : State τ × List (Label τ)}
    (h : Run (Guarded (NoneLeftOver config) (Traced (Step config))) labels (.init τ, []) t) :
    StopsOwnSession config labels := by
  rintro before now after rfl
  obtain ⟨u, hbefore, hrest⟩ := h.split
  obtain ⟨⟨v, _⟩, ⟨-, hstep, -⟩, -⟩ := Run.cons_iff.mp hrest
  have htrace : u.2 = before := hbefore.trace_eq
  have hmove := hstep.mainMove
  cases hmove with
  | disconnect hpc hreason =>
    -- the loop has seen the flag, which some caller set since the start
    have hphase : u.1.worker.phase = .stopping := by
      have hstop := (reason_eq_stopRequest_iff hreason).mp rfl
      simp [State.worker, State.phase, hpc, hstop, MainPc.isStopping]
    have hentered := (owned_of_run hbefore).owned.stopping hphase
    rw [htrace, sinceAdmitted_map, passes_op, gives_op, entered_map_op] at hentered
    exact hentered

/-- The client is stopped while it is not started, and started after that. -/
def stopThenStart : List (Label Unit) :=
  [.main .readSock, .main .block] ++ stopCall ++ startAndConnect ++ [.notifyTimeout]

theorem stopThenStart_endsNextSession :
    ¬ ∀ labels t, Run (Step nineSeconds) labels (State.init Unit) t →
      StopsOwnSession nineSeconds labels := by
  intro h
  obtain ⟨t, ht⟩ := Option.isSome_iff_exists.mp
    (show (Run.execute (step nineSeconds) (stopThenStart ++ stopSeen) (.init Unit)).isSome = true
      by decide)
  obtain ⟨caller, hmem⟩ := h _ _ (Run.of_execute ht) (stopThenStart ++ stopSeen.dropLast) 1000 []
    rfl
  cases caller
  exact absurd hmem (by decide)

/-- No stop request is left over, by the flag and the only caller. -/
private def checkNoneLeftOver : Label Unit → State Unit × List (Label Unit) → Bool
  | .main .passWait, (s, _) => !s.stopClient && s.calls () = .idle
  | _, _ => true

private theorem noneLeftOver_of_check (label : Label Unit) (s : State Unit × List (Label Unit))
    (h : checkNoneLeftOver label s = true) : NoneLeftOver config label s := by
  unfold NoneLeftOver
  split
  · obtain ⟨hflag, hidle⟩ := Bool.and_eq_true_iff.mp h
    have hcall := of_decide_eq_true hidle
    exact .inl ⟨by simpa using hflag, fun _ => by simp [hcall]⟩
  · trivial

theorem stopsOwnSession_of_noneLeftOver_startThenStop :
    StopsOwnSession nineSeconds (startThenStop ++ stopSeen) := by
  obtain ⟨t, ht⟩ := Option.isSome_iff_exists.mp
    (show (Run.executeIf checkNoneLeftOver (tracing (step nineSeconds))
      (startThenStop ++ stopSeen) (.init Unit, [])).isSome = true by decide)
  exact stopsOwnSession_of_noneLeftOver (Run.of_executeIf_tracing noneLeftOver_of_check ht)

end Golioth.SystemClient
