/-
# The loop of the system client

One thread connects the client, waits for events and disconnects it again; any
number of other threads ask it to start, to stop or to reconnect. They share a
semaphore, two atomic flags and an event descriptor. The model interleaves the
single accesses to these: the loop has a program counter that stands between two
accesses, and so has every call another thread is in the middle of.
-/
import Golioth.Platform
import Golioth.CS.Transition

namespace Golioth.SystemClient

/-! ## Credentials -/

/-- How the client authenticates, `GOLIOTH_AUTH_METHOD`. -/
inductive AuthMethod
  | psk
  | cert
  | custom
  deriving DecidableEq, Repr

structure Config where
  authMethod : AuthMethod
  /-- `PING_INTERVAL`, in milliseconds. -/
  pingInterval : ℤ
  /-- `RECV_TIMEOUT`, in milliseconds. -/
  recvTimeout : ℤ

/-- What reading a credential into a buffer gives: an error code and the bytes read. -/
structure Credential where
  err : ℤ
  bytes : List UInt8 := []
  deriving DecidableEq, Repr

/-- What `tls_credential_get` returns for the credentials of the client. The certificate
and the private key are read into no buffer, which gives `-EFBIG` where they exist. -/
structure CredentialStore where
  pskId : Credential
  psk : Credential
  serverCertificate : ℤ
  privateKey : ℤ
  deriving DecidableEq, Repr

/-- The sign `@`, which separates the name of a device from that of its project. -/
def atSign : UInt8 := 64

def pskIdIsValid (pskId : List UInt8) : Bool := pskId.contains atSign

def pskIsValid (psk : List UInt8) : Bool := 0 < psk.length

def checkPskCredentials (store : CredentialStore) : ℤ :=
  let err :=
    if store.pskId.err < 0 then store.pskId.err
    else if ¬ pskIdIsValid store.pskId.bytes then -Errno.einval
    else if store.psk.err < 0 then store.psk.err
    else if ¬ pskIsValid store.psk.bytes then -Errno.einval
    else store.psk.err
  -- credentials that cannot be accessed are taken to be valid
  if err = -Errno.eacces then 0 else err

def checkCertCredentials (store : CredentialStore) : ℤ :=
  if store.serverCertificate = -Errno.enoent then -Errno.enoent
  else if store.privateKey = -Errno.enoent then -Errno.enoent
  else if store.privateKey = -Errno.efbig then 0
  else store.privateKey

/-- What `golioth_system_client_start` finds out before it gives the semaphore. -/
def checkCredentials (config : Config) (store : CredentialStore) : ℤ :=
  match config.authMethod with
  | .psk => checkPskCredentials store
  | .cert => checkCertCredentials store
  | .custom => 0

/-! ## States -/

/-- Why the loop disconnects. -/
inductive Reason
  | stopRequest
  | reconnectRequest
  | receiveTimeout
  | receiveError
  deriving DecidableEq, Repr

/-- Where `golioth_system_client_main` stands. -/
inductive MainPc
  /-- Before `client->sock` is looked at. -/
  | top
  | waitForClientStart
  /-- In `k_poll`, with the semaphore not available. -/
  | blocked
  | flushReconnect
  | flushEvents
  /-- In `client_connect`, with no socket. -/
  | connecting
  /-- In `client_connect`, with a socket over which nothing has been sent. -/
  | handshaking
  | setExpiries
  | sleeping
  | pollPrepare
  | polling
  | readEvents (socketReady : Bool)
  | testReconnect (socketReady : Bool)
  | testStop (reconnectRequest socketReady : Bool)
  | handleRequests (reconnectRequest stopRequest socketReady : Bool)
  | handleSocket (socketReady : Bool)
  | disconnecting (reason : Reason)
  /-- The loop has been left after an error of `zsock_poll`. -/
  | exited
  deriving DecidableEq, Repr

/-- Where a call of one of the other threads stands. -/
inductive Call
  | idle
  /-- In `golioth_system_client_stop`, before `k_sem_take`. -/
  | stopEntered
  /-- In `golioth_system_client_stop`, before `atomic_test_and_set_bit`. -/
  | stopTaken
  /-- In `golioth_system_client_stop`, before `eventfd_write`. -/
  | stopSet
  | reconnectEntered
  | reconnectSet
  deriving DecidableEq, Repr

/-- A call of `golioth_system_client_stop` is in progress. -/
def Call.isStop : Call → Bool
  | .stopEntered | .stopTaken | .stopSet => true
  | .idle | .reconnectEntered | .reconnectSet => false

/-- The state of the client, which the threads `τ` call. -/
structure State (τ : Type) where
  /-- `client->sock`. -/
  sock : ℤ
  /-- The count of `sys_client_started`, which is at most one. -/
  started : ℕ
  /-- `sys_client_poll_start` has been signalled. -/
  startSignalled : Bool
  /-- `FLAG_RECONNECT`. -/
  reconnect : Bool
  /-- `FLAG_STOP_CLIENT`. -/
  stopClient : Bool
  /-- The counter of the event descriptor. -/
  events : ℕ
  /-- The delay `eventfd_timeout` is scheduled with, in milliseconds. -/
  timeout : Option ℤ
  recvExpiry : ℤ
  pingExpiry : ℤ
  pc : MainPc
  calls : τ → Call

/-- The client after `golioth_system_init`. -/
def State.init (τ : Type) : State τ where
  sock := -1
  started := 0
  startSignalled := false
  reconnect := false
  stopClient := false
  events := 0
  timeout := none
  recvExpiry := 0
  pingExpiry := 0
  pc := .top
  calls := fun _ => .idle

/-! ## The steps of the loop -/

/-- How `zsock_poll` returns. -/
inductive PollResult
  | error
  | timeout
  | ready (socketReady : Bool)
  deriving DecidableEq, Repr

/-- A step of `golioth_system_client_main`, with what the system returns in it. -/
inductive MainStep
  | readSock
  /-- `k_poll` finds the semaphore not available. -/
  | block
  /-- `k_poll` returns. -/
  | passWait
  | clearReconnect
  | flushEvents
  /-- A socket has been connected to an address of the server. -/
  | openSocket (sock : ℤ)
  /-- The empty packet that starts the handshake has been sent, or not. -/
  | sendEmpty (err : ℤ)
  | connectFailed
  | setExpiries (now : ℤ)
  | wake
  /-- `golioth_poll_prepare` returns a timeout. -/
  | reschedule (now goliothTimeout : ℤ)
  | poll (result : PollResult)
  | readEvents
  | testReconnect
  | testStop
  | disconnect (reason : Reason) (now : ℤ)
  | keepAlive (now : ℤ)
  | processRx (err now : ℤ)
  | skipSocket
  | close
  deriving DecidableEq, Repr

/-- What the loop does about the requests it has seen and the time. -/
def reasonToDisconnect (reconnectRequest receiveTimeout stopRequest : Bool) : Option Reason :=
  if stopRequest then some .stopRequest
  else if reconnectRequest then some .reconnectRequest
  else if receiveTimeout then some .receiveTimeout
  else none

variable {τ : Type}

/-- One step of the loop, where the loop is about to take it. -/
def mainStep (config : Config) : MainStep → State τ → Option (State τ)
  | .readSock, s =>
    if s.pc = .top then
      some { s with pc := if s.sock < 0 then .waitForClientStart else .pollPrepare }
    else none
  | .block, s =>
    if s.pc = .waitForClientStart ∧ s.started = 0 then some { s with pc := .blocked } else none
  | .passWait, s =>
    if s.pc = .waitForClientStart ∧ 0 < s.started ∨ s.pc = .blocked ∧ s.startSignalled then
      some { s with pc := .flushReconnect, startSignalled := false }
    else none
  -- flush pending events: the flag that stops the client is not among them
  | .clearReconnect, s =>
    if s.pc = .flushReconnect then some { s with pc := .flushEvents, reconnect := false }
    else none
  | .flushEvents, s =>
    if s.pc = .flushEvents then some { s with pc := .connecting, events := 0 } else none
  | .openSocket sock, s =>
    if s.pc = .connecting ∧ 0 ≤ sock then some { s with pc := .handshaking, sock := sock }
    else none
  | .sendEmpty err, s =>
    if s.pc = .handshaking then
      -- the next address is tried where the packet cannot be sent
      some (if err = 0 then { s with pc := .setExpiries }
        else { s with pc := .connecting, sock := -1 })
    else none
  | .connectFailed, s =>
    if s.pc = .connecting then some { s with pc := .sleeping } else none
  | .setExpiries now, s =>
    if s.pc = .setExpiries then
      some { s with
        pc := .pollPrepare
        recvExpiry := now + config.recvTimeout
        pingExpiry := now + config.pingInterval }
    else none
  -- connecting is tried again five seconds after it has failed
  | .wake, s => if s.pc = .sleeping then some { s with pc := .top } else none
  | .reschedule now goliothTimeout, s =>
    if s.pc = .pollPrepare then
      -- what expires first: receiving, the next ping or a request
      let timeout := min (min s.recvExpiry s.pingExpiry - now) goliothTimeout
      some { s with pc := .polling, timeout := some (max timeout 0) }
    else none
  | .poll .error, s => if s.pc = .polling then some { s with pc := .exited } else none
  | .poll .timeout, s =>
    if s.pc = .polling then some { s with pc := .testReconnect false } else none
  | .poll (.ready socketReady), s =>
    if s.pc = .polling ∧ (0 < s.events ∨ socketReady) then
      some { s with
        pc := if 0 < s.events then .readEvents socketReady else .handleSocket socketReady }
    else none
  -- every event is taken at once, and the flags say what they were for
  | .readEvents, s =>
    match s.pc with
    | .readEvents socketReady => some { s with pc := .testReconnect socketReady, events := 0 }
    | _ => none
  | .testReconnect, s =>
    match s.pc with
    | .testReconnect socketReady =>
      some { s with pc := .testStop s.reconnect socketReady, reconnect := false }
    | _ => none
  | .testStop, s =>
    match s.pc with
    | .testStop reconnectRequest socketReady =>
      some { s with
        pc := .handleRequests reconnectRequest s.stopClient socketReady
        stopClient := false }
    | _ => none
  | .disconnect reason now, s =>
    match s.pc with
    | .handleRequests reconnectRequest stopRequest _ =>
      if reasonToDisconnect reconnectRequest (s.recvExpiry ≤ now) stopRequest = some reason then
        some { s with pc := .disconnecting reason }
      else none
    | _ => none
  | .keepAlive now, s =>
    match s.pc with
    | .handleRequests reconnectRequest stopRequest socketReady =>
      if reasonToDisconnect reconnectRequest (s.recvExpiry ≤ now) stopRequest = none then
        some { s with
          pc := .handleSocket socketReady
          pingExpiry := if s.pingExpiry ≤ now then now + config.pingInterval else s.pingExpiry }
      else none
    | _ => none
  | .processRx err now, s =>
    if s.pc = .handleSocket true then
      some { s with
        pc := if err = 0 then .top else .disconnecting .receiveError
        recvExpiry := now + config.recvTimeout
        pingExpiry := now + config.pingInterval }
    else none
  | .skipSocket, s =>
    if s.pc = .handleSocket false then some { s with pc := .top } else none
  -- the loop starts over, and waits for the client to be started
  | .close, s =>
    match s.pc with
    | .disconnecting _ => some { s with pc := .top, sock := -1, timeout := none }
    | _ => none

/-- The branches of the loop, one for each way a step can go. -/
inductive MainMove (config : Config) : MainStep → State τ → State τ → Prop
  | wait {s : State τ} (hpc : s.pc = .top) (hsock : s.sock < 0) :
      MainMove config .readSock s { s with pc := .waitForClientStart }
  | goOn {s : State τ} (hpc : s.pc = .top) (hsock : 0 ≤ s.sock) :
      MainMove config .readSock s { s with pc := .pollPrepare }
  | block {s : State τ} (hpc : s.pc = .waitForClientStart) (hstarted : s.started = 0) :
      MainMove config .block s { s with pc := .blocked }
  | passWait {s : State τ}
      (havailable : s.pc = .waitForClientStart ∧ 0 < s.started ∨
        s.pc = .blocked ∧ s.startSignalled = true) :
      MainMove config .passWait s { s with pc := .flushReconnect, startSignalled := false }
  | clearReconnect {s : State τ} (hpc : s.pc = .flushReconnect) :
      MainMove config .clearReconnect s { s with pc := .flushEvents, reconnect := false }
  | flushEvents {s : State τ} (hpc : s.pc = .flushEvents) :
      MainMove config .flushEvents s { s with pc := .connecting, events := 0 }
  | openSocket {s : State τ} {sock : ℤ} (hpc : s.pc = .connecting) (hsock : 0 ≤ sock) :
      MainMove config (.openSocket sock) s { s with pc := .handshaking, sock := sock }
  | connected {s : State τ} (hpc : s.pc = .handshaking) :
      MainMove config (.sendEmpty 0) s { s with pc := .setExpiries }
  | refused {s : State τ} {err : ℤ} (hpc : s.pc = .handshaking) (herr : err ≠ 0) :
      MainMove config (.sendEmpty err) s { s with pc := .connecting, sock := -1 }
  | connectFailed {s : State τ} (hpc : s.pc = .connecting) :
      MainMove config .connectFailed s { s with pc := .sleeping }
  | setExpiries {s : State τ} {now : ℤ} (hpc : s.pc = .setExpiries) :
      MainMove config (.setExpiries now) s
        { s with
          pc := .pollPrepare
          recvExpiry := now + config.recvTimeout
          pingExpiry := now + config.pingInterval }
  | wake {s : State τ} (hpc : s.pc = .sleeping) : MainMove config .wake s { s with pc := .top }
  | reschedule {s : State τ} {now goliothTimeout : ℤ} (hpc : s.pc = .pollPrepare) :
      MainMove config (.reschedule now goliothTimeout) s
        { s with
          pc := .polling
          timeout := some (max (min (min s.recvExpiry s.pingExpiry - now) goliothTimeout) 0) }
  | pollError {s : State τ} (hpc : s.pc = .polling) :
      MainMove config (.poll .error) s { s with pc := .exited }
  | pollTimeout {s : State τ} (hpc : s.pc = .polling) :
      MainMove config (.poll .timeout) s { s with pc := .testReconnect false }
  | pollEvents {s : State τ} {socketReady : Bool} (hpc : s.pc = .polling)
      (hevents : 0 < s.events) :
      MainMove config (.poll (.ready socketReady)) s { s with pc := .readEvents socketReady }
  | pollSocket {s : State τ} (hpc : s.pc = .polling) (hevents : s.events = 0) :
      MainMove config (.poll (.ready true)) s { s with pc := .handleSocket true }
  | readEvents {s : State τ} {socketReady : Bool} (hpc : s.pc = .readEvents socketReady) :
      MainMove config .readEvents s { s with pc := .testReconnect socketReady, events := 0 }
  | testReconnect {s : State τ} {socketReady : Bool} (hpc : s.pc = .testReconnect socketReady) :
      MainMove config .testReconnect s
        { s with pc := .testStop s.reconnect socketReady, reconnect := false }
  | testStop {s : State τ} {reconnectRequest socketReady : Bool}
      (hpc : s.pc = .testStop reconnectRequest socketReady) :
      MainMove config .testStop s
        { s with
          pc := .handleRequests reconnectRequest s.stopClient socketReady
          stopClient := false }
  | disconnect {s : State τ} {reconnectRequest stopRequest socketReady : Bool} {reason : Reason}
      {now : ℤ} (hpc : s.pc = .handleRequests reconnectRequest stopRequest socketReady)
      (hreason : reasonToDisconnect reconnectRequest (s.recvExpiry ≤ now) stopRequest =
        some reason) :
      MainMove config (.disconnect reason now) s { s with pc := .disconnecting reason }
  | keepAlive {s : State τ} {reconnectRequest stopRequest socketReady : Bool} {now : ℤ}
      (hpc : s.pc = .handleRequests reconnectRequest stopRequest socketReady)
      (hreason : reasonToDisconnect reconnectRequest (s.recvExpiry ≤ now) stopRequest = none) :
      MainMove config (.keepAlive now) s
        { s with
          pc := .handleSocket socketReady
          pingExpiry := if s.pingExpiry ≤ now then now + config.pingInterval else s.pingExpiry }
  | received {s : State τ} {now : ℤ} (hpc : s.pc = .handleSocket true) :
      MainMove config (.processRx 0 now) s
        { s with
          pc := .top
          recvExpiry := now + config.recvTimeout
          pingExpiry := now + config.pingInterval }
  | receiveFailed {s : State τ} {err now : ℤ} (hpc : s.pc = .handleSocket true) (herr : err ≠ 0) :
      MainMove config (.processRx err now) s
        { s with
          pc := .disconnecting .receiveError
          recvExpiry := now + config.recvTimeout
          pingExpiry := now + config.pingInterval }
  | skipSocket {s : State τ} (hpc : s.pc = .handleSocket false) :
      MainMove config .skipSocket s { s with pc := .top }
  | close {s : State τ} {reason : Reason} (hpc : s.pc = .disconnecting reason) :
      MainMove config .close s { s with pc := .top, sock := -1, timeout := none }

/-- **Inversion.** A step of the loop takes one of its branches. -/
theorem mainMove_of_step {config : Config} {action : MainStep} {s t : State τ}
    (hstep : mainStep config action s = some t) : MainMove config action s t := by
  cases action with
  | readSock =>
    obtain ⟨hpc, h⟩ := Option.ite_none_right_eq_some.mp hstep
    obtain rfl := Option.some_inj.mp h
    split_ifs with hsock
    · exact .wait hpc hsock
    · exact .goOn hpc (not_lt.mp hsock)
  | block =>
    obtain ⟨⟨hpc, hstarted⟩, h⟩ := Option.ite_none_right_eq_some.mp hstep
    exact Option.some_inj.mp h ▸ .block hpc hstarted
  | passWait =>
    obtain ⟨havailable, h⟩ := Option.ite_none_right_eq_some.mp hstep
    exact Option.some_inj.mp h ▸ .passWait havailable
  | clearReconnect =>
    obtain ⟨hpc, h⟩ := Option.ite_none_right_eq_some.mp hstep
    exact Option.some_inj.mp h ▸ .clearReconnect hpc
  | flushEvents =>
    obtain ⟨hpc, h⟩ := Option.ite_none_right_eq_some.mp hstep
    exact Option.some_inj.mp h ▸ .flushEvents hpc
  | openSocket sock =>
    obtain ⟨⟨hpc, hsock⟩, h⟩ := Option.ite_none_right_eq_some.mp hstep
    exact Option.some_inj.mp h ▸ .openSocket hpc hsock
  | sendEmpty err =>
    obtain ⟨hpc, h⟩ := Option.ite_none_right_eq_some.mp hstep
    obtain rfl := Option.some_inj.mp h
    split_ifs with herr
    · exact herr ▸ .connected hpc
    · exact .refused hpc herr
  | connectFailed =>
    obtain ⟨hpc, h⟩ := Option.ite_none_right_eq_some.mp hstep
    exact Option.some_inj.mp h ▸ .connectFailed hpc
  | setExpiries now =>
    obtain ⟨hpc, h⟩ := Option.ite_none_right_eq_some.mp hstep
    exact Option.some_inj.mp h ▸ .setExpiries hpc
  | wake =>
    obtain ⟨hpc, h⟩ := Option.ite_none_right_eq_some.mp hstep
    exact Option.some_inj.mp h ▸ .wake hpc
  | reschedule now goliothTimeout =>
    obtain ⟨hpc, h⟩ := Option.ite_none_right_eq_some.mp hstep
    exact Option.some_inj.mp h ▸ .reschedule hpc
  | poll result =>
    cases result with
    | error =>
      obtain ⟨hpc, h⟩ := Option.ite_none_right_eq_some.mp hstep
      exact Option.some_inj.mp h ▸ .pollError hpc
    | timeout =>
      obtain ⟨hpc, h⟩ := Option.ite_none_right_eq_some.mp hstep
      exact Option.some_inj.mp h ▸ .pollTimeout hpc
    | ready socketReady =>
      obtain ⟨⟨hpc, hready⟩, h⟩ := Option.ite_none_right_eq_some.mp hstep
      obtain rfl := Option.some_inj.mp h
      split_ifs with hevents
      · exact .pollEvents hpc hevents
      · obtain rfl := hready.resolve_left hevents
        exact .pollSocket hpc (Nat.eq_zero_of_not_pos hevents)
  | readEvents =>
    rw [mainStep] at hstep
    split at hstep
    · next hpc => exact Option.some_inj.mp hstep ▸ .readEvents hpc
    · cases hstep
  | testReconnect =>
    rw [mainStep] at hstep
    split at hstep
    · next hpc => exact Option.some_inj.mp hstep ▸ .testReconnect hpc
    · cases hstep
  | testStop =>
    rw [mainStep] at hstep
    split at hstep
    · next hpc => exact Option.some_inj.mp hstep ▸ .testStop hpc
    · cases hstep
  | disconnect reason now =>
    rw [mainStep] at hstep
    split at hstep
    · next hpc =>
      obtain ⟨hreason, h⟩ := Option.ite_none_right_eq_some.mp hstep
      exact Option.some_inj.mp h ▸ .disconnect hpc hreason
    · cases hstep
  | keepAlive now =>
    rw [mainStep] at hstep
    split at hstep
    · next hpc =>
      obtain ⟨hreason, h⟩ := Option.ite_none_right_eq_some.mp hstep
      exact Option.some_inj.mp h ▸ .keepAlive hpc hreason
    · cases hstep
  | processRx err now =>
    obtain ⟨hpc, h⟩ := Option.ite_none_right_eq_some.mp hstep
    obtain rfl := Option.some_inj.mp h
    split_ifs with herr
    · exact herr ▸ .received hpc
    · exact .receiveFailed hpc herr
  | skipSocket =>
    obtain ⟨hpc, h⟩ := Option.ite_none_right_eq_some.mp hstep
    exact Option.some_inj.mp h ▸ .skipSocket hpc
  | close =>
    rw [mainStep] at hstep
    split at hstep
    · next hpc => exact Option.some_inj.mp hstep ▸ .close hpc
    · cases hstep

/-! ## The steps of the other threads -/

/-- A step of the client or of its surroundings. -/
inductive Label (τ : Type)
  | main (step : MainStep)
  /-- `golioth_system_client_start`, which finds these credentials. -/
  | start (store : CredentialStore)
  /-- A thread calls `golioth_system_client_stop`. -/
  | stop (caller : τ)
  | takeStarted (caller : τ)
  | setStop (caller : τ)
  /-- A thread calls `golioth_system_client_request_reconnect`. -/
  | requestReconnect (caller : τ)
  | setReconnect (caller : τ)
  | writeEvent (caller : τ)
  /-- `golioth_system_client_wakeup`. -/
  | wakeup
  /-- `eventfd_timeout_handle`. -/
  | notifyTimeout
  deriving DecidableEq, Repr

/-- A call of `golioth_system_client_start` that gives the semaphore. -/
def Label.gives (config : Config) : Label τ → Bool
  | .start store => checkCredentials config store = 0
  | _ => false

/-- The loop goes past its wait for a start. -/
def Label.passes : Label τ → Bool
  | .main .passWait => true
  | _ => false

/-- The loop clears `FLAG_STOP_CLIENT`, which it does for each event it handles. -/
def Label.handlesEvent : Label τ → Bool
  | .main .testStop => true
  | _ => false

/-- A step of the loop. -/
def Label.isMain : Label τ → Bool
  | .main _ => true
  | _ => false

/-- The loop tries to connect: it opens a socket or finds that it cannot. -/
def Label.attemptsConnect : Label τ → Bool
  | .main (.openSocket _) | .main .connectFailed => true
  | _ => false

/-- `k_sem_give`, which also signals the loop where it is blocked in `k_poll`. -/
def semGive (s : State τ) : State τ :=
  { s with
    started := if s.started = 1 then s.started else s.started + 1
    startSignalled := s.startSignalled || s.pc = .blocked }

/-- `k_sem_take` with `K_NO_WAIT`. -/
def semTake (s : State τ) : State τ := { s with started := s.started - 1 }

variable [DecidableEq τ]

def State.setCall (s : State τ) (caller : τ) (call : Call) : State τ :=
  { s with calls := Function.update s.calls caller call }

/-- One step of the client, if it can be taken. -/
def step (config : Config) : Label τ → State τ → Option (State τ)
  | .main action, s => mainStep config action s
  | .start store, s => some (if checkCredentials config store = 0 then semGive s else s)
  | .stop caller, s =>
    if s.calls caller = .idle then some (s.setCall caller .stopEntered) else none
  | .takeStarted caller, s =>
    if s.calls caller = .stopEntered then some ((semTake s).setCall caller .stopTaken) else none
  | .setStop caller, s =>
    if s.calls caller = .stopTaken then
      -- the event is written only by the call that sets the flag
      some ({ s with stopClient := true }.setCall caller (if s.stopClient then .idle else .stopSet))
    else none
  | .requestReconnect caller, s =>
    if s.calls caller = .idle then some (s.setCall caller .reconnectEntered) else none
  | .setReconnect caller, s =>
    if s.calls caller = .reconnectEntered then
      some ({ s with reconnect := true }.setCall caller
        (if s.reconnect then .idle else .reconnectSet))
    else none
  | .writeEvent caller, s =>
    if s.calls caller = .stopSet ∨ s.calls caller = .reconnectSet then
      some ({ s with events := s.events + 1 }.setCall caller .idle)
    else none
  | .wakeup, s => some { s with events := s.events + 1 }
  | .notifyTimeout, s =>
    if s.timeout.isSome then some { s with events := s.events + 1, timeout := none } else none

/-- The steps of the client, with every interleaving of the threads. -/
def Step (config : Config) : Label τ → State τ → State τ → Prop :=
  fun label s t => step config label s = some t

theorem Step.mainMove {config : Config} {action : MainStep} {s t : State τ}
    (h : Step config (.main action) s t) : MainMove config action s t :=
  mainMove_of_step h

/-- What a step of another thread may do: it leaves the loop where it is, and writes the event
descriptor or does not. -/
structure Disturbs (s t : State τ) : Prop where
  pc : t.pc = s.pc
  sock : t.sock = s.sock
  recvExpiry : t.recvExpiry = s.recvExpiry
  pingExpiry : t.pingExpiry = s.pingExpiry
  bell : t.timeout = s.timeout ∧ t.events = s.events ∨
    (t.timeout.isSome = true → s.timeout.isSome = true) ∧ t.events = s.events + 1

/-- **Inversion.** -/
theorem disturbs_of_step {config : Config} {label : Label τ} {s t : State τ}
    (hmain : label.isMain = false) (hstep : Step config label s t) : Disturbs s t := by
  cases label with
  | main action => cases hmain
  | start store =>
    obtain rfl := Option.some_inj.mp hstep
    split <;> exact ⟨rfl, rfl, rfl, rfl, .inl ⟨rfl, rfl⟩⟩
  | stop | takeStarted | setStop | requestReconnect | setReconnect =>
    obtain ⟨-, h⟩ := Option.ite_none_right_eq_some.mp hstep
    exact Option.some_inj.mp h ▸ ⟨rfl, rfl, rfl, rfl, .inl ⟨rfl, rfl⟩⟩
  | writeEvent =>
    obtain ⟨-, h⟩ := Option.ite_none_right_eq_some.mp hstep
    exact Option.some_inj.mp h ▸ ⟨rfl, rfl, rfl, rfl, .inr ⟨id, rfl⟩⟩
  | wakeup => exact Option.some_inj.mp hstep ▸ ⟨rfl, rfl, rfl, rfl, .inr ⟨id, rfl⟩⟩
  | notifyTimeout =>
    obtain ⟨-, h⟩ := Option.ite_none_right_eq_some.mp hstep
    exact Option.some_inj.mp h ▸ ⟨rfl, rfl, rfl, rfl, .inr ⟨fun h => (by cases h), rfl⟩⟩

end Golioth.SystemClient
