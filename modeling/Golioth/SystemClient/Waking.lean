/-
# The loop and its requests

The loop of the system client asks the request module how long it may sleep, sets its
alarm and sleeps. Requests are submitted meanwhile, by other threads and by callbacks
that the module invokes; each submission that succeeds is followed by a write to the
event descriptor.

The two models are put together here. A step of the loop in which it calls the request
module is taken with the operation of the module, and the operations it calls before a
step of its own have to come first. Everything else is interleaved.
-/
import Golioth.CS.Doorbell
import Golioth.Requests.Receiving
import Golioth.Requests.Wakeups
import Golioth.Requests.Disconnect
import Golioth.SystemClient.Stopping

namespace Golioth.SystemClient

open Golioth.Requests (Client CoapReq Env Receiver Submission WellFormed ClosedEmpty wakeups
  coapReqsPollPrepare coapReqsOnConnect coapReqsOnDisconnect goliothProcessRx timeLeft)

variable {τ κ σ : Type}

/-! ## The client with its requests -/

/-- The client: its loop, and the requests the loop works on. -/
structure System (τ κ σ : Type) where
  loop : State τ
  requests : Client κ σ
  /-- `golioth_timeout`. -/
  goliothTimeout : ℤ
  /-- `golioth_poll_prepare` has returned since the loop was at its top. -/
  prepared : Bool
  /-- The time it has been given. -/
  preparedAt : ℤ
  /-- How many threads have listed a request and not called `client->wakeup` yet. -/
  waking : ℕ

/-- The client after `golioth_system_init`. -/
def System.init (τ κ : Type) {σ : Type} (app : σ) : System τ κ σ where
  loop := .init τ
  requests := .init app
  goliothTimeout := 0
  prepared := false
  preparedAt := 0
  waking := 0

inductive SystemLabel (τ κ : Type)
  /-- A step that the request module has no part in. -/
  | loop (label : Label τ)
  /-- `golioth_poll_prepare`. -/
  | pollPrepare (now : ℤ) (visits : ℕ)
  /-- `golioth_process_rx`, with a datagram waiting. -/
  | processRx (datagram : List UInt8) (now : ℤ)
  /-- `golioth_coap_reqs_on_connect`. -/
  | onConnect
  /-- `golioth_coap_reqs_on_disconnect`. -/
  | onDisconnect
  /-- A thread submits a request, up to its call of `client->wakeup`. -/
  | submit (submission : Submission κ)
  /-- `golioth_system_client_wakeup`. -/
  | wakeup

/-- The event descriptor is written. -/
def State.ring (s : State τ) (count : ℕ) : State τ := { s with events := s.events + count }

/-- What the loop does after a call of the request module waits for that call. -/
def System.permits (s : System τ κ σ) : Label τ → Bool
  | .main (.reschedule _ goliothTimeout) => s.prepared && goliothTimeout = s.goliothTimeout
  | .main (.setExpiries _) => s.requests.coapReqsConnected
  | .main .close => ¬ s.requests.coapReqsConnected
  | .wakeup => false
  | _ => true

/-- The requests after a call of the request module by the loop. Those that its callbacks have
submitted have woken the loop. -/
def System.called (s : System τ κ σ) (requests : Client κ σ) : System τ κ σ :=
  { s with
    loop := s.loop.ring (wakeups requests - wakeups s.requests)
    requests := requests }

/-- The client after a step of its loop or of another thread. -/
def System.moved (s : System τ κ σ) (loop : State τ) : System τ κ σ :=
  { s with loop := loop, prepared := s.prepared && loop.pc = MainPc.pollPrepare }

/-- The client after a pass over the requests at the time `now`. -/
def System.polled (s : System τ κ σ) (now : ℤ) (result : ℤ × Client κ σ) : System τ κ σ :=
  { s.called result.2 with goliothTimeout := result.1, prepared := true, preparedAt := now }

/-- The client after a submission by another thread. -/
def System.submitted (s : System τ κ σ) (requests : Client κ σ) : System τ κ σ :=
  { s with
    requests := requests
    waking := s.waking + (wakeups requests - wakeups s.requests) }

variable [DecidableEq τ]

/-- One step of the client, if it can be taken. -/
def systemStep (config : Config) (e : Env κ σ) (r : Receiver) :
    SystemLabel τ κ → System τ κ σ → Option (System τ κ σ)
  | .loop label, s =>
    if s.permits label then (step config label s.loop).map s.moved else none
  | .pollPrepare now visits, s =>
    if s.loop.pc = .pollPrepare ∧ s.prepared = false then
      (coapReqsPollPrepare e now visits s.requests).map (s.polled now)
    else none
  | .processRx datagram now, s =>
    let received := goliothProcessRx e r datagram s.requests
    (mainStep config (.processRx received.1 now) s.loop).map fun loop =>
      { s with loop := loop }.called received.2
  | .onConnect, s =>
    if s.loop.pc = .setExpiries ∧ s.requests.coapReqsConnected = false then
      some { s with requests := coapReqsOnConnect s.requests }
    else none
  | .onDisconnect, s =>
    match s.loop.pc with
    | .disconnecting _ =>
      if s.requests.coapReqsConnected then (coapReqsOnDisconnect e s.requests).map s.called
      else none
    | _ => none
  | .submit submission, s =>
    some (s.submitted (Requests.submit e submission s.requests).2)
  | .wakeup, s =>
    if 0 < s.waking then some { s with loop := s.loop.ring 1, waking := s.waking - 1 } else none

/-- The steps of the client, with every interleaving of the threads. -/
def SystemStep (config : Config) (e : Env κ σ) (r : Receiver) :
    SystemLabel τ κ → System τ κ σ → System τ κ σ → Prop :=
  fun label s t => systemStep config e r label s = some t

variable {config : Config} {e : Env κ σ} {r : Receiver} {label : SystemLabel τ κ}
  {s t : System τ κ σ}

/-! ## Requests are listed while there is a socket -/

/-- The parts of the client fit together: the loop has called the request module where it
stands. -/
structure Fits (s : System τ κ σ) : Prop where
  loop : Sound s.loop
  wellFormed : WellFormed s.requests
  closedEmpty : ClosedEmpty s.requests
  prepared : s.prepared = true → s.loop.pc = .pollPrepare ∧ 0 ≤ s.goliothTimeout
  connected : s.requests.coapReqsConnected = true → 0 ≤ s.loop.sock ∧ s.loop.pc ≠ .handshaking

omit [DecidableEq τ] in
theorem fits_init (app : σ) : Fits (System.init τ κ app) where
  loop := sound_init
  wellFormed := Requests.wellFormed_init app
  closedEmpty _ := rfl
  prepared h := by cases h
  connected h := by cases h

omit [DecidableEq τ] in
theorem sound_ring {loop : State τ} (h : Sound loop) (count : ℕ) : Sound (loop.ring count) :=
  ⟨h.opened, h.closed⟩

omit [DecidableEq τ] in
/-- No step of the loop closes the socket while requests are listed. -/
theorem connected_mainMove {action : MainStep} {loop : State τ} (hsound : Sound s.loop)
    (hpermits : s.permits (.main action) = true) (hmove : MainMove config action s.loop loop)
    (hconnected : s.requests.coapReqsConnected = true)
    (hopen : 0 ≤ s.loop.sock ∧ s.loop.pc ≠ .handshaking) :
    0 ≤ loop.sock ∧ loop.pc ≠ .handshaking := by
  obtain ⟨hsock, hpc⟩ := hopen
  cases hmove with
  | openSocket hconnecting =>
    have hclosed := hsound.closed (by rw [hconnecting]; rfl) (by rw [hconnecting]; decide)
    exact absurd hsock (not_le.mpr hclosed)
  | connected hhandshaking | refused hhandshaking => exact absurd hhandshaking hpc
  | close => simp [System.permits, hconnected] at hpermits
  | wait | goOn | block | passWait | clearReconnect | flushEvents | connectFailed | setExpiries
  | wake | reschedule | pollError | pollTimeout | pollEvents | pollSocket | readEvents
  | testReconnect | testStop | disconnect | keepAlive | received | receiveFailed | skipSocket =>
    exact ⟨hsock, by simp⟩

omit [DecidableEq τ] in
/-- What a datagram does to the requests is what a packet does, if anything. -/
theorem fits_processRx (datagram : List UInt8) (hwf : WellFormed s.requests)
    (hempty : ClosedEmpty s.requests) :
    WellFormed (goliothProcessRx e r datagram s.requests).2 ∧
      ClosedEmpty (goliothProcessRx e r datagram s.requests).2 ∧
      (goliothProcessRx e r datagram s.requests).2.coapReqsConnected =
        s.requests.coapReqsConnected := by
  rcases Requests.goliothProcessRx_cases e r datagram s.requests with hsame | ⟨rx, -, hprocessed⟩
  · rw [hsame]
    exact ⟨hwf, hempty, rfl⟩
  · have hstep : Requests.Step e (.processRx rx) s.requests
        (goliothProcessRx e r datagram s.requests).2 := congrArg some hprocessed.symm
    refine ⟨Requests.wellFormed_step hwf hstep, Requests.closedEmpty_step hwf hempty hstep, ?_⟩
    rw [hprocessed]
    exact Requests.connected_processRx hwf rx

/-- **Step.** -/
theorem fits_step (hfits : Fits s) (hstep : SystemStep config e r label s t) : Fits t := by
  obtain ⟨hloop, hwf, hempty, hprepared, hconnected⟩ := hfits
  cases label with
  | loop label =>
    obtain ⟨hpermits, h⟩ := Option.ite_none_right_eq_some.mp hstep
    obtain ⟨loop, hafter, rfl⟩ := Option.map_eq_some_iff.mp h
    refine ⟨sound_step hloop hafter, hwf, hempty, fun hafter => ?_, fun hlisted => ?_⟩
    · obtain ⟨hbefore, hpc⟩ : s.prepared = true ∧ loop.pc = .pollPrepare := by
        simpa [System.moved] using hafter
      exact ⟨hpc, (hprepared hbefore).2⟩
    · cases hmain : label.isMain with
      | true =>
        obtain ⟨action, rfl⟩ : ∃ action, label = .main action := by
          cases label <;> simp [Label.isMain] at hmain ⊢
        exact connected_mainMove hloop hpermits (mainMove_of_step hafter) hlisted
          (hconnected hlisted)
      | false =>
        obtain ⟨hpc, hsock, -⟩ := disturbs_of_step hmain hafter
        exact hsock ▸ hpc ▸ hconnected hlisted
  | pollPrepare now visits =>
    obtain ⟨⟨hpc, -⟩, h⟩ := Option.ite_none_right_eq_some.mp hstep
    obtain ⟨polled, hpolled, rfl⟩ := Option.map_eq_some_iff.mp h
    have hop : Requests.Step e (.pollPrepare now visits) s.requests polled.2 :=
      Option.map_eq_some_iff.mpr ⟨polled, hpolled, rfl⟩
    refine ⟨sound_ring hloop _, Requests.wellFormed_step hwf hop,
      Requests.closedEmpty_step hwf hempty hop, fun _ => ⟨hpc, ?_⟩, fun h => ?_⟩
    · exact (Requests.timeout_pos_of_pollPrepare hpolled).le
    · exact hconnected ((Requests.connected_pollPrepare hpolled).symm.trans h)
  | processRx datagram now =>
    obtain ⟨loop, hafter, rfl⟩ := Option.map_eq_some_iff.mp hstep
    have hmove := mainMove_of_step hafter
    obtain ⟨hwf', hempty', hsame⟩ := fits_processRx (e := e) (r := r) datagram hwf hempty
    refine ⟨sound_ring (sound_mainMove hloop hmove) _, hwf', hempty', fun h => ?_, fun h => ?_⟩
    · -- the loop is where it handles the socket
      obtain ⟨hpc, -⟩ := Option.ite_none_right_eq_some.mp hafter
      exact absurd (hpc.symm.trans (hprepared h).1) (by decide)
    · have hlisted := hsame.symm.trans h
      have hopen := connected_mainMove hloop rfl hmove hlisted (hconnected hlisted)
      exact hopen
  | onConnect =>
    obtain ⟨⟨hpc, -⟩, h⟩ := Option.ite_none_right_eq_some.mp hstep
    obtain rfl := Option.some_inj.mp h
    have hop : Requests.Step e .onConnect s.requests (coapReqsOnConnect s.requests) := rfl
    refine ⟨hloop, Requests.wellFormed_step hwf hop, Requests.closedEmpty_step hwf hempty hop,
      hprepared, fun _ => ⟨hloop.opened (by rw [hpc]; rfl), by rw [hpc]; decide⟩⟩
  | onDisconnect =>
    change (match s.loop.pc with | .disconnecting _ => _ | _ => none) = some t at hstep
    split at hstep
    · next hpc =>
      obtain ⟨-, h⟩ := Option.ite_none_right_eq_some.mp hstep
      obtain ⟨requests, hdisconnected, rfl⟩ := Option.map_eq_some_iff.mp h
      have hop : Requests.Step e .onDisconnect s.requests requests := hdisconnected
      obtain ⟨c', hdrained⟩ := Requests.drained_onDisconnect (e := e) hwf
      obtain rfl := Option.some_inj.mp (hdrained.returns.symm.trans hdisconnected)
      refine ⟨sound_ring hloop _, Requests.wellFormed_step hwf hop,
        Requests.closedEmpty_step hwf hempty hop, hprepared, fun h => ?_⟩
      exact absurd (hdrained.disconnected.symm.trans h) (by decide)
    · cases hstep
  | submit submission =>
    obtain rfl := Option.some_inj.mp hstep
    have hop : Requests.Step e (.submit submission) s.requests
        (Requests.submit e submission s.requests).2 := rfl
    refine ⟨hloop, Requests.wellFormed_step hwf hop, Requests.closedEmpty_step hwf hempty hop,
      hprepared, fun h => hconnected ?_⟩
    exact (Requests.connected_submit submission s.requests).symm.trans h
  | wakeup =>
    obtain ⟨-, h⟩ := Option.ite_none_right_eq_some.mp hstep
    obtain rfl := Option.some_inj.mp h
    exact ⟨sound_ring hloop 1, hwf, hempty, hprepared, hconnected⟩

theorem fits_of_reachable {app : σ}
    (hreach : CS.Reachable (SystemStep config e r) (.init τ κ app) s) : Fits s :=
  hreach.invariant Fits (fits_init app) fun _ _ _ hfits hstep => fits_step hfits hstep

/-- **A client without a socket has no requests.** Whatever the threads do and whatever arrives,
no request is listed when the loop is at its top without a socket, waits to be started or
connects: each request that was accepted has ended. -/
theorem requests_drained_of_closed {app : σ}
    (hreach : CS.Reachable (SystemStep config e r) (.init τ κ app) s) (hclosed : s.loop.sock < 0) :
    s.requests.coapReqsConnected = false ∧ s.requests.coapReqs = [] := by
  have hfits := fits_of_reachable hreach
  have hdisconnected : s.requests.coapReqsConnected = false :=
    Bool.eq_false_iff.mpr fun h => absurd (hfits.connected h).1 (not_le.mpr hclosed)
  exact ⟨hdisconnected, hfits.closedEmpty hdisconnected⟩

/-! ## No request is slept through -/

/-- Where the loop stands, seen as a worker that sleeps. -/
def System.phase (s : System τ κ σ) : CS.Doorbell.Phase :=
  match s.loop.pc with
  | .polling => .asleep
  | .pollPrepare => if s.prepared then .looked else .awake
  | _ => .awake

/-- The times left for the requests that wait for a response. -/
def timesLeft (now : ℤ) (requests : Client κ σ) : Set ℤ :=
  {left | ∃ req ∈ requests.coapReqs, ¬ req.Established ∧
    left = timeLeft req.pending (uint32OfInt now)}

/-- The loop as a worker whose bell is the event descriptor. -/
def System.sleeper (s : System τ κ σ) : CS.Doorbell.State ℤ where
  phase := s.phase
  left := timesLeft s.preparedAt s.requests
  least := s.goliothTimeout
  alarm := s.loop.timeout
  bell := s.loop.events
  ringing := s.waking

theorem lowerBounds_timesLeft {now least : ℤ} {requests : Client κ σ}
    (h : ∀ req ∈ requests.coapReqs, ¬ req.Established →
      least ≤ timeLeft req.pending (uint32OfInt now)) :
    least ∈ lowerBounds (timesLeft now requests) := by
  rintro left ⟨req, hmem, hnot, hleft⟩
  rw [hleft]
  exact h req hmem hnot

omit [DecidableEq τ] in
/-- A step of the loop leaves the worker awake, or it is the one that sets the alarm. -/
theorem sleeper_mainMove {action : MainStep} {loop : State τ} (hfits : Fits s)
    (hpermits : s.permits (.main action) = true) (hmove : MainMove config action s.loop loop) :
    CS.Doorbell.Step s.sleeper (s.moved loop).sleeper := by
  cases hmove with
  | goOn hpc | setExpiries hpc =>
    have hprepared : s.prepared = false :=
      Bool.eq_false_iff.mpr fun h => absurd (hpc.symm.trans (hfits.prepared h).1) (by decide)
    refine .work ?_
    simp [System.sleeper, System.phase, System.moved, hprepared]
  | @reschedule _ now goliothTimeout hpc =>
    obtain ⟨hprepared, rfl⟩ : s.prepared = true ∧ goliothTimeout = s.goliothTimeout := by
      simpa [System.permits] using hpermits
    refine .sleep ?_ ?_
    · show s.phase = .looked
      rw [System.phase, hpc]
      simp [hprepared]
    · exact max_le (min_le_right _ _) (hfits.prepared hprepared).2
  | wait | block | passWait | clearReconnect | flushEvents | openSocket | connected | refused
  | connectFailed | wake | pollError | pollTimeout | pollEvents | pollSocket | readEvents
  | testReconnect | testStop | disconnect | keepAlive | received | receiveFailed | skipSocket
  | close => exact .work rfl

/-- **Refinement.** Every step of the client is one of the worker. -/
theorem sleeper_step (hfits : Fits s) (hstep : SystemStep config e r label s t) :
    CS.Doorbell.Step s.sleeper t.sleeper := by
  cases label with
  | loop label =>
    obtain ⟨hpermits, h⟩ := Option.ite_none_right_eq_some.mp hstep
    obtain ⟨loop, hafter, rfl⟩ := Option.map_eq_some_iff.mp h
    cases hmain : label.isMain with
    | true =>
      -- a step of the loop itself, one case for each place it stands at
      obtain ⟨action, rfl⟩ : ∃ action, label = .main action := by
        cases label <;> simp [Label.isMain] at hmain ⊢
      exact sleeper_mainMove hfits hpermits (mainMove_of_step hafter)
    | false =>
      -- a step of another thread leaves the place of the loop alone
      have hdisturbs := disturbs_of_step hmain hafter
      have hphase : (s.moved loop).phase = s.phase := by
        simp only [System.phase, System.moved, hdisturbs.pc]
        cases s.loop.pc <;> simp
      have hsleeper : (s.moved loop).sleeper =
          { s.sleeper with alarm := loop.timeout, bell := loop.events } := by
        rw [System.sleeper, hphase]
        rfl
      rw [hsleeper]
      rcases hdisturbs.bell with ⟨htimeout, hevents⟩ | ⟨-, hevents⟩
      · rw [htimeout, hevents]
        exact .stay
      · rw [hevents]
        exact .disturb loop.timeout
  | pollPrepare now visits =>
    obtain ⟨⟨hpc, -⟩, h⟩ := Option.ite_none_right_eq_some.mp hstep
    obtain ⟨polled, hpolled, rfl⟩ := Option.map_eq_some_iff.mp h
    -- the alarm is computed from what is left now; a callback that submits rings instead
    have hphase : (s.polled now polled).phase = .looked := by
      simp [System.phase, System.polled, System.called, State.ring, hpc]
    have hsleeper : (s.polled now polled).sleeper =
        { s.sleeper with
          phase := .looked
          left := timesLeft now polled.2
          least := polled.1
          bell := s.loop.events + (wakeups polled.2 - wakeups s.requests) } := by
      rw [System.sleeper, hphase]
      rfl
    rw [hsleeper]
    refine .look (Nat.le_add_right _ _) ?_
    rcases Requests.timeLeft_of_pollPrepare hfits.wellFormed hpolled with hwoken | hleft
    · exact .inl (Nat.lt_add_of_pos_right (Nat.sub_pos_of_lt hwoken))
    · exact .inr (lowerBounds_timesLeft fun req hmem hnot => (hleft req hmem hnot).1)
  | processRx datagram now =>
    obtain ⟨loop, hafter, rfl⟩ := Option.map_eq_some_iff.mp hstep
    obtain ⟨-, h⟩ := Option.ite_none_right_eq_some.mp hafter
    obtain rfl := Option.some_inj.mp h
    refine .work ?_
    -- receiving is work of the loop, which comes back to look again
    by_cases herr : (goliothProcessRx e r datagram s.requests).1 = 0 <;>
      simp [System.sleeper, System.phase, System.called, State.ring, herr]
  | onConnect =>
    obtain ⟨-, h⟩ := Option.ite_none_right_eq_some.mp hstep
    obtain rfl := Option.some_inj.mp h
    exact .stay
  | onDisconnect =>
    change (match s.loop.pc with | .disconnecting _ => _ | _ => none) = some t at hstep
    split at hstep
    · next hpc =>
      obtain ⟨-, h⟩ := Option.ite_none_right_eq_some.mp hstep
      obtain ⟨requests, -, rfl⟩ := Option.map_eq_some_iff.mp h
      refine .work ?_
      simp [System.sleeper, System.phase, System.called, State.ring, hpc]
    · cases hstep
  | submit submission =>
    obtain rfl := Option.some_inj.mp hstep
    -- the thread has listed a request and owes the loop a wake-up, or nothing is listed
    rcases Requests.wokenOrSame_submit (e := e) submission s.requests with hwoken | ⟨hcount, hsame⟩
    · exact .add _ (Nat.sub_pos_of_lt hwoken)
    · have hsleeper : (s.submitted (Requests.submit e submission s.requests).2).sleeper =
          s.sleeper := by
        simp only [System.submitted, System.sleeper, System.phase, timesLeft, hsame, hcount,
          Nat.sub_self, Nat.add_zero]
      rw [hsleeper]
      exact .stay
  | wakeup =>
    obtain ⟨hwaking, h⟩ := Option.ite_none_right_eq_some.mp hstep
    obtain rfl := Option.some_inj.mp h
    exact .ring hwaking

/-- **No request is slept through.** Whatever the threads, the callbacks and the network do: when
the loop is in `zsock_poll` with no event for it, and no thread is between listing a request and
waking it, its alarm has been set with a delay, and no listed request that waits for a response
had less than that delay left when `golioth_coap_reqs_poll_prepare` last looked. -/
theorem alarm_within_timesLeft {app : σ}
    (hreach : CS.Reachable (SystemStep config e r) (.init τ κ app) s)
    (hpolling : s.loop.pc = .polling) (hevents : s.loop.events = 0) (hwaking : s.waking = 0) :
    ∃ delay, s.loop.timeout = some delay ∧ ∀ req ∈ s.requests.coapReqs, ¬ req.Established →
      delay ≤ timeLeft req.pending (uint32OfInt s.preparedAt) := by
  have hcovered := (hreach.invariant (fun s => Fits s ∧ CS.Doorbell.Covered s.sleeper)
    ⟨fits_init app, CS.Doorbell.covered_of_awake rfl⟩ fun _ _ _ h hstep =>
      ⟨fits_step h.1 hstep, CS.Doorbell.covered_step h.2 (sleeper_step h.1 hstep)⟩).2
  have hasleep : s.sleeper.phase = .asleep := by
    show s.phase = .asleep
    rw [System.phase, hpolling]
  obtain ⟨delay, halarm, hdelay⟩ := CS.Doorbell.alarm_of_asleep hcovered hasleep hevents hwaking
  exact ⟨delay, halarm, fun req hmem hnot => hdelay ⟨req, hmem, hnot, rfl⟩⟩

/-- The client is started and connects, and finds no requests. A thread submits one before the
alarm is set, which wakes the loop; the loop transmits it and goes to sleep again. -/
def submitBeforeAlarm : List (SystemLabel Unit Unit) :=
  [.loop (.main .readSock), .loop (.start deviceCredentials), .loop (.main .passWait),
    .loop (.main .clearReconnect), .loop (.main .flushEvents), .loop (.main (.openSocket 3)),
    .loop (.main (.sendEmpty 0)), .onConnect, .loop (.main (.setExpiries 0)), .pollPrepare 0 0,
    .submit (.getA () false), .loop (.main (.reschedule 0 Golioth.int64Max)), .wakeup,
    .loop (.main (.poll (.ready false))), .loop (.main .readEvents),
    .loop (.main .testReconnect), .loop (.main .testStop), .loop (.main (.keepAlive 0)),
    .loop (.main .skipSocket), .loop (.main .readSock), .pollPrepare 0 1,
    .loop (.main (.reschedule 0 2000))]

/-- A receiver that takes no packet. -/
def deafReceiver : Receiver where
  coapPacketParse _ := .error (-Errno.einval)
  goliothAckPacket _ := 0
  recvUseMsgTrunc := false

theorem alarm_within_timesLeft_submitBeforeAlarm :
    ∃ s : System Unit Unit Unit, (∃ req ∈ s.requests.coapReqs, ¬ req.Established) ∧
      s.loop.timeout = some 2000 ∧
      ∃ delay, s.loop.timeout = some delay ∧ ∀ req ∈ s.requests.coapReqs, ¬ req.Established →
        delay ≤ timeLeft req.pending (uint32OfInt s.preparedAt) := by
  obtain ⟨s, hs⟩ := Option.isSome_iff_exists.mp
    (show (CS.Run.execute (systemStep nineSeconds .quiet deafReceiver) submitBeforeAlarm
      (.init Unit Unit ())).isSome = true by decide)
  have hfacts : (CS.Run.execute (systemStep nineSeconds .quiet deafReceiver) submitBeforeAlarm
      (.init Unit Unit ())).map (fun s => (s.requests.coapReqs.any fun req => !req.Established,
        s.loop.timeout, s.loop.pc, s.loop.events, s.waking)) =
          some (true, some 2000, .polling, 0, 0) := by decide
  rw [hs] at hfacts
  obtain ⟨hwaits, htimeout, hpolling, hevents, hwaking⟩ :
      (∃ req ∈ s.requests.coapReqs, ¬ req.Established) ∧ s.loop.timeout = some 2000 ∧
        s.loop.pc = .polling ∧ s.loop.events = 0 ∧ s.waking = 0 := by
    simpa using hfacts
  exact ⟨s, hwaits, htimeout,
    alarm_within_timesLeft ⟨_, CS.Run.of_execute hs⟩ hpolling hevents hwaking⟩

/-- The socket fails while the request waits for its response. -/
def failedReceive : List (SystemLabel Unit Unit) :=
  submitBeforeAlarm ++
    [.loop (.main (.poll (.ready true))), .loop (.main (.processRx (-Errno.enotconn) 100)),
      .onDisconnect, .loop (.main .close)]

theorem requests_drained_of_closed_failedReceive :
    ∃ s : System Unit Unit Unit, s.requests.log.contains (.freed 0) = true ∧
      s.requests.coapReqsConnected = false ∧ s.requests.coapReqs = [] := by
  obtain ⟨s, hs⟩ := Option.isSome_iff_exists.mp
    (show (CS.Run.execute (systemStep nineSeconds .quiet deafReceiver) failedReceive
      (.init Unit Unit ())).isSome = true by decide +kernel)
  have hfacts : (CS.Run.execute (systemStep nineSeconds .quiet deafReceiver) failedReceive
      (.init Unit Unit ())).map (fun s => (s.requests.log.contains (.freed 0), s.loop.sock)) =
        some (true, -1) := by decide +kernel
  rw [hs] at hfacts
  obtain ⟨hfreed, hsock⟩ : s.requests.log.contains (.freed 0) = true ∧ s.loop.sock = -1 := by
    simpa using hfacts
  exact ⟨s, hfreed,
    requests_drained_of_closed ⟨_, CS.Run.of_execute hs⟩ (by rw [hsock]; decide)⟩

end Golioth.SystemClient
