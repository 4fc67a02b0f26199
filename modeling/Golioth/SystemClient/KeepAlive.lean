/-
# A session is kept alive

A session in which nothing is received ends, one in which something is received does not end
for that reason, and while nothing is received pings are sent. For either the loop has an
expiry. It sets the alarm for no later than the earlier one, and the alarm makes the event
descriptor readable, which wakes it up; it then does what is due, or goes on.

When that happens depends on when the alarm goes off, `zsock_poll` returns and the thread
runs. So the client is looked at together with the time here, which passes only as long as
none of the three is late by more than some slack.
-/
import Golioth.CS.Deadline
import Golioth.SystemClient.Stopping

namespace Golioth.SystemClient

open CS

variable {τ : Type}

/-! ## The client and the time -/

/-- What a step of the loop reads from the clock. -/
def MainStep.reading : MainStep → Option ℤ
  | .setExpiries now | .reschedule now _ | .disconnect _ now | .keepAlive now
  | .processRx _ now => some now
  | _ => none

def Label.reading : Label τ → Option ℤ
  | .main action => action.reading
  | _ => none

/-- The loop is at work again: it reads the clock, or returns from `zsock_poll`. -/
def Label.resumes : Label τ → Bool
  | .main (.poll _) => true
  | label => label.reading.isSome

/-- The client with the time, and with what there is to note of its steps. -/
structure Clocked (τ : Type) where
  loop : State τ
  /-- `k_uptime_get()`. -/
  now : ℤ
  /-- When the loop was last at work again. -/
  active : ℤ
  /-- When `eventfd_timeout` is due. -/
  alarm : ℤ
  /-- When the event descriptor became readable. -/
  rung : ℤ
  /-- When the session began or its socket was last read. -/
  heard : ℤ
  /-- When the session began, its socket was last read or a ping was last sent. -/
  pinged : ℤ

def Clocked.init (τ : Type) : Clocked τ where
  loop := .init τ
  now := 0
  active := 0
  alarm := 0
  rung := 0
  heard := 0
  pinged := 0

/-- What is noted of a step that leads to `t`. -/
def Clocked.note (label : Label τ) (s : Clocked τ) (t : State τ) : Clocked τ where
  loop := t
  now := s.now
  active := if label.resumes then s.now else s.active
  alarm :=
    match label with
    | .main (.reschedule _ _) => s.now + t.timeout.getD 0
    | _ => s.alarm
  rung := if s.loop.events = 0 ∧ 0 < t.events then s.now else s.rung
  heard :=
    match label with
    | .main (.setExpiries _) | .main (.processRx _ _) => s.now
    | _ => s.heard
  pinged :=
    match label with
    | .main (.setExpiries _) | .main (.processRx _ _) => s.now
    -- a ping is sent where it is due
    | .main (.keepAlive _) => if s.loop.pingExpiry ≤ s.now then s.now else s.pinged
    | _ => s.pinged

inductive ClockedLabel (τ : Type)
  | pass (ms : ℕ)
  | act (label : Label τ)

/-- Time passes, or the client takes a step, which reads the clock as it is. -/
def clockedStep [DecidableEq τ] (config : Config) :
    ClockedLabel τ → Clocked τ → Option (Clocked τ)
  | .pass ms, s => some { s with now := s.now + ms }
  | .act label, s =>
    if label.reading.all (· = s.now) then (step config label s.loop).map (s.note label) else none

def ClockedStep [DecidableEq τ] (config : Config) (label : ClockedLabel τ) (s t : Clocked τ) :
    Prop :=
  clockedStep config label s = some t

/-! ## The loop as a worker with a deadline -/

inductive Expiry
  | recv
  | ping

def State.expiry (s : State τ) : Expiry → ℤ
  | .recv => s.recvExpiry
  | .ping => s.pingExpiry

/-- Where the loop stands between two looks at the clock. -/
def State.watch (s : State τ) : Deadline.Phase :=
  match s.pc with
  | .top => if s.sock < 0 then .away else .ready
  | .pollPrepare | .handleSocket false => .ready
  | .polling => .asleep
  | .readEvents _ | .testReconnect _ | .testStop _ _ | .handleRequests _ _ _
  | .handleSocket true => .awake
  | _ => .away

/-- The loop is in a session, which it has not decided to end. -/
def State.Listens (s : State τ) : Prop := s.watch ≠ .away

instance (s : State τ) : Decidable s.Listens := inferInstanceAs (Decidable (s.watch ≠ .away))

/-- The loop as a worker, whose deadline is one of the expiries. -/
def Clocked.worker (s : Clocked τ) (x : Expiry) : Deadline.State ℤ where
  phase := s.loop.watch
  due := s.loop.expiry x
  now := s.now
  active := s.active
  alarm := s.alarm
  armed := s.loop.timeout.isSome
  rung := s.rung
  ringing := decide (0 < s.loop.events)

/-- The time may have come to be `now`: nothing is late by more than the slack. -/
structure OnTime (slack : ℤ) (s : Clocked τ) (now : ℤ) : Prop where
  /-- `eventfd_timeout_handle` is run. -/
  alarm : s.loop.pc = .polling → s.loop.timeout.isSome = true → now ≤ s.alarm + slack
  /-- `zsock_poll` returns after the event descriptor has become readable. -/
  wake : s.loop.pc = .polling → 0 < s.loop.events → now ≤ max s.active s.rung + slack
  /-- The loop gets to where it reads the clock next. -/
  work : s.loop.Listens → s.loop.pc ≠ .polling → now ≤ s.active + slack

/-- Time passes only as long as everything is on time. -/
def Timely (slack : ℤ) : ClockedLabel τ → Clocked τ → Prop
  | .pass ms, s => OnTime slack s (s.now + ms)
  | .act _, _ => True

variable {config : Config} {slack : ℤ} {label : Label τ} {s t : Clocked τ} {loop : State τ}

theorem watch_eq_asleep_iff {loop : State τ} : loop.watch = .asleep ↔ loop.pc = .polling := by
  rw [State.watch]
  split <;> simp_all
  split <;> simp

theorem prompt_of_onTime (x : Expiry) {now : ℤ} (h : OnTime slack s now) :
    Deadline.Prompt slack (s.worker x) now where
  alarm hphase := h.alarm (watch_eq_asleep_iff.mp hphase)
  wake hphase hringing := h.wake (watch_eq_asleep_iff.mp hphase) (of_decide_eq_true hringing)
  work hphase := by
    have hawake : s.loop.watch = .ready ∨ s.loop.watch = .awake := hphase
    refine h.work (fun haway => ?_) fun hpolling => ?_
    · rw [haway] at hawake
      simp at hawake
    · rw [watch_eq_asleep_iff.mpr hpolling] at hawake
      simp at hawake

/-! ### The other threads -/

theorem Disturbs.watch {before after : State τ} (h : Disturbs before after) :
    after.watch = before.watch := by
  rw [State.watch, State.watch, h.pc, h.sock]

theorem Disturbs.expiry {before after : State τ} (h : Disturbs before after) (x : Expiry) :
    after.expiry x = before.expiry x := by
  cases x with
  | recv => exact h.recvExpiry
  | ping => exact h.pingExpiry

theorem note_other (hmain : label.isMain = false) :
    s.note label loop = { s with
      loop := loop, rung := if s.loop.events = 0 ∧ 0 < loop.events then s.now else s.rung } := by
  cases label with
  | main action => cases hmain
  | _ => rfl

theorem worker_other (hmain : label.isMain = false) (h : Disturbs s.loop loop) (x : Expiry) :
    Deadline.Step slack (s.worker x) ((s.note label loop).worker x) := by
  rw [note_other hmain]
  rcases h.bell with ⟨htimeout, hevents⟩ | ⟨htimeout, hevents⟩
  · refine .stay ?_
    have hsilent : ¬ (s.loop.events = 0 ∧ 0 < s.loop.events) := by omega
    simp only [Clocked.worker, h.watch, h.expiry, htimeout, hevents, if_neg hsilent]
  -- the descriptor becomes readable only with the first of several events
  · refine .ring loop.timeout.isSome htimeout ?_
    simp only [Clocked.worker, h.watch, h.expiry, hevents]
    by_cases hzero : s.loop.events = 0 <;> simp [hzero, Nat.pos_of_ne_zero]

/-! ### The loop -/

/-- The loop does not write the event descriptor. -/
theorem events_mainMove_le {action : MainStep} {before after : State τ}
    (hmove : MainMove config action before after) : after.events ≤ before.events := by
  cases hmove <;> simp

/-- A step of the loop takes no time and rings no bell. -/
theorem silent_mainMove {action : MainStep} (hmove : MainMove config action s.loop loop)
    (x : Expiry) : Deadline.Silent (s.worker x) ((s.note (.main action) loop).worker x) := by
  have hevents := events_mainMove_le hmove
  refine ⟨rfl, ?_⟩
  show (if s.loop.events = 0 ∧ 0 < loop.events then s.now else s.rung) = s.rung
  rw [if_neg (by omega)]

/-- A session that goes on has not come to the expiry of what it receives. -/
theorem lt_recvExpiry_of_none {reconnectRequest stopRequest : Bool} {recvExpiry now : ℤ}
    (h : reasonToDisconnect reconnectRequest (recvExpiry ≤ now) stopRequest = none) :
    now < recvExpiry := by
  rw [reasonToDisconnect] at h
  split_ifs at h with hstop hreconnect htimeout
  simpa using htimeout

theorem recvExpiry_le_of_receiveTimeout {reconnectRequest stopRequest : Bool} {recvExpiry now : ℤ}
    (h : reasonToDisconnect reconnectRequest (recvExpiry ≤ now) stopRequest =
      some .receiveTimeout) : recvExpiry ≤ now := by
  cases stopRequest with
  | true => cases h
  | false =>
    cases reconnectRequest with
    | true => cases h
    | false => simpa [reasonToDisconnect] using h

/-- The alarm is set for no later than either expiry, unless it is over. -/
theorem alarm_le (loop : State τ) (x : Expiry) (now goliothTimeout : ℤ) :
    now + max (min (min loop.recvExpiry loop.pingExpiry - now) goliothTimeout) 0 ≤
      max (loop.expiry x) now := by
  have hleast : min loop.recvExpiry loop.pingExpiry ≤ loop.expiry x := by
    cases x with
    | recv => exact min_le_left _ _
    | ping => exact min_le_right _ _
  have hmin := min_le_left (min loop.recvExpiry loop.pingExpiry - now) goliothTimeout
  rcases le_total (min (min loop.recvExpiry loop.pingExpiry - now) goliothTimeout) 0 with h | h
  · rw [max_eq_right h, add_zero]
    exact le_max_right _ _
  · rw [max_eq_left h]
    refine le_trans ?_ (le_max_left _ _)
    linarith

/-- **Simulation.** A step of the loop is one of the worker. -/
theorem worker_main (hrecv : 0 ≤ config.recvTimeout) (hping : 0 ≤ config.pingInterval)
    (hsound : Sound s.loop) (hactive : s.active ≤ s.now) {action : MainStep}
    (hreading : action.reading.all (· = s.now) = true)
    (hmove : MainMove config action s.loop loop) (x : Expiry) :
    Deadline.Step slack (s.worker x) ((s.note (.main action) loop).worker x) := by
  have hsilent := silent_mainMove hmove x
  have hopen : s.loop.pc.inSession = true → ¬ s.loop.sock < 0 := fun hpc =>
    not_lt.mpr (hsound.opened hpc)
  cases hmove with
  -- the steps outside of a session, and those that decide to end it
  | wait hpc hsock => exact .leave hsilent rfl hactive
  | block | passWait | clearReconnect | flushEvents | openSocket | connected | refused
  | connectFailed => exact .leave hsilent rfl hactive
  | wake hpc =>
    have hsock : s.loop.sock < 0 := hsound.closed (by rw [hpc]; rfl) (by simp [hpc])
    exact .leave hsilent (if_pos hsock) hactive
  | close => exact .leave hsilent rfl hactive
  | pollError | disconnect | receiveFailed => exact .leave hsilent rfl le_rfl
  -- the steps that look at the clock
  | @setExpiries _ now hpc =>
    obtain rfl : now = s.now := of_decide_eq_true hreading
    refine .look hsilent (fun h => (by cases h)) rfl ?_
    cases x with
    | recv => exact le_add_of_nonneg_right hrecv
    | ping => exact le_add_of_nonneg_right hping
  | @received _ now hpc =>
    obtain rfl : now = s.now := of_decide_eq_true hreading
    refine .look hsilent ?_ rfl ?_
    · show (if s.loop.sock < 0 then Deadline.Phase.away else .ready) ≠ .asleep
      split <;> simp
    · cases x with
      | recv => exact le_add_of_nonneg_right hrecv
      | ping => exact le_add_of_nonneg_right hping
  | @keepAlive _ reconnectRequest stopRequest socketReady now hpc hreason =>
    obtain rfl : now = s.now := of_decide_eq_true hreading
    refine .look hsilent (fun h => ?_) rfl ?_
    · cases watch_eq_asleep_iff.mp h
    · cases x with
      | recv => exact (lt_recvExpiry_of_none hreason).le
      | ping =>
        -- a ping that was due has been sent, and the next one is due later
        show s.now ≤ if s.loop.pingExpiry ≤ s.now then s.now + config.pingInterval
          else s.loop.pingExpiry
        split
        · exact le_add_of_nonneg_right hping
        · next hlater => exact (not_le.mp hlater).le
  | @reschedule _ now goliothTimeout hpc =>
    obtain rfl : now = s.now := of_decide_eq_true hreading
    refine .sleep hsilent ?_ rfl rfl (by cases x <;> rfl) ?_ (alarm_le s.loop x s.now _) rfl
    · show s.loop.watch = .ready
      simp [State.watch, hpc]
    · exact le_add_of_nonneg_right (le_max_right _ _)
  -- the steps that wake up
  | pollTimeout hpc | pollEvents hpc | pollSocket hpc =>
    exact .wake hsilent (watch_eq_asleep_iff.mpr hpc) rfl rfl (by cases x <;> rfl)
  -- the steps in between
  | goOn hpc hsock =>
    have hwatch : s.loop.watch = .ready := by simp [State.watch, hpc, not_lt.mpr hsock]
    refine .goOn hsilent hwatch.symm ?_ rfl (by cases x <;> rfl)
    show s.loop.watch ≠ .asleep
    simp [hwatch]
  | readEvents hpc | testReconnect hpc | testStop hpc =>
    have hwatch : s.loop.watch = .awake := by simp [State.watch, hpc]
    refine .goOn hsilent hwatch.symm ?_ rfl (by cases x <;> rfl)
    show s.loop.watch ≠ .asleep
    simp [hwatch]
  | skipSocket hpc =>
    have hwatch : s.loop.watch = .ready := by simp [State.watch, hpc]
    refine .goOn hsilent ?_ ?_ rfl (by cases x <;> rfl)
    · exact (if_neg (hopen (by rw [hpc]; rfl))).trans hwatch.symm
    · show s.loop.watch ≠ .asleep
      simp [hwatch]

/-! ## Whole runs -/

/-- The expiries are what has been noted, and the loop has kept them. -/
structure Keeps (config : Config) (slack : ℤ) (s : Clocked τ) : Prop where
  sound : Sound s.loop
  punctual : ∀ x, Deadline.Punctual slack (s.worker x)
  expiries : s.loop.Listens → s.loop.recvExpiry = s.heard + config.recvTimeout ∧
    s.loop.pingExpiry = s.pinged + config.pingInterval

/-- The expiries of a session are moved where something is noted. -/
theorem expiries_mainMove {action : MainStep} (hsound : Sound s.loop)
    (hreading : action.reading.all (· = s.now) = true)
    (hexpiries : s.loop.Listens → s.loop.recvExpiry = s.heard + config.recvTimeout ∧
      s.loop.pingExpiry = s.pinged + config.pingInterval)
    (hmove : MainMove config action s.loop loop) (hlistens : loop.Listens) :
    loop.recvExpiry = (s.note (.main action) loop).heard + config.recvTimeout ∧
      loop.pingExpiry = (s.note (.main action) loop).pinged + config.pingInterval := by
  cases hmove with
  | wait hpc hsock => exact absurd rfl hlistens
  | block | passWait | clearReconnect | flushEvents | openSocket | connected | refused
  | connectFailed | close | pollError | disconnect | receiveFailed => exact absurd rfl hlistens
  | wake hpc =>
    have hsock : s.loop.sock < 0 := hsound.closed (by rw [hpc]; rfl) (by simp [hpc])
    exact absurd (if_pos hsock) hlistens
  | @setExpiries _ now hpc =>
    obtain rfl : now = s.now := of_decide_eq_true hreading
    exact ⟨rfl, rfl⟩
  | @received _ now hpc =>
    obtain rfl : now = s.now := of_decide_eq_true hreading
    exact ⟨rfl, rfl⟩
  | @keepAlive _ reconnectRequest stopRequest socketReady now hpc hreason =>
    obtain rfl : now = s.now := of_decide_eq_true hreading
    obtain ⟨hrecv, hping⟩ := hexpiries (by simp [State.Listens, State.watch, hpc])
    refine ⟨hrecv, ?_⟩
    show (if s.loop.pingExpiry ≤ s.now then s.now + config.pingInterval else s.loop.pingExpiry) =
      (if s.loop.pingExpiry ≤ s.now then s.now else s.pinged) + config.pingInterval
    split
    · rfl
    · exact hping
  | goOn hpc hsock =>
    exact hexpiries (by simp [State.Listens, State.watch, hpc, not_lt.mpr hsock])
  | reschedule hpc | pollTimeout hpc | pollEvents hpc | pollSocket hpc | readEvents hpc
  | testReconnect hpc | testStop hpc | skipSocket hpc =>
    exact hexpiries (by simp [State.Listens, State.watch, hpc])

variable [DecidableEq τ]

/-- **Step.** -/
theorem keeps_step (hslack : 0 ≤ slack) (hrecv : 0 ≤ config.recvTimeout)
    (hping : 0 ≤ config.pingInterval) (h : Keeps config slack s) {label : ClockedLabel τ}
    (htimely : Timely slack label s) (hstep : ClockedStep config label s t) :
    Keeps config slack t := by
  cases label with
  | pass ms =>
    obtain rfl := Option.some_inj.mp hstep
    have hle : s.now ≤ s.now + ms := le_add_of_nonneg_right (Int.natCast_nonneg ms)
    exact ⟨h.sound, fun x => Deadline.punctual_pass (h.punctual x) hle (prompt_of_onTime x htimely),
      h.expiries⟩
  | act label =>
    obtain ⟨hreading, hmap⟩ := Option.ite_none_right_eq_some.mp hstep
    obtain ⟨loop, hloop, rfl⟩ := Option.map_eq_some_iff.mp hmap
    refine ⟨sound_step h.sound hloop, fun x => Deadline.punctual_step (h.punctual x) hslack ?_, ?_⟩
    · cases hmain : label.isMain with
      | false => exact worker_other hmain (disturbs_of_step hmain hloop) x
      | true =>
        cases label with
        | main action =>
          exact worker_main hrecv hping h.sound (h.punctual x).active_le hreading
            (mainMove_of_step hloop) x
        | _ => cases hmain
    · cases hmain : label.isMain with
      | false =>
        have hdisturbs := disturbs_of_step hmain hloop
        rw [note_other hmain]
        intro hlistens
        obtain ⟨hheard, hpinged⟩ :=
          h.expiries fun haway => hlistens (hdisturbs.watch.trans haway)
        exact ⟨hdisturbs.recvExpiry.trans hheard, hdisturbs.pingExpiry.trans hpinged⟩
      | true =>
        cases label with
        | main action =>
          exact expiries_mainMove h.sound hreading h.expiries (mainMove_of_step hloop)
        | _ => cases hmain

/-- A session is kept alive, as long as it may be. -/
structure KeptAlive (config : Config) (slack : ℤ) (s : Clocked τ) : Prop where
  /-- A session in which nothing is received ends. -/
  silence : s.loop.Listens → s.now ≤ s.heard + config.recvTimeout + 4 * slack
  /-- Something is received or sent again and again. -/
  pings : s.loop.Listens → s.now ≤ s.pinged + config.pingInterval + 4 * slack
  /-- A session in which something is received does not end for want of it. -/
  timeout : ∀ now t, ClockedStep config (.act (.main (.disconnect .receiveTimeout now))) s t →
    s.heard + config.recvTimeout ≤ s.now
  /-- Otherwise a ping is sent exactly where one is due. -/
  goesOn : ∀ now t, ClockedStep config (.act (.main (.keepAlive now))) s t →
    s.now < s.heard + config.recvTimeout ∧
      t.pinged = if s.pinged + config.pingInterval ≤ s.now then s.now else s.pinged

omit [DecidableEq τ] in
theorem keeps_init (config : Config) (slack : ℤ) : Keeps config slack (Clocked.init τ) where
  sound := sound_init
  punctual _ := Deadline.punctual_of_away rfl le_rfl le_rfl
  expiries h := absurd rfl h

/-- **Keeping alive.** In every interleaving of the loop with the threads that start, stop and
wake it, and however time passes, if the alarm, `zsock_poll` and the loop are each late by no more
than the slack: a session in which nothing is received is given up in time, pings are sent in
time, no session is given up for a silence that is shorter than `RECV_TIMEOUT`, and no ping is
sent before one is due. -/
theorem kept_alive (hslack : 0 ≤ slack) (hrecv : 0 ≤ config.recvTimeout)
    (hping : 0 ≤ config.pingInterval) {labels : List (ClockedLabel τ)}
    (hrun : Run (Guarded (Timely slack) (ClockedStep config)) labels (.init τ) s) :
    KeptAlive config slack s := by
  have hkeeps := hrun.invariant (Keeps config slack)
    (fun label u v h hstep => keeps_step hslack hrecv hping h hstep.1 hstep.2)
    (keeps_init config slack)
  refine ⟨fun hlistens => ?_, fun hlistens => ?_, fun now t hstep => ?_, fun now t hstep => ?_⟩
  · rw [← (hkeeps.expiries hlistens).1]
    exact (hkeeps.punctual .recv).now_le hslack hlistens
  · rw [← (hkeeps.expiries hlistens).2]
    exact (hkeeps.punctual .ping).now_le hslack hlistens
  · obtain ⟨hreading, hmap⟩ := Option.ite_none_right_eq_some.mp hstep
    obtain ⟨loop, hloop, -⟩ := Option.map_eq_some_iff.mp hmap
    obtain rfl : now = s.now := of_decide_eq_true hreading
    cases Step.mainMove hloop with
    | @disconnect _ reconnectRequest stopRequest socketReady _ _ hpc hreason =>
      have hlistens : s.loop.Listens := by simp [State.Listens, State.watch, hpc]
      rw [← (hkeeps.expiries hlistens).1]
      exact recvExpiry_le_of_receiveTimeout hreason
  · obtain ⟨hreading, hmap⟩ := Option.ite_none_right_eq_some.mp hstep
    obtain ⟨loop, hloop, rfl⟩ := Option.map_eq_some_iff.mp hmap
    obtain rfl : now = s.now := of_decide_eq_true hreading
    cases Step.mainMove hloop with
    | @keepAlive _ reconnectRequest stopRequest socketReady _ hpc hreason =>
      have hlistens : s.loop.Listens := by simp [State.Listens, State.watch, hpc]
      obtain ⟨hexpiry, hdue⟩ := hkeeps.expiries hlistens
      exact ⟨hexpiry ▸ lt_recvExpiry_of_none hreason, by rw [← hdue]; rfl⟩

/-- The alarm wakes the loop up, which finds the time and sleeps again. -/
def alarmAt (now : ℤ) : List (ClockedLabel Unit) :=
  [.act .notifyTimeout, .act (.main (.poll (.ready false))), .act (.main .readEvents),
    .act (.main .testReconnect), .act (.main .testStop), .act (.main (.keepAlive now)),
    .act (.main .skipSocket), .act (.main .readSock), .act (.main (.reschedule now 100000))]

/-- The client connects, is woken up for a request, and then for a ping, a millisecond late. -/
def quietSession : List (ClockedLabel Unit) :=
  ([Label.main .readSock, .main .block] ++ startAndConnect).map .act ++
    (.pass 1001 :: alarmAt 1001) ++ (.pass 8000 :: alarmAt 9001)

def timelyCheck (slack : ℤ) : ClockedLabel Unit → Clocked Unit → Bool
  | .pass ms, s =>
    decide ((s.loop.pc = .polling → s.loop.timeout.isSome = true →
        s.now + ms ≤ s.alarm + slack) ∧
      (s.loop.pc = .polling → 0 < s.loop.events → s.now + ms ≤ max s.active s.rung + slack) ∧
      (s.loop.Listens → s.loop.pc ≠ .polling → s.now + ms ≤ s.active + slack))
  | .act _, _ => true

theorem timely_of_check (label : ClockedLabel Unit) (s : Clocked Unit)
    (hcheck : timelyCheck slack label s = true) : Timely slack label s := by
  cases label with
  | pass ms =>
    obtain ⟨halarm, hwake, hwork⟩ := of_decide_eq_true hcheck
    exact ⟨halarm, hwake, hwork⟩
  | act label => trivial

theorem kept_alive_quietSession :
    ∃ s, Run (Guarded (Timely 1) (ClockedStep nineSeconds)) quietSession (.init Unit) s ∧
      s.loop.Listens ∧ s.heard = 0 ∧ s.pinged = 9001 ∧ KeptAlive nineSeconds 1 s := by
  have hfacts : (Run.executeIf (timelyCheck 1) (clockedStep nineSeconds) quietSession
      (.init Unit)).map (fun s => (decide s.loop.Listens, s.heard, s.pinged)) =
        some (true, 0, 9001) := by decide +kernel
  obtain ⟨s, hrun, hstate⟩ := Option.map_eq_some_iff.mp hfacts
  have hguarded := Run.of_executeIf timely_of_check hrun
  simp only [Prod.mk.injEq, decide_eq_true_eq] at hstate
  obtain ⟨hlistens, hheard, hpinged⟩ := hstate
  exact ⟨s, hguarded, hlistens, hheard, hpinged,
    kept_alive (by decide) (by decide) (by decide) hguarded⟩

end Golioth.SystemClient
