/-
# Giving up

A request is given up when no retransmission is left. The loop that counts the
retransmissions does so before anything is sent, and a call that comes late enough
counts all of them at once: the request is then given up although its packet was
never passed to `golioth_send_coap`, since it was scheduled or since its callback
last asked for a block. That is the only way in which this happens.
-/
import Golioth.Requests.Schedule

namespace Golioth.Requests

open Golioth.Coap CS

variable {κ σ : Type} {e : Env κ σ} {c c' : Client κ σ} {ref : ℕ} {req : CoapReq κ}

/-! ## Timeouts and transmissions -/

/-- The packet of a request is passed to `golioth_send_coap`. -/
def Sends (ref : ℕ) (events : List Event) : Prop := ∃ data, .sent ref data ∈ events

/-- The callback of a request is told `-ETIMEDOUT`. -/
def TimesOut (ref : ℕ) (events : List Event) : Prop :=
  ∃ rsp, .called ref rsp ∈ events ∧ rsp.err = -Errno.etimedout

/-- A call of `golioth_coap_req_next_block`. -/
def TimerLabel.IsNextBlock : TimerLabel → Prop
  | .nextBlock _ _ => True
  | _ => False

/-- The packet has been sent in a run, and `golioth_coap_req_next_block` has not been
called since. -/
def SentSince (ref : ℕ) (labels : List TimerLabel) : Prop :=
  ∃ before now ret events after, labels = before ++ .poll now ret events :: after ∧
    Sends ref events ∧ ∀ label ∈ after, ¬ label.IsNextBlock

/-- No timeout without a transmission. -/
def Warranted (ref : ℕ) (labels : List TimerLabel) : Prop :=
  ∀ before now ret events after, labels = before ++ .poll now ret events :: after →
    TimesOut ref events → SentSince ref before

/-! ## Deadlines ahead -/

/-- The books of a timer after a number of calls of `golioth_coap_pending_cycle`, if
that many succeed, with the number of readings taken. -/
def cycled (e : Env κ σ) : (cycles : ℕ) → Pending → (readings : ℕ) → Option (Pending × ℕ)
  | 0, pending, readings => some (pending, readings)
  | cycles + 1, pending, readings =>
    let cycle := coapPendingCycle (initAckTimeout e.config (e.sysRand32Get readings)) pending
    if cycle.1 then
      cycled e cycles cycle.2 (if pending.timeout = 0 then readings + 1 else readings)
    else none

/-- One of the deadlines that `golioth_coap_pending_cycle` has still to offer lies in
the future. -/
def DeadlineAhead (e : Env κ σ) (pending : Pending) (readings : ℕ) (now : UInt32) : Prop :=
  ∃ cycles later, cycled e cycles pending readings = some later ∧ 0 < timeLeft later.1 now

/-- The loop ended with time left. -/
def PollOutcome.Waits : PollOutcome → Prop
  | .waits _ _ _ _ => True
  | .expires _ _ => False

/-- The loop ends with time left if a deadline lies ahead, and only then. -/
theorem waits_iff_deadlineAhead {now : UInt32} {cycles readings : ℕ} {pending : Pending}
    {send : Bool} {outcome : PollOutcome}
    (hloop : pollCycles e now cycles pending readings send = some outcome) :
    outcome.Waits ↔ DeadlineAhead e pending readings now := by
  induction cycles generalizing pending readings send with
  | zero => cases hloop
  | succ cycles ih =>
    rw [pollCycles] at hloop
    split at hloop
    · next hleft =>
      obtain rfl := Option.some_inj.mp hloop
      exact iff_of_true trivial ⟨0, _, rfl, hleft⟩
    · next hover =>
      dsimp only at hloop
      -- the first deadline has passed, so what matters is what comes after one cycle
      have hnext : DeadlineAhead e pending readings now ↔
          (coapPendingCycle (initAckTimeout e.config (e.sysRand32Get readings)) pending).1 ∧
            DeadlineAhead e
              (coapPendingCycle (initAckTimeout e.config (e.sysRand32Get readings)) pending).2
              (if pending.timeout = 0 then readings + 1 else readings) now := by
        constructor
        · rintro ⟨n, later, hlater, hleft⟩
          cases n with
          | zero =>
            obtain rfl := Option.some_inj.mp hlater
            exact absurd hleft hover
          | succ n =>
            rw [cycled] at hlater
            split at hlater
            · next hcycle => exact ⟨hcycle, n, later, hlater, hleft⟩
            · cases hlater
        · rintro ⟨hcycle, n, later, hlater, hleft⟩
          refine ⟨n + 1, later, ?_, hleft⟩
          rw [cycled]
          exact (if_pos hcycle).trans hlater
      split at hloop
      · next hcycle => rw [ih hloop, hnext, and_iff_right hcycle]
      · next hcycle =>
        obtain rfl := Option.some_inj.mp hloop
        exact iff_of_false id fun h => hcycle (hnext.mp h).1

/-- For a request that was just scheduled, the deadlines reach as far as the schedule. -/
theorem deadlineAhead_scheduled {t0 now : ℤ} {timeout readings : ℕ} (hfits : FitsClock timeout)
    (hnear : NearSchedule t0 timeout now)
    (hdrawn : Draws e timeout now (coapPendingInit t0 3) readings) :
    DeadlineAhead e (coapPendingInit t0 3) readings (uint32OfInt now) ↔
      now < Backoff.deadline t0 timeout 4 := by
  obtain ⟨readings', hloop⟩ := pollCycles_pendingAt (e := e) hfits (show 0 + 4 = 4 from rfl)
    (show 4 < 5 by decide) hnear (fun j hj => absurd hj (Nat.not_lt_zero j)) hdrawn false
  refine (waits_iff_deadlineAhead hloop).symm.trans ?_
  cases hnext : Backoff.next (Backoff.deadline t0 timeout) now 4 0 with
  | some j =>
    obtain ⟨-, hj, hlt, -⟩ := Backoff.next_eq_some hnext
    exact iff_of_true trivial (hlt.trans_le (Backoff.deadline_mono (by omega)))
  | none => exact iff_of_false id (not_lt.mpr (Backoff.next_eq_none hnext))

/-! ## Runs -/

/-- A call that finds the packet not sent since the request was scheduled, or since a
block was last asked for, comes before the last of the deadlines. -/
def InTime (e : Env κ σ) (ref : ℕ) : TimerLabel → Client κ σ × List TimerLabel → Prop
  | .poll now _ _, s => ¬ SentSince ref s.2 → ∀ req, s.1.find ref = some req →
      DeadlineAhead e req.pending s.1.readings (uint32OfInt now)
  | _, _ => True

/-- A step around the timer keeps the list a list. -/
theorem wellFormed_of_timerStep (hwf : WellFormed c) {label : TimerLabel}
    (hstep : TimerStep e ref label c c') : WellFormed c' := by
  cases hstep with
  | @poll _ _ req now ret events hfind hpoll hevents =>
    obtain ⟨outcome, -, hcarried⟩ := Option.map_eq_some_iff.mp hpoll
    cases outcome with
    | waits timeout send pending readings =>
      exact (carryOut_waits hwf hfind timeout send pending readings hcarried).2.1
    | expires pending readings =>
      exact (carryOut_expires hwf hfind pending readings hcarried).2.1
  | @nextBlock _ _ req status ret hfind hobserve hnext =>
    have heffect := effect_coapReqNextBlock (e := e) ref status hwf
      (c.mem_refs_iff.mpr ⟨req, hfind⟩)
    rw [hnext] at heffect
    exact heffect.wellFormed
  | idle hkeeps _ _ => exact hkeeps hwf
  | respond hkeeps _ => exact hkeeps hwf

/-- **Step.** A call reports a timeout exactly if no deadline lies ahead. -/
theorem timesOut_iff (hwf : WellFormed c) (hfind : c.find ref = some req) {now ret : ℤ}
    {events : List Event} (hstep : TimerStep e ref (.poll now ret events) c c') :
    TimesOut ref events ↔ ¬ DeadlineAhead e req.pending c.readings (uint32OfInt now) := by
  cases hstep with
  | @poll _ _ req' _ _ _ hfind' hpoll hevents =>
    obtain rfl := Option.some_inj.mp (hfind.symm.trans hfind')
    obtain ⟨outcome, hloop, hcarried⟩ := Option.map_eq_some_iff.mp hpoll
    have hends := waits_iff_deadlineAhead hloop
    cases outcome with
    | waits timeout send pending readings =>
      obtain ⟨-, -, -, hhistory⟩ := carryOut_waits hwf hfind timeout send pending readings hcarried
      obtain rfl := List.append_cancel_left (hevents.symm.trans hhistory)
      refine iff_of_false ?_ (not_not.mpr (hends.mp trivial))
      rintro ⟨rsp, hmem, -⟩
      split at hmem <;> simp at hmem
    | expires pending readings =>
      obtain ⟨-, -, -, events', hhistory, userData, ret', rfl⟩ :=
        carryOut_expires hwf hfind pending readings hcarried
      obtain rfl := List.append_cancel_left (hevents.symm.trans hhistory)
      exact iff_of_true ⟨timedOutRsp userData, List.mem_cons_self, rfl⟩ fun h => hends.mpr h

/-- **No timeout without a transmission**, in every run around the timer of a request,
from its submission on, in which every call comes in time. -/
theorem warranted_of_inTime {app : σ} (hreach : Reachable e app c) (submission : Submission κ)
    {labels : List TimerLabel} {s : Client κ σ × List TimerLabel}
    (hrun : Run (Guarded (InTime e c.nextRef) (Traced (TimerStep e c.nextRef))) labels
      ((submit e submission c).2, []) s) : Warranted c.nextRef labels := by
  have hwf := (effect_submit (e := e) none (wellFormed_of_reachable hreach) submission).wellFormed
  intro before now ret events after hsplit htimesOut
  obtain ⟨u, v, hwf', hstep, hguard⟩ := hrun.guarded_traced WellFormed
    (fun _ _ _ hwf hstep => wellFormed_of_timerStep hwf hstep) hwf hsplit
  by_contra hunsent
  obtain ⟨req, hfind⟩ : ∃ req, u.find c.nextRef = some req := by
    cases hstep with
    | poll hfind _ _ => exact ⟨_, hfind⟩
  exact (timesOut_iff hwf' hfind hstep).mp htimesOut (hguard hunsent req hfind)

/-- A connected client that has just submitted a request. -/
def submittedStart : Client Unit Unit :=
  (submit .quiet (.getA () false) (coapReqsOnConnect (Client.init ()))).2

/-- A call of `golioth_coap_req_poll_prepare` for its request. -/
def pollFirst (now : ℤ) (c : Client Unit Unit) : Option (ℤ × Client Unit Unit) :=
  (c.find 0).bind fun req => coapReqPollPrepare .quiet req (uint32OfInt now) c

private theorem timerStep_of_pollFirst {c : Client Unit Unit} (now ret : ℤ) (events : List Event)
    (h : (pollFirst now c).map (fun polled =>
      (polled.1, decide (polled.2.history 0 = c.history 0 ++ events))) = some (ret, true)) :
    ∃ c', pollFirst now c = some (ret, c') ∧ TimerStep .quiet 0 (.poll now ret events) c c' := by
  obtain ⟨⟨ret', c'⟩, hpolled, heq⟩ := Option.map_eq_some_iff.mp h
  obtain ⟨rfl, hhistory⟩ := Prod.mk.inj heq
  obtain ⟨req, hfind, hpoll⟩ := Option.bind_eq_some_iff.mp hpolled
  exact ⟨c', hpolled, .poll hfind hpoll (of_decide_eq_true hhistory)⟩

/-- The events of a call that gives the request up. -/
def givenUp : List Event :=
  [.called 0 (timedOutRsp 7), .returned 0 (timedOutRsp 7) 0, .freed 0]

private theorem givenUp_timesOut : TimesOut 0 givenUp :=
  ⟨timedOutRsp 7, List.mem_cons_self, rfl⟩

/-- The request is polled for the first time after a hundred seconds, and given up. -/
theorem latePoll_unwarranted :
    ∃ c', Run (TimerStep .quiet 0) [.poll 100000 int64Max givenUp] submittedStart c' ∧
      ¬ Warranted 0 [.poll 100000 int64Max givenUp] := by
  obtain ⟨c', -, hstep⟩ := timerStep_of_pollFirst 100000 int64Max givenUp
    (show (pollFirst 100000 submittedStart).map _ = _ by decide)
  refine ⟨c', .single hstep, fun hwarranted => ?_⟩
  obtain ⟨before, now, ret, events, after, hsplit, -⟩ :=
    hwarranted [] 100000 int64Max givenUp [] rfl givenUp_timesOut
  simp at hsplit

/-- The packet of the request. -/
def getAPacket : List UInt8 := [72, 1, 0, 4, 2, 0, 0, 0, 0, 0, 0, 0, 177, 97, 97, 60]

theorem warranted_of_inTime_polledTwice :
    Warranted 0 [.poll 0 2000 [.sent 0 getAPacket], .poll 100000 int64Max givenUp] := by
  have hreach : Reachable Env.quiet () (coapReqsOnConnect (Client.init ())) :=
    ⟨[.onConnect], .single rfl⟩
  obtain ⟨c₁, hpoll, hfirst⟩ := timerStep_of_pollFirst 0 2000 [.sent 0 getAPacket]
    (show (pollFirst 0 submittedStart).map _ = _ by decide)
  have hsecond : ((pollFirst 0 submittedStart).bind fun polled =>
      (pollFirst 100000 polled.2).map fun polled' => (polled'.1,
        decide (polled'.2.history 0 = polled.2.history 0 ++ givenUp))) =
      some (int64Max, true) := by decide
  rw [hpoll, Option.bind_some] at hsecond
  obtain ⟨c₂, -, hlate⟩ := timerStep_of_pollFirst 100000 int64Max givenUp hsecond
  have hahead : DeadlineAhead Env.quiet (coapPendingInit 0 3) 5 (uint32OfInt 0) :=
    ⟨1, _, rfl, by decide⟩
  have hguard : InTime .quiet 0 (.poll 0 2000 [.sent 0 getAPacket]) (submittedStart, []) := by
    intro _ req hfind
    have hpending : (submittedStart.find 0).map (·.pending) = some (coapPendingInit 0 3) := by
      decide
    rw [hfind, Option.map_some, Option.some_inj] at hpending
    rw [hpending]
    exact hahead
  have hguard' : InTime .quiet 0 (.poll 100000 int64Max givenUp)
      (c₁, [.poll 0 2000 [.sent 0 getAPacket]]) := fun hunsent =>
    absurd ⟨[], 0, 2000, _, [], rfl, ⟨getAPacket, List.mem_singleton_self _⟩,
      fun _ h => absurd h List.not_mem_nil⟩ hunsent
  have hrun : Run (Guarded (InTime .quiet 0) (Traced (TimerStep .quiet 0)))
      [.poll 0 2000 [.sent 0 getAPacket], .poll 100000 int64Max givenUp] (submittedStart, [])
      (c₂, [.poll 0 2000 [.sent 0 getAPacket], .poll 100000 int64Max givenUp]) :=
    .cons (t := (c₁, [.poll 0 2000 [.sent 0 getAPacket]])) ⟨hguard, hfirst, rfl⟩
      (.single ⟨hguard', hlate, rfl⟩)
  exact warranted_of_inTime hreach (.getA () false) hrun

end Golioth.Requests
