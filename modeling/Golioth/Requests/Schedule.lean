/-
# The schedule of retransmissions

A request that hears nothing is transmitted and given up on the schedule of an
exponential back-off. Its books have 32 bits, as has the clock, and the signed
difference of the two is the time left as long as the clock is read within half
of its range from the deadlines.

An observation stays listed after its first response. It is off the schedule from
then on.
-/
import Golioth.CS.Backoff
import Golioth.Requests.Timer

namespace Golioth.Requests

open Golioth.Coap CS

variable {κ σ : Type} {e : Env κ σ} {c c' d : Client κ σ} {ref : ℕ} {req req' : CoapReq κ}

/-! ## Times of 32 bits -/

theorem toNat_uint32OfInt (value : ℤ) : ((uint32OfInt value).toNat : ℤ) = value % 2 ^ 32 := by
  have hnonneg := Int.emod_nonneg value (show (2 : ℤ) ^ 32 ≠ 0 by decide)
  have hlt := Int.emod_lt_of_pos value (show (0 : ℤ) < 2 ^ 32 by decide)
  rw [uint32OfInt, UInt32.toNat_ofNat']
  omega

theorem uint32OfInt_add (value : ℤ) (n : ℕ) :
    uint32OfInt value + UInt32.ofNat n = uint32OfInt (value + n) := by
  apply UInt32.toNat_inj.mp
  have hsum := toNat_uint32OfInt (value + n)
  have hvalue := toNat_uint32OfInt value
  rw [UInt32.toNat_add, UInt32.toNat_ofNat']
  omega

private theorem shiftLeft_one_ofNat (n : ℕ) : UInt32.ofNat n <<< 1 = UInt32.ofNat (2 * n) := by
  apply UInt32.toNat_inj.mp
  rw [UInt32.toNat_shiftLeft, UInt32.toNat_ofNat', UInt32.toNat_ofNat', Nat.shiftLeft_eq]
  show n % 2 ^ 32 * 2 ^ 1 % 2 ^ 32 = 2 * n % 2 ^ 32
  omega

theorem int32Sub_int32OfUInt32 (a b : UInt32) :
    int32Sub (int32OfUInt32 a) (int32OfUInt32 b) = Int.bmod (a.toNat - b.toNat) (2 ^ 32) := by
  have hsub (n : ℕ) : Int.bmod (Int.bmod a.toNat n - Int.bmod b.toNat n) n =
      Int.bmod (a.toNat - b.toNat) n := by
    rw [Int.bmod_sub_bmod, Int.sub_bmod_bmod]
  exact hsub (2 ^ 32)

/-- A time read as an `int32_t`, by the half of the range of the clock it lies in. -/
theorem int32OfUInt32_uint32OfInt (time : ℤ) :
    int32OfUInt32 (uint32OfInt time) = time - 2 ^ 32 * ((time + 2 ^ 31) / 2 ^ 32) := by
  have hbmod : Int.bmod (uint32OfInt time).toNat (2 * 2 ^ 31) =
      time - 2 ^ 32 * ((time + 2 ^ 31) / 2 ^ 32) := by
    apply Backoff.bmod_eq_of_modEq (show 0 < 2 ^ 31 by decide)
    · rw [toNat_uint32OfInt]
      exact (Int.mod_modEq _ _).trans (Int.modEq_sub_modulus_mul_iff.mpr rfl)
    · push_cast
      omega
    · push_cast
      omega
  exact hbmod

/-- The value is of type `int32_t`. -/
def InInt32 (value : ℤ) : Prop := -2 ^ 31 ≤ value ∧ value < 2 ^ 31

/-- The subtraction of `golioth_coap_req_poll_prepare` does not overflow, and is the distance to
the deadline. -/
def SubtractsTo (pending : Pending) (now : UInt32) (distance : ℤ) : Prop :=
  InInt32 (int32OfUInt32 (pending.t0 + pending.timeout) - int32OfUInt32 now) ∧
    timeLeft pending now = distance

/-- The deadline and the time lie on the same side of every uptime at which the clock, read as an
`int32_t`, changes its sign from positive to negative. -/
def SameSign (deadline now : ℤ) : Prop := (deadline + 2 ^ 31) / 2 ^ 32 = (now + 2 ^ 31) / 2 ^ 32

/-- **Remaining time.** The subtraction of `golioth_coap_req_poll_prepare` stays in the range of
`int` and is the distance to the deadline exactly if both times are on the same side. -/
theorem timeLeft_exact_iff {pending : Pending} {t0 timeout now : ℤ}
    (ht0 : pending.t0 = uint32OfInt t0) (htimeout : pending.timeout = uint32OfInt timeout)
    (hlow : -2 ^ 31 < t0 + timeout - now) (hhigh : t0 + timeout - now < 2 ^ 31) :
    SubtractsTo pending (uint32OfInt now) (t0 + timeout - now) ↔ SameSign (t0 + timeout) now := by
  have hsum : pending.t0 + pending.timeout = uint32OfInt (t0 + timeout) := by
    apply UInt32.toNat_inj.mp
    have hfirst := toNat_uint32OfInt t0
    have hsecond := toNat_uint32OfInt timeout
    have hboth := toNat_uint32OfInt (t0 + timeout)
    rw [ht0, htimeout, UInt32.toNat_add]
    omega
  have hleft : timeLeft pending (uint32OfInt now) = t0 + timeout - now := by
    rw [timeLeft, hsum, int32Sub_int32OfUInt32, toNat_uint32OfInt, toNat_uint32OfInt]
    apply Backoff.bmod_eq_of_modEq (show 0 < 2 ^ 31 by decide)
    · exact (Int.mod_modEq _ _).sub (Int.mod_modEq _ _)
    · exact_mod_cast hlow.le
    · exact_mod_cast hhigh
  rw [SubtractsTo, and_iff_left hleft, hsum, int32OfUInt32_uint32OfInt, int32OfUInt32_uint32OfInt,
    InInt32, SameSign]
  omega

/-- A timer with a timeout of 30 milliseconds. -/
def pendingFrom (t0 : ℤ) : Pending where
  t0 := uint32OfInt t0
  timeout := uint32OfInt 30
  retries := 3

/-- The uptime crosses `2 ^ 32` milliseconds. -/
theorem timeLeft_exact_iff_sample :
    SubtractsTo (pendingFrom (2 ^ 32 - 10)) (uint32OfInt (2 ^ 32 - 5)) 25 ↔
      SameSign (2 ^ 32 + 20) (2 ^ 32 - 5) :=
  @timeLeft_exact_iff (pendingFrom (2 ^ 32 - 10)) (2 ^ 32 - 10) 30 (2 ^ 32 - 5) rfl rfl (by decide)
    (by decide)

/-- The uptime crosses `2 ^ 31` milliseconds, and the subtraction overflows. -/
theorem timeLeft_not_exact :
    ¬ SubtractsTo (pendingFrom (2 ^ 31 - 10)) (uint32OfInt (2 ^ 31 - 5)) 25 := by
  rintro ⟨⟨hlow, -⟩, -⟩
  exact absurd hlow (by decide)

/-! ## The schedule -/

section Schedule

variable {t0 now : ℤ} {timeout k : ℕ}

/-- A first timeout for which the whole schedule is shorter than half of the range
of the clock. -/
structure FitsClock (timeout : ℕ) : Prop where
  pos : 0 < timeout
  small : 15 * timeout < 2 ^ 31

/-- A time no further than half of the range of the clock from every deadline. -/
def NearSchedule (t0 : ℤ) (timeout : ℕ) (now : ℤ) : Prop :=
  ∀ k ≤ 4, Backoff.deadline t0 timeout k - 2 ^ 31 ≤ now ∧
    now ≤ Backoff.deadline t0 timeout k + 2 ^ 31

/-- The books of a timer when `k` deadlines have passed. -/
def pendingAt (t0 : ℤ) (timeout : ℕ) : (k : ℕ) → Pending
  | 0 => coapPendingInit t0 3
  | k + 1 =>
    { t0 := uint32OfInt (Backoff.deadline t0 timeout k)
      timeout := UInt32.ofNat (2 ^ k * timeout)
      retries := UInt8.ofNat (3 - k) }

private theorem doubled_lt (hfits : FitsClock timeout) (hk : k ≤ 3) :
    0 < 2 ^ k * timeout ∧ 2 ^ k * timeout < 2 ^ 31 := by
  have hpos := hfits.pos
  have hsmall := hfits.small
  have hpow : 2 ^ k ≤ 2 ^ 3 := Nat.pow_le_pow_right (by decide) hk
  have hle := Nat.mul_le_mul_right timeout hpow
  exact ⟨Nat.mul_pos (Nat.two_pow_pos k) hpos, by omega⟩

private theorem timeout_pendingAt_ne_zero (hfits : FitsClock timeout) (hk : k ≤ 3) :
    (pendingAt t0 timeout (k + 1)).timeout ≠ 0 := by
  obtain ⟨hpos, hlt⟩ := doubled_lt hfits hk
  intro hzero
  have htoNat := congrArg UInt32.toNat hzero
  rw [pendingAt, UInt32.toNat_ofNat', UInt32.toNat_zero] at htoNat
  omega

/-- The time that the code finds left is the time to the next deadline. -/
theorem timeLeft_pendingAt (hlow : -2 ^ 31 ≤ Backoff.deadline t0 timeout k - now)
    (hhigh : Backoff.deadline t0 timeout k - now < 2 ^ 31) :
    timeLeft (pendingAt t0 timeout k) (uint32OfInt now) = Backoff.deadline t0 timeout k - now := by
  have hsum : (pendingAt t0 timeout k).t0 + (pendingAt t0 timeout k).timeout =
      uint32OfInt (Backoff.deadline t0 timeout k) := by
    cases k with
    | zero =>
      rw [Backoff.deadline_zero]
      exact UInt32.add_zero _
    | succ k =>
      rw [Backoff.deadline_succ, ← uint32OfInt_add]
      rfl
  rw [timeLeft, hsum, int32Sub_int32OfUInt32, toNat_uint32OfInt, toNat_uint32OfInt]
  apply Backoff.bmod_eq_of_modEq (show 0 < 2 ^ 31 by decide)
  · exact (Int.mod_modEq _ _).sub (Int.mod_modEq _ _)
  · exact_mod_cast hlow
  · exact_mod_cast hhigh

/-- The deadline the timer waits for is near enough: the schedule ends within
half of the range before the first transmission, and the one before it has passed
after that. -/
private theorem next_deadline_near (hfits : FitsClock timeout) (hk : k ≤ 4)
    (hnear : NearSchedule t0 timeout now) (hpast : ∀ j < k, Backoff.deadline t0 timeout j ≤ now) :
    -2 ^ 31 ≤ Backoff.deadline t0 timeout k - now ∧
      Backoff.deadline t0 timeout k - now < 2 ^ 31 := by
  have hpos := hfits.pos
  refine ⟨by have := (hnear k hk).2; omega, ?_⟩
  cases k with
  | zero =>
    have hlast := (hnear 4 le_rfl).1
    have hsum : Backoff.deadline t0 timeout 4 = t0 + 15 * timeout := by
      rw [Backoff.deadline]
      norm_num
    rw [Backoff.deadline_zero]
    omega
  | succ k =>
    have hbefore := hpast k (Nat.lt_succ_self k)
    have hdoubled := (doubled_lt hfits (show k ≤ 3 by omega)).2
    rw [Backoff.deadline_succ]
    omega

/-- The initial transmission fixes the timeout. -/
private theorem coapPendingCycle_zero {ackTimeout : UInt32}
    (hdrawn : ackTimeout.toNat = timeout) :
    coapPendingCycle ackTimeout (pendingAt t0 timeout 0) = (true, pendingAt t0 timeout 1) := by
  have hinitial : (pendingAt t0 timeout 0).timeout = 0 := rfl
  have hack : UInt32.ofNat (2 ^ 0 * timeout) = ackTimeout := by
    rw [pow_zero, one_mul, ← hdrawn, UInt32.ofNat_toNat]
  rw [coapPendingCycle, if_pos hinitial, pendingAt, pendingAt, hack, Backoff.deadline_zero]
  rfl

/-- A retransmission takes the timer to the next deadline. -/
private theorem coapPendingCycle_succ (hfits : FitsClock timeout) (hk : k < 3)
    (ackTimeout : UInt32) :
    coapPendingCycle ackTimeout (pendingAt t0 timeout (k + 1)) =
      (true, pendingAt t0 timeout (k + 2)) := by
  have hcount : ∀ k < 3, UInt8.ofNat (3 - k) ≠ 0 ∧
      UInt8.ofNat (3 - k) - 1 = UInt8.ofNat (3 - (k + 1)) := by decide
  obtain ⟨hretries, hless⟩ := hcount k hk
  rw [coapPendingCycle, if_neg (timeout_pendingAt_ne_zero hfits hk.le), pendingAt,
    if_neg hretries, uint32OfInt_add, shiftLeft_one_ofNat, hless, pendingAt,
    Backoff.deadline_succ, pow_succ', mul_assoc]

/-- After three retransmissions none is left. -/
private theorem coapPendingCycle_last (hfits : FitsClock timeout) (ackTimeout : UInt32) :
    coapPendingCycle ackTimeout (pendingAt t0 timeout 4) = (false, pendingAt t0 timeout 4) := by
  rw [coapPendingCycle, if_neg (timeout_pendingAt_ne_zero hfits le_rfl)]
  rfl

/-- What the timeout drawn for the initial transmission comes to, if a reading of the
random numbers is drawn for it now. -/
def Draws (e : Env κ σ) (timeout : ℕ) (now : ℤ) (pending : Pending) (readings : ℕ) : Prop :=
  pending.timeout = 0 → timeLeft pending (uint32OfInt now) ≤ 0 →
    (initAckTimeout e.config (e.sysRand32Get readings)).toNat = timeout

/-- How the loop ends, given the first of the deadlines that has not passed. -/
def outcomeAt (t0 : ℤ) (timeout k : ℕ) (now : ℤ) (send : Bool) (readings : ℕ) :
    Option ℕ → PollOutcome
  | some j =>
    .waits (Backoff.deadline t0 timeout j - now) (send || decide (k < j)) (pendingAt t0 timeout j)
      readings
  | none => .expires (pendingAt t0 timeout 4) readings

/-- One round of the loop when the deadline has passed. -/
private theorem pollCycles_cycle (hfits : FitsClock timeout) {left readings : ℕ}
    (hk : k + (left + 1) = 4) (cycles : ℕ) (send : Bool) (hnear : NearSchedule t0 timeout now)
    (hpast : ∀ j < k, Backoff.deadline t0 timeout j ≤ now)
    (hdrawn : Draws e timeout now (pendingAt t0 timeout k) readings)
    (hpassed : Backoff.deadline t0 timeout k ≤ now) :
    ∃ readings', pollCycles e (uint32OfInt now) (cycles + 1) (pendingAt t0 timeout k) readings
        send =
      pollCycles e (uint32OfInt now) cycles (pendingAt t0 timeout (k + 1)) readings' true := by
  obtain ⟨hlow, hhigh⟩ := next_deadline_near hfits (by omega) hnear hpast
  have hleft := timeLeft_pendingAt hlow hhigh
  have hover : timeLeft (pendingAt t0 timeout k) (uint32OfInt now) ≤ 0 := by omega
  rw [pollCycles, if_neg (not_lt.mpr hover)]
  cases k with
  | zero =>
    rw [coapPendingCycle_zero (hdrawn rfl hover)]
    exact ⟨_, rfl⟩
  | succ k =>
    rw [coapPendingCycle_succ hfits (by omega)]
    exact ⟨_, rfl⟩

/-- **The loop.** It takes the timer to the first deadline that has not passed, in as
many rounds as there are deadlines left, and one more to find none. -/
theorem pollCycles_pendingAt (hfits : FitsClock timeout) {left cycles : ℕ} (hk : k + left = 4)
    (hcycles : left < cycles) (hnear : NearSchedule t0 timeout now)
    (hpast : ∀ j < k, Backoff.deadline t0 timeout j ≤ now) {readings : ℕ}
    (hdrawn : Draws e timeout now (pendingAt t0 timeout k) readings) (send : Bool) :
    ∃ readings', pollCycles e (uint32OfInt now) cycles (pendingAt t0 timeout k) readings send =
      some (outcomeAt t0 timeout k now send readings'
        (Backoff.next (Backoff.deadline t0 timeout) now left k)) := by
  induction left generalizing k cycles readings send with
  | zero =>
    obtain rfl : k = 4 := hk
    obtain ⟨cycles, rfl⟩ : ∃ n, cycles = n + 1 := ⟨cycles - 1, by omega⟩
    obtain ⟨hlow, hhigh⟩ := next_deadline_near hfits le_rfl hnear hpast
    have hleft := timeLeft_pendingAt hlow hhigh
    rw [pollCycles, hleft]
    split
    · next hwaits =>
      refine ⟨readings, ?_⟩
      rw [Backoff.next_of_lt (by omega), outcomeAt]
      simp
    · next hover =>
      rw [coapPendingCycle_last hfits, Backoff.next_zero_of_le (by omega)]
      exact ⟨_, rfl⟩
  | succ left ih =>
    obtain ⟨cycles, rfl⟩ : ∃ n, cycles = n + 1 := ⟨cycles - 1, by omega⟩
    by_cases hpassed : Backoff.deadline t0 timeout k ≤ now
    · obtain ⟨readings', hround⟩ := pollCycles_cycle hfits hk cycles send hnear hpast hdrawn
        hpassed
      have hpast' : ∀ j < k + 1, Backoff.deadline t0 timeout j ≤ now := fun j hj =>
        (Backoff.deadline_mono (Nat.le_of_lt_succ hj)).trans hpassed
      have hdrawn' : Draws e timeout now (pendingAt t0 timeout (k + 1)) readings' := fun hzero =>
        absurd hzero (timeout_pendingAt_ne_zero hfits (by omega))
      obtain ⟨readings'', hrest⟩ := ih (show k + 1 + left = 4 by omega)
        (show left < cycles by omega) hpast' hdrawn' true
      refine ⟨readings'', ?_⟩
      rw [hround, hrest, Backoff.next_of_le hpassed]
      cases hnext : Backoff.next (Backoff.deadline t0 timeout) now left (k + 1) with
      | none => rfl
      | some j =>
        -- a later stage has been reached, so the packet is sent
        have hlt : k < j := (Backoff.next_eq_some hnext).1
        simp [outcomeAt, hlt]
    · obtain ⟨hlow, hhigh⟩ := next_deadline_near hfits (by omega) hnear hpast
      have hwaits : timeLeft (pendingAt t0 timeout k) (uint32OfInt now) > 0 := by
        rw [timeLeft_pendingAt hlow hhigh]
        omega
      refine ⟨readings, ?_⟩
      rw [pollCycles, if_pos hwaits, Backoff.next_of_lt (not_le.mp hpassed), outcomeAt,
        timeLeft_pendingAt hlow hhigh]
      simp

end Schedule

/-! ## A request that hears nothing -/

section Unanswered

variable {t0 now ret : ℤ} {timeout k sent : ℕ} {labels : List TimerLabel}

/-- A returned value is the time left until the first deadline that has not passed. -/
def AwaitsNext (t0 : ℤ) (timeout : ℕ) (now ret : ℤ) : Prop :=
  ∃ k ≤ 4, ret = Backoff.deadline t0 timeout k - now ∧ 0 < ret ∧
    ∀ j < k, Backoff.deadline t0 timeout j ≤ now

/-- **The schedule.** After `sent` transmissions, the first call at or after the last
deadline gives the request up and is the last one. Every call before it returns the
time left, and sends the packet at most once, for the initial transmission not before
the first deadline, for the next ones not before the next deadlines. -/
def OnSchedule (ref : ℕ) (t0 : ℤ) (timeout : ℕ) : (sent : ℕ) → List TimerLabel → Prop
  | sent, [] => sent ≤ 4
  | sent, .poll now ret events :: labels =>
    if Backoff.deadline t0 timeout 4 ≤ now then
      ret = int64Max ∧ GivesUp ref events ∧ sent ≤ 4 ∧ pollTimes labels = []
    else
      AwaitsNext t0 timeout now ret ∧
        (events = [] ∧ OnSchedule ref t0 timeout sent labels ∨
          (∃ data, events = [.sent ref data]) ∧ Backoff.deadline t0 timeout sent ≤ now ∧
            OnSchedule ref t0 timeout (sent + 1) labels)
  | sent, _ :: labels => OnSchedule ref t0 timeout sent labels

/-- A request that gets no response: nothing but calls of
`golioth_coap_req_poll_prepare` happens to it. The timeout drawn when it is first
transmitted is given. -/
def Unanswered (e : Env κ σ) (ref timeout : ℕ) : TimerLabel → Client κ σ → Prop
  | .poll now _ _, c => ∀ req, c.find ref = some req → Draws e timeout now req.pending c.readings
  | .idle, _ => True
  | _, _ => False

/-- The retransmissions left bound the rounds of the loop. -/
private theorem cycles_pendingAt (t0 : ℤ) (timeout : ℕ) {left : ℕ} (hk : k + left = 4) :
    left < 2 * (pendingAt t0 timeout k).retries.toNat + 2 := by
  have hcount : ∀ k ≤ 3, (UInt8.ofNat (3 - k)).toNat = 3 - k := by decide
  cases k with
  | zero =>
    obtain rfl : left = 4 := by omega
    exact show 4 < 2 * (3 : UInt8).toNat + 2 by decide
  | succ k =>
    rw [pendingAt, hcount k (by omega)]
    omega

/-- What a call does to a request whose first `k` deadlines have passed. -/
inductive Polled (e : Env κ σ) (ref : ℕ) (t0 : ℤ) (timeout k : ℕ) (now : ℤ) (req : CoapReq κ)
    (c : Client κ σ) : ℤ → Client κ σ → Prop
  | waits {c' : Client κ σ} (j : ℕ) : k ≤ j → j ≤ 4 → now < Backoff.deadline t0 timeout j →
      (∀ i < j, Backoff.deadline t0 timeout i ≤ now) →
      c'.find ref = some { req with pending := pendingAt t0 timeout j } →
      c'.history ref = c.history ref ++ (if k < j then [.sent ref req.request.data] else []) →
      Polled e ref t0 timeout k now req c (Backoff.deadline t0 timeout j - now) c'
  | expires {c' : Client κ σ} {events : List Event} : Backoff.deadline t0 timeout 4 ≤ now →
      c'.find ref = none → c'.history ref = c.history ref ++ events → GivesUp ref events →
      Polled e ref t0 timeout k now req c int64Max c'

/-- **Step.** A call takes a request to the first deadline that has not passed, and
sends it if that is a later one, or gives it up. Its loop goes round five times at
most. -/
theorem polled_of_pendingAt (hfits : FitsClock timeout) (hk : k ≤ 4)
    (hnear : NearSchedule t0 timeout now) (hpast : ∀ j < k, Backoff.deadline t0 timeout j ≤ now)
    (hwf : WellFormed c) (hfind : c.find ref = some req)
    (hpending : req.pending = pendingAt t0 timeout k)
    (hdrawn : Draws e timeout now req.pending c.readings) :
    (pollCycles e (uint32OfInt now) 5 req.pending c.readings false).isSome ∧
      ∃ ret c', coapReqPollPrepare e req (uint32OfInt now) c = some (ret, c') ∧ WellFormed c' ∧
        Polled e ref t0 timeout k now req c ret c' := by
  obtain ⟨left, hleft⟩ : ∃ left, k + left = 4 := ⟨4 - k, by omega⟩
  have hcycles := cycles_pendingAt t0 timeout hleft
  rw [hpending] at hdrawn
  refine ⟨?_, ?_⟩
  · obtain ⟨readings, hloop⟩ := pollCycles_pendingAt hfits hleft (show left < 5 by omega) hnear
      hpast hdrawn false
    rw [hpending, hloop]
    rfl
  · obtain ⟨readings, hloop⟩ := pollCycles_pendingAt hfits hleft hcycles hnear hpast hdrawn false
    cases hnext : Backoff.next (Backoff.deadline t0 timeout) now left k with
    | some j =>
      obtain ⟨hkj, hj, hlt, hbefore⟩ := Backoff.next_eq_some hnext
      rw [hnext, outcomeAt, Bool.false_or] at hloop
      obtain ⟨hret, hwf', hfind', hhistory⟩ := carryOut_waits (e := e) hwf hfind
        (Backoff.deadline t0 timeout j - now) (decide (k < j)) (pendingAt t0 timeout j) readings rfl
      refine ⟨_, _, ?_, hwf', .waits j hkj (by omega) hlt (fun i hi => ?_) hfind' ?_⟩
      · rw [coapReqPollPrepare, hpending, hloop]
        exact congrArg some (Prod.ext hret rfl)
      · rcases lt_or_ge i k with hik | hik
        · exact hpast i hik
        · exact hbefore i hik hi
      · simpa using hhistory
    | none =>
      have hover := Backoff.next_eq_none hnext
      rw [hleft] at hover
      rw [hnext, outcomeAt] at hloop
      obtain ⟨hret, hwf', hfind', events, hhistory, hgives⟩ := carryOut_expires (e := e) hwf hfind
        (pendingAt t0 timeout 4) readings rfl
      refine ⟨_, _, ?_, hwf', .expires hover hfind' hhistory hgives⟩
      rw [coapReqPollPrepare, hpending, hloop]
      exact congrArg some (Prod.ext hret rfl)

/-- A request that is not listed is not called for. -/
private theorem pollTimes_of_gone (hgone : c.find ref = none)
    (hrun : Run (Guarded (Unanswered e ref timeout) (TimerStep e ref)) labels c c') :
    pollTimes labels = [] ∧ c'.find ref = none := by
  induction hrun with
  | nil => exact ⟨rfl, hgone⟩
  | cons hstep _ ih =>
    obtain ⟨hguard, hstep⟩ := hstep
    cases hstep with
    | poll hfind _ _ =>
      rw [hgone] at hfind
      cases hfind
    | nextBlock _ _ _ => exact absurd hguard id
    | idle _ hfind _ => exact ih (hfind.trans hgone)
    | respond _ _ => exact absurd hguard id

/-- The request is listed and its timer has passed `k` deadlines. -/
structure Armed (ref : ℕ) (t0 : ℤ) (timeout k : ℕ) (c : Client κ σ) : Prop where
  wellFormed : WellFormed c
  le_four : k ≤ 4
  pending : ∃ req, c.find ref = some req ∧ req.pending = pendingAt t0 timeout k

/-- **Run.** A request that hears nothing is on schedule, and its timer has passed no
deadlines but those before some call. -/
theorem onSchedule_of_run (hfits : FitsClock timeout) (harmed : Armed ref t0 timeout k c)
    (hsent : sent ≤ k) (hnear : ∀ now ∈ pollTimes labels, NearSchedule t0 timeout now)
    (hmono : (pollTimes labels).Pairwise (· ≤ ·))
    (hpast : ∀ now ∈ pollTimes labels, ∀ j < k, Backoff.deadline t0 timeout j ≤ now)
    (hrun : Run (Guarded (Unanswered e ref timeout) (TimerStep e ref)) labels c c') :
    OnSchedule ref t0 timeout sent labels ∧
      (c'.find ref = none ∨ ∃ k', Armed ref t0 timeout k' c' ∧
        ∀ j < k', j < k ∨ ∃ now ∈ pollTimes labels, Backoff.deadline t0 timeout j ≤ now) := by
  induction hrun generalizing k sent with
  | nil c => exact ⟨hsent.trans harmed.le_four, .inr ⟨k, harmed, fun j hj => .inl hj⟩⟩
  | @cons label labels c d c' hstep hrest ih =>
    obtain ⟨hguard, hstep⟩ := hstep
    cases hstep with
    | @poll _ _ req' now ret events hfind hpoll hevents =>
      obtain ⟨req, hfind', hpending⟩ := harmed.pending
      obtain rfl := Option.some_inj.mp (hfind'.symm.trans hfind)
      obtain ⟨hlater, hmono'⟩ := List.pairwise_cons.mp hmono
      obtain ⟨-, ret', d', hpoll', hwf', hpolled⟩ := polled_of_pendingAt hfits harmed.le_four
        (hnear now List.mem_cons_self) (hpast now List.mem_cons_self) harmed.wellFormed hfind
        hpending (hguard req hfind)
      obtain ⟨rfl, rfl⟩ := Prod.mk.inj (Option.some_inj.mp (hpoll'.symm.trans hpoll))
      cases hpolled with
      | waits j hkj hj hlt hbefore hfind'' hhistory =>
        obtain rfl := List.append_cancel_left (hevents.symm.trans hhistory)
        have hnot : ¬ Backoff.deadline t0 timeout 4 ≤ now := fun hover =>
          absurd (hlt.trans_le (Backoff.deadline_mono hj)) (not_lt.mpr hover)
        have harmed' : Armed ref t0 timeout j d' := ⟨hwf', hj, _, hfind'', rfl⟩
        have hpast' : ∀ now ∈ pollTimes labels, ∀ i < j, Backoff.deadline t0 timeout i ≤ now :=
          fun now' hmem i hi => (hbefore i hi).trans (hlater now' hmem)
        have hnext : AwaitsNext t0 timeout now (Backoff.deadline t0 timeout j - now) :=
          ⟨j, hj, rfl, by omega, hbefore⟩
        have hend : ∀ {k'}, (∀ i < k', i < j ∨ ∃ now ∈ pollTimes labels,
            Backoff.deadline t0 timeout i ≤ now) → ∀ i < k', i < k ∨
              ∃ now' ∈ now :: pollTimes labels, Backoff.deadline t0 timeout i ≤ now' := by
          intro k' h i hi
          rcases h i hi with hij | ⟨now', hmem, hle⟩
          · exact .inr ⟨now, List.mem_cons_self, hbefore i hij⟩
          · exact .inr ⟨now', List.mem_cons_of_mem _ hmem, hle⟩
        rw [OnSchedule, if_neg hnot]
        by_cases hadvances : k < j
        · -- the loop went round, so the packet is sent
          obtain ⟨hrest', hlast⟩ := ih harmed' (show sent + 1 ≤ j by omega)
            (fun now' hmem => hnear now' (List.mem_cons_of_mem _ hmem)) hmono' hpast'
          refine ⟨⟨hnext, .inr ⟨⟨req.request.data, if_pos hadvances⟩, ?_, hrest'⟩⟩, ?_⟩
          · exact hbefore sent (by omega)
          · exact hlast.imp_right fun ⟨k', hk', h⟩ => ⟨k', hk', hend h⟩
        · obtain ⟨hrest', hlast⟩ := ih harmed' (show sent ≤ j by omega)
            (fun now' hmem => hnear now' (List.mem_cons_of_mem _ hmem)) hmono' hpast'
          refine ⟨⟨hnext, .inl ⟨if_neg hadvances, hrest'⟩⟩, ?_⟩
          exact hlast.imp_right fun ⟨k', hk', h⟩ => ⟨k', hk', hend h⟩
      | expires hover hgone hhistory hgives =>
        obtain rfl := List.append_cancel_left (hevents.symm.trans hhistory)
        obtain ⟨hquiet, hgone'⟩ := pollTimes_of_gone hgone hrest
        rw [OnSchedule, if_pos hover]
        exact ⟨⟨rfl, hgives, hsent.trans harmed.le_four, hquiet⟩, .inl hgone'⟩
    | nextBlock _ _ _ => exact absurd hguard id
    | idle hwf hfind hhistory =>
      obtain ⟨req, hfind', hpending⟩ := harmed.pending
      exact ih ⟨hwf harmed.wellFormed, harmed.le_four, req, hfind.trans hfind', hpending⟩ hsent
        hnear hmono hpast
    | respond _ _ => exact absurd hguard id

end Unanswered

/-! ## An observation that was accepted -/

/-- A response to a request has been accepted. -/
def Accepted (ref : ℕ) (c : Client κ σ) : Prop := ∃ rsp ∈ invocations (c.history ref), rsp.err = 0

/-- An observation that was accepted is no longer pending. -/
def Acknowledged (ref : ℕ) (c : Client κ σ) : Prop :=
  ∀ req, c.find ref = some req → req.isObserve = true → Accepted ref c → req.isPending = false

private theorem Acknowledged.congr (h : Acknowledged ref c) (hfind : c'.find ref = c.find ref)
    (hinvocations : invocations (c'.history ref) = invocations (c.history ref)) :
    Acknowledged ref c' := by
  intro req hlisted hobserve ⟨rsp, hmem, herr⟩
  exact h req (hfind.symm.trans hlisted) hobserve ⟨rsp, hinvocations ▸ hmem, herr⟩

private theorem Acknowledged.modify (h : Acknowledged ref c) {f : CoapReq κ → CoapReq κ}
    (hf : ∀ req, (f req).ref = req.ref ∧ (f req).isObserve = req.isObserve ∧
      (f req).isPending = req.isPending) : Acknowledged ref (c.modify ref f) := by
  intro req hlisted hobserve haccepted
  have hself : (c.modify ref f).find ref = _ :=
    Client.find_modify_self c fun req href => (hf req).1.trans href
  rw [hself] at hlisted
  obtain ⟨req', hfind, rfl⟩ := Option.map_eq_some_iff.mp hlisted
  rw [(hf req').2.2]
  exact h req' hfind ((hf req').2.1.symm.trans hobserve) haccepted

/-- **Step.** The only action that has the callback of an observation accept a response
clears the flag. -/
private theorem Acknowledged.acts (h : Acknowledged ref c) (hwf : WellFormed c)
    (hlt : ref < c.nextRef) {action : Action κ} (hacts : Acts e action c c') :
    Acknowledged ref c' := by
  by_cases habout : action.about = some ref
  · cases hacts with
    | internal connected readings => cases habout
    | submit submission => cases habout
    | track ref' reply blockCtx =>
      obtain rfl := Option.some_inj.mp habout
      exact h.modify fun _ => ⟨rfl, rfl, rfl⟩
    | rearm ref' pending =>
      obtain rfl := Option.some_inj.mp habout
      exact h.modify fun _ => ⟨rfl, rfl, rfl⟩
    | @send _ ref' req hfind =>
      obtain rfl := Option.some_inj.mp habout
      refine h.congr rfl ?_
      rw [Client.history_emit, invocations_append]
      split
      · exact List.append_nil _
      · exact List.append_nil _
    | @offer _ ref' req rsp hfind hobserve hterminal =>
      obtain rfl := Option.some_inj.mp habout
      obtain ⟨req', hfind', hprepared⟩ := find_invoke (e := e) hwf hfind req.cb rsp
      intro req'' hfind'' hobserve'
      obtain rfl := Option.some_inj.mp (hfind'.symm.trans hfind'')
      rw [hprepared.same.isObserve, hobserve] at hobserve'
      cases hobserve'
    | @notify _ ref' req rsp hfind hobserve herr hnext =>
      obtain rfl := Option.some_inj.mp habout
      intro req' hfind' _ _
      have hself : ((invoke e ref' req.cb rsp c).2.modify ref' fun req =>
          { req with isPending := false }).find ref' = _ :=
        Client.find_modify_self _ fun _ h => h
      rw [hself] at hfind'
      obtain ⟨req'', -, rfl⟩ := Option.map_eq_some_iff.mp hfind'
      rfl
    | @finish _ ref' req rsp hfind hterminal hobserve =>
      obtain rfl := Option.some_inj.mp habout
      intro req' hfind'
      rw [find_coapReqCancelAndFree_self] at hfind'
      cases hfind'
  · obtain ⟨hfind, hhistory⟩ := hacts.frame hwf hlt habout
    exact h.congr hfind (congrArg invocations hhistory)

private theorem Fresh.acknowledged (h : Fresh e c ref) : Acknowledged ref c := by
  cases h with
  | rejected observe err events herr hevents hnone hhistory =>
    intro req hfind
    rw [hnone] at hfind
    cases hfind
  | listed submission req hbuilt hfind hhistory =>
    intro req' _ _ ⟨rsp, hmem, _⟩
    rw [hhistory] at hmem
    cases hmem

/-- **Run.** -/
theorem acknowledged_of_reachable {app : σ} (hreach : Reachable e app c) (ref : ℕ)
    (hlt : ref < c.nextRef) : Acknowledged ref c := by
  have hinit : ∀ ref < (Client.init app : Client κ σ).nextRef,
      Acknowledged ref (Client.init app : Client κ σ) := by
    intro ref hlt
    exact absurd hlt (Nat.not_lt_zero ref)
  refine (hreach.invariant (fun c => WellFormed c ∧ ∀ ref < c.nextRef, Acknowledged ref c)
    ⟨wellFormed_init app, hinit⟩ fun op s t hinv hstep => ?_).2 ref hlt
  refine (perform_run hinv.1 hstep).invariant
    (fun c => WellFormed c ∧ ∀ ref < c.nextRef, Acknowledged ref c) ?_ hinv
  intro action s t _ ⟨hwf, hall⟩ hacts
  refine ⟨hacts.wellFormed hwf, fun ref hlt => ?_⟩
  by_cases hold : ref < s.nextRef
  · exact (hall ref hold).acts hwf hold hacts
  · exact (hacts.fresh hwf (not_lt.mp hold) hlt).acknowledged

/-- A pass of the poll loop leaves alone an observation that is not pending. -/
theorem left_alone_of_not_pending (hwf : WellFormed c) (hfind : c.find ref = some req)
    (hobserve : req.isObserve = true) (hpending : req.isPending = false) {now ret : ℤ}
    {visits : ℕ} (hpass : coapReqsPollPrepare e now visits c = some (ret, c')) :
    c'.find ref = some req ∧ c'.history ref = c.history ref := by
  have hlt := hwf.refs_lt ref (c.mem_refs_iff.mpr ⟨req, hfind⟩)
  have hrel := CS.SafeIteration.forEachSafe_rel
    (r := fun s s' : ℤ × Client κ σ => WellFormed s.2 → ref < s.2.nextRef →
      s.2.find ref = some req → WellFormed s'.2 ∧ ref < s'.2.nextRef ∧
        s'.2.find ref = some req ∧ s'.2.history ref = s.2.history ref)
    (fun s hwf hlt hfind => ⟨hwf, hlt, hfind, rfl⟩) ?_ ?_ hpass hwf hlt hfind
  · exact hrel.2.2
  · intro s t u hst htu hwf hlt hfind
    obtain ⟨hwf', hlt', hfind', hhistory⟩ := hst hwf hlt hfind
    obtain ⟨hwf'', hlt'', hfind'', hhistory'⟩ := htu hwf' hlt' hfind'
    exact ⟨hwf'', hlt'', hfind'', hhistory'.trans hhistory⟩
  · intro other s s' hvisit hwf hlt hfind
    by_cases hother : other = ref
    · subst hother
      rw [pollVisit, hfind] at hvisit
      have hskips : req.isObserve ∧ ¬ req.isPending := ⟨hobserve, by rw [hpending]; decide⟩
      obtain rfl := Option.some_inj.mp ((if_pos hskips).symm.trans hvisit)
      exact ⟨hwf, hlt, hfind, rfl⟩
    · have hrun := pollVisit_run (e := e) hvisit
      obtain ⟨hwf', hle⟩ := wellFormed_of_run hrun hwf
      have habout : ∀ action : Action κ, PollPermits other action → action.about ≠ some ref := by
        rintro action (rfl | rfl | rfl | ⟨userData, rfl⟩) habout
        · cases habout
        · exact hother (Option.some_inj.mp habout)
        · exact hother (Option.some_inj.mp habout)
        · exact hother (Option.some_inj.mp habout)
      obtain ⟨hfind', hhistory⟩ := frame_of_run hrun hwf hlt habout
      exact ⟨hwf', hlt.trans_le hle, hfind'.trans hfind, hhistory⟩

/-! ## Retransmission -/

/-- **Retransmission.** A request that was just scheduled and hears nothing keeps the
schedule, whichever timeout is drawn and whenever it is polled, and every further call
returns after at most five rounds of its loop. An observation whose callback has
accepted a response is not touched by the poll loop any more. -/
theorem retransmits_on_schedule {app : σ} (hreach : Reachable e app c) :
    (∀ (ref : ℕ) (req : CoapReq κ) (t0 : ℤ) (timeout : ℕ) (labels : List TimerLabel)
      (c' : Client κ σ), c.find ref = some req → req.pending = coapPendingInit t0 3 →
      FitsClock timeout → (∀ now ∈ pollTimes labels, NearSchedule t0 timeout now) →
      (pollTimes labels).Pairwise (· ≤ ·) →
      Run (Guarded (Unanswered e ref timeout) (TimerStep e ref)) labels c c' →
      OnSchedule ref t0 timeout 0 labels ∧
        ∀ now req', NearSchedule t0 timeout now → (∀ past ∈ pollTimes labels, past ≤ now) →
          c'.find ref = some req' → Draws e timeout now req'.pending c'.readings →
          (pollCycles e (uint32OfInt now) 5 req'.pending c'.readings false).isSome ∧
            (coapReqPollPrepare e req' (uint32OfInt now) c').isSome) ∧
    (∀ (ref : ℕ) (req : CoapReq κ), c.find ref = some req → req.isObserve = true →
      Accepted ref c → ∀ now visits ret c', coapReqsPollPrepare e now visits c = some (ret, c') →
        c'.find ref = some req ∧ c'.history ref = c.history ref) := by
  have hwf := wellFormed_of_reachable hreach
  refine ⟨fun ref req t0 timeout labels c' hfind hpending hfits hnear hmono hrun => ?_,
    fun ref req hfind hobserve haccepted now visits ret c' hpass => ?_⟩
  · have harmed : Armed ref t0 timeout 0 c := ⟨hwf, Nat.zero_le 4, req, hfind, hpending⟩
    obtain ⟨hschedule, hend⟩ := onSchedule_of_run hfits harmed le_rfl hnear hmono
      (fun _ _ j hj => absurd hj (Nat.not_lt_zero j)) hrun
    refine ⟨hschedule, fun now req' hnear' hlater hfind' hdrawn => ?_⟩
    rcases hend with hgone | ⟨k, harmed', hpassed⟩
    · rw [hgone] at hfind'
      cases hfind'
    · obtain ⟨req'', hfind'', hpending'⟩ := harmed'.pending
      obtain rfl := Option.some_inj.mp (hfind''.symm.trans hfind')
      have hpast : ∀ j < k, Backoff.deadline t0 timeout j ≤ now := by
        intro j hj
        obtain ⟨past, hmem, hle⟩ := (hpassed j hj).resolve_left (Nat.not_lt_zero j)
        exact hle.trans (hlater past hmem)
      obtain ⟨hrounds, ret, c'', hpoll, -, -⟩ := polled_of_pendingAt hfits harmed'.le_four hnear'
        hpast harmed'.wellFormed hfind' hpending' hdrawn
      exact ⟨hrounds, by rw [hpoll]; rfl⟩
  · have hlt := hwf.refs_lt ref (c.mem_refs_iff.mpr ⟨req, hfind⟩)
    exact left_alone_of_not_pending hwf hfind hobserve
      (acknowledged_of_reachable hreach ref hlt req hfind hobserve haccepted) hpass

/-- Polls of the first request at given times, and what comes of them. -/
def pollsAt : (times : List ℤ) → Client Unit Unit → Option (List TimerLabel × Client Unit Unit)
  | [], c => some ([], c)
  | now :: times, c => do
    let req ← c.find 0
    let (ret, polled) ← coapReqPollPrepare .quiet req (uint32OfInt now) c
    let events := (polled.history 0).drop (c.history 0).length
    if polled.history 0 = c.history 0 ++ events then
      let (labels, c') ← pollsAt times polled
      some (.poll now ret events :: labels, c')
    else none

private theorem run_of_pollsAt {times : List ℤ} {labels : List TimerLabel}
    {c c' : Client Unit Unit} (h : pollsAt times c = some (labels, c')) :
    pollTimes labels = times ∧
      Run (Guarded (Unanswered .quiet 0 2000) (TimerStep .quiet 0)) labels c c' := by
  induction times generalizing c labels with
  | nil =>
    obtain ⟨rfl, rfl⟩ := Prod.mk.inj (Option.some_inj.mp h)
    exact ⟨rfl, .nil c⟩
  | cons now times ih =>
    obtain ⟨req, hfind, h⟩ := Option.bind_eq_some_iff.mp h
    obtain ⟨⟨ret, polled⟩, hpoll, h⟩ := Option.bind_eq_some_iff.mp h
    obtain ⟨hhistory, h⟩ := Option.ite_none_right_eq_some.mp h
    obtain ⟨⟨labels', d⟩, hrest, h⟩ := Option.bind_eq_some_iff.mp h
    obtain ⟨rfl, rfl⟩ := Prod.mk.inj (Option.some_inj.mp h)
    obtain ⟨htimes, hrun⟩ := ih hrest
    exact ⟨congrArg (now :: ·) htimes, .cons ⟨fun _ _ _ _ => rfl, .poll hfind hpoll hhistory⟩ hrun⟩

/-- A request that is polled at its deadlines is sent four times, and then given up. -/
theorem retransmits_on_schedule_everyDeadline :
    ∃ c labels c', openRun = some c ∧
      pollsAt [0, 2000, 6000, 14000, 30000] c = some (labels, c') ∧
      ((c'.history 0).filter fun event => event matches .sent _ _).length = 4 ∧
      c'.find 0 = none ∧ OnSchedule 0 0 2000 0 labels := by
  obtain ⟨c, hrun⟩ : ∃ c, openRun = some c := Option.isSome_iff_exists.mp (by decide)
  have hfacts : openRun.map (fun c => ((c.find 0).map CoapReq.pending,
      (pollsAt [0, 2000, 6000, 14000, 30000] c).map fun polled =>
        (((polled.2.history 0).filter fun event => event matches .sent _ _).length,
          (polled.2.find 0).isNone))) = some (some ⟨0, 0, 3⟩, some (4, true)) := by decide +kernel
  rw [hrun, Option.map_some, Option.some_inj] at hfacts
  obtain ⟨hpending, hpolls⟩ := Prod.mk.inj hfacts
  obtain ⟨req, hfind, hpending⟩ := Option.map_eq_some_iff.mp hpending
  obtain ⟨⟨labels, c'⟩, hpolls, hend⟩ := Option.map_eq_some_iff.mp hpolls
  obtain ⟨hsent, hgone⟩ := Prod.mk.inj hend
  obtain ⟨htimes, hpolled⟩ := run_of_pollsAt hpolls
  have hnear : ∀ now ∈ ([0, 2000, 6000, 14000, 30000] : List ℤ), ∀ k ≤ 4,
      Backoff.deadline 0 2000 k - 2 ^ 31 ≤ now ∧ now ≤ Backoff.deadline 0 2000 k + 2 ^ 31 := by
    decide
  have hmono : ([0, 2000, 6000, 14000, 30000] : List ℤ).Pairwise (· ≤ ·) := by decide
  rw [← htimes] at hnear hmono
  exact ⟨c, labels, c', hrun, hpolls, hsent, Option.isNone_iff_eq_none.mp hgone,
    ((retransmits_on_schedule (reachable_of_execute _ hrun)).1 0 req 0 2000 labels c' hfind hpending
      ⟨by decide, by decide⟩ hnear hmono hpolled).1⟩

end Golioth.Requests
