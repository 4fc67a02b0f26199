/-
# The timer of a request

`golioth_coap_req_poll_prepare` decides from the clock whether to transmit a
request, to wait, or to give it up. Here one request is followed: the calls of
this function and of `golioth_coap_req_next_block` for it are the steps of a
system of their own, besides everything that leaves its timer alone, and every
operation of the module is a run of that system.
-/
import Golioth.Requests.Matching

namespace Golioth.Requests

open Golioth.Coap CS

variable {κ σ : Type} {e : Env κ σ} {c c' d : Client κ σ} {ref : ℕ} {req req' : CoapReq κ}

/-! ## The system -/

/-- What happens around the timer of a request. A call of
`golioth_coap_req_poll_prepare` is recorded with its time, the value it returns
and the events it adds to the history of the request. -/
inductive TimerLabel
  | poll (now ret : ℤ) (events : List Event)
  | nextBlock (status ret : ℤ)
  | idle
  | respond

/-- The timer of a request is left alone: the request is gone, or has the same
books as before, and its packet has not been sent. -/
structure TimerKept (ref : ℕ) (c c' : Client κ σ) : Prop where
  pending : ∀ req', c'.find ref = some req' →
    ∃ req, c.find ref = some req ∧ req'.pending = req.pending
  history : ∃ events, c'.history ref = c.history ref ++ events ∧ ∀ data, .sent ref data ∉ events

/-- The steps around the timer of a request. In an `idle` step nothing happens to
the request at all; in a `respond` step its timer is left alone. -/
inductive TimerStep (e : Env κ σ) (ref : ℕ) : TimerLabel → Client κ σ → Client κ σ → Prop
  | poll {c c' : Client κ σ} {req : CoapReq κ} {now ret : ℤ} {events : List Event} :
      c.find ref = some req →
      coapReqPollPrepare e req (uint32OfInt now) c = some (ret, c') →
      c'.history ref = c.history ref ++ events →
      TimerStep e ref (.poll now ret events) c c'
  | nextBlock {c c' : Client κ σ} {req : CoapReq κ} {status ret : ℤ} :
      c.find ref = some req → req.isObserve = false →
      coapReqNextBlock e ref status c = (ret, c') →
      TimerStep e ref (.nextBlock status ret) c c'
  | idle {c c' : Client κ σ} :
      (WellFormed c → WellFormed c') → c'.find ref = c.find ref →
      c'.history ref = c.history ref → TimerStep e ref .idle c c'
  | respond {c c' : Client κ σ} :
      (WellFormed c → WellFormed c') → TimerKept ref c c' → TimerStep e ref .respond c c'

/-- The times of the calls of `golioth_coap_req_poll_prepare`. -/
def pollTimes : List TimerLabel → List ℤ
  | [] => []
  | .poll now _ _ :: labels => now :: pollTimes labels
  | _ :: labels => pollTimes labels

/-! ## One call -/

/-- The response of a request that is given up. -/
def timedOutRsp (userData : ℕ) : Rsp where
  userData := userData
  err := -Errno.etimedout

/-- The events of a call that gives the request up: its callback is told, once, and
it is freed. -/
def GivesUp (ref : ℕ) (events : List Event) : Prop :=
  ∃ userData ret, events =
    [.called ref (timedOutRsp userData), .returned ref (timedOutRsp userData) ret, .freed ref]

private theorem find_rearmed (hfind : c.find ref = some req) (pending : Pending) :
    (c.modify req.ref fun req => { req with pending := pending }).find ref =
      some { req with pending := pending } := by
  obtain rfl := Client.ref_of_find hfind
  have hself : (c.modify req.ref fun req => { req with pending := pending }).find req.ref = _ :=
    Client.find_modify_self c fun _ h => h
  rw [hself, hfind]
  rfl

private theorem wellFormed_rearmed (hwf : WellFormed c) (ref : ℕ) (pending : Pending)
    (readings : ℕ) :
    WellFormed { c.modify ref fun req => { req with pending := pending } with
      readings := readings } := by
  have hmodified : WellFormed (c.modify ref fun req => { req with pending := pending }) :=
    hwf.modify fun _ h => h
  exact ⟨hmodified.nodup, hmodified.refs_lt, hmodified.log_lt⟩

/-- A call that waits keeps the request, and sends its packet if the loop went round. -/
theorem carryOut_waits (hwf : WellFormed c) (hfind : c.find ref = some req) (timeout : ℤ)
    (send : Bool) (pending : Pending) (readings : ℕ) {polled : ℤ × Client κ σ}
    (hpolled : (PollOutcome.waits timeout send pending readings).carryOut e req c = polled) :
    polled.1 = timeout ∧ WellFormed polled.2 ∧
      polled.2.find ref = some { req with pending := pending } ∧
      polled.2.history ref =
        c.history ref ++ if send then [.sent ref req.request.data] else [] := by
  obtain rfl := Client.ref_of_find hfind
  have hfind' := find_rearmed hfind pending
  have hrearmed := wellFormed_rearmed hwf req.ref pending
  have hlt := hwf.refs_lt req.ref (c.mem_refs_iff.mpr ⟨req, hfind⟩)
  subst hpolled
  cases send with
  | false => exact ⟨rfl, hrearmed readings, hfind', (List.append_nil _).symm⟩
  | true =>
    refine ⟨rfl, (hrearmed (readings + 1)).emit hlt, hfind', ?_⟩
    refine (Client.history_emit _ (.sent req.ref req.request.data) req.ref).trans ?_
    rw [if_pos (show (Event.sent req.ref req.request.data).ref = req.ref from rfl)]
    rfl

/-- A call that finds no deadline left gives the request up. -/
theorem carryOut_expires (hwf : WellFormed c) (hfind : c.find ref = some req) (pending : Pending)
    (readings : ℕ) {polled : ℤ × Client κ σ}
    (hpolled : (PollOutcome.expires pending readings).carryOut e req c = polled) :
    polled.1 = int64Max ∧ WellFormed polled.2 ∧ polled.2.find ref = none ∧
      ∃ events, polled.2.history ref = c.history ref ++ events ∧ GivesUp ref events := by
  obtain rfl := Client.ref_of_find hfind
  have hfind' := find_rearmed hfind pending
  have hwf' := wellFormed_rearmed hwf req.ref pending readings
  obtain ⟨events, hhistory, hnone, -⟩ := history_invoke (e := e) hwf' hfind' req.cb
    (timedOutRsp req.userData)
  obtain rfl := hnone (.inr rfl)
  have hlt := hwf.refs_lt req.ref (c.mem_refs_iff.mpr ⟨req, hfind⟩)
  have hfreed := history_coapReqCancelAndFree (invoke e req.ref req.cb (timedOutRsp req.userData)
    { c.modify req.ref fun req => { req with pending := pending } with readings := readings }).2
    req.ref req.ref
  rw [if_pos rfl, hhistory, List.append_assoc] at hfreed
  subst hpolled
  refine ⟨rfl, ?_, find_coapReqCancelAndFree_self _, _, hfreed, req.userData, _, rfl⟩
  exact wellFormed_coapReqCancelAndFree (wellFormed_invoke hwf' hfind' req.cb _)
    (hlt.trans_le (nextRef_invoke_le hwf' hfind' req.cb _))

/-! ## Operations as runs of the system -/

/-- From one state to another, what happens around the timer of a request is a run of
the system, with calls of `golioth_coap_req_poll_prepare` at the given time only. -/
def AroundTimer (e : Env κ σ) (ref : ℕ) (time : Option ℤ) (c c' : Client κ σ) : Prop :=
  WellFormed c → ref < c.nextRef →
    WellFormed c' ∧ ref < c'.nextRef ∧ ∃ labels, Run (TimerStep e ref) labels c c' ∧
      ∀ now ∈ pollTimes labels, now ∈ time

/-- The time an operation hands to the calls of `golioth_coap_req_poll_prepare`. -/
def Op.pollTime : Op κ → Option ℤ
  | .pollPrepare now _ => some now
  | _ => none

section AroundTimer

variable {time : Option ℤ}

theorem pollTimes_append (labels rest : List TimerLabel) :
    pollTimes (labels ++ rest) = pollTimes labels ++ pollTimes rest := by
  induction labels with
  | nil => rfl
  | cons label labels ih =>
    cases label with
    | poll now ret events => exact congrArg (now :: ·) ih
    | nextBlock status ret => exact ih
    | idle => exact ih
    | respond => exact ih

theorem AroundTimer.refl (c : Client κ σ) : AroundTimer e ref time c c :=
  fun hwf hlt => ⟨hwf, hlt, [], .nil c, fun _ h => absurd h List.not_mem_nil⟩

theorem AroundTimer.trans (h : AroundTimer e ref time c c') (h' : AroundTimer e ref time c' d) :
    AroundTimer e ref time c d := by
  intro hwf hlt
  obtain ⟨hwf', hlt', labels, hrun, htimes⟩ := h hwf hlt
  obtain ⟨hwf'', hlt'', rest, hrun', htimes'⟩ := h' hwf' hlt'
  refine ⟨hwf'', hlt'', labels ++ rest, hrun.append hrun', fun now hmem => ?_⟩
  rw [pollTimes_append] at hmem
  exact (List.mem_append.mp hmem).elim (htimes now) (htimes' now)

theorem AroundTimer.idle (hwf : WellFormed c → WellFormed c') (hle : c.nextRef ≤ c'.nextRef)
    (hframe : WellFormed c → ref < c.nextRef →
      c'.find ref = c.find ref ∧ c'.history ref = c.history ref) :
    AroundTimer e ref time c c' := by
  intro hwf₀ hlt
  obtain ⟨hfind, hhistory⟩ := hframe hwf₀ hlt
  exact ⟨hwf hwf₀, hlt.trans_le hle, [.idle], .single (.idle hwf hfind hhistory),
    fun _ h => absurd h List.not_mem_nil⟩

theorem AroundTimer.respond (hwf : WellFormed c → WellFormed c') (hle : c.nextRef ≤ c'.nextRef)
    (hkept : TimerKept ref c c') : AroundTimer e ref time c c' := fun hwf₀ hlt =>
  ⟨hwf hwf₀, hlt.trans_le hle, [.respond], .single (.respond hwf hkept),
    fun _ h => absurd h List.not_mem_nil⟩

/-- What is not about the request does nothing to it. -/
theorem aroundTimer_of_not_about {action : Action κ} (hacts : Acts e action c c')
    (habout : action.about ≠ some ref) : AroundTimer e ref time c c' := fun hwf hlt =>
  AroundTimer.idle (fun hwf => hacts.wellFormed hwf) (hacts.nextRef_le hwf)
    (fun hwf hlt => hacts.frame hwf hlt habout) hwf hlt

private theorem timerKept_modify {f : CoapReq κ → CoapReq κ}
    (hf : ∀ req, (f req).ref = req.ref ∧ (f req).pending = req.pending) :
    TimerKept ref c (c.modify ref f) := by
  have hself : (c.modify ref f).find ref = _ :=
    Client.find_modify_self c fun req href => (hf req).1.trans href
  refine ⟨fun req' hfind => ?_, [], (List.append_nil _).symm, fun _ => List.not_mem_nil⟩
  rw [hself] at hfind
  obtain ⟨req, hfind', rfl⟩ := Option.map_eq_some_iff.mp hfind
  exact ⟨req, hfind', (hf req).2⟩

private theorem timerKept_emit {event : Event} (hevent : ∀ data, event ≠ .sent ref data) :
    TimerKept ref c (c.emit event) := by
  refine ⟨fun req hfind => ⟨req, hfind, rfl⟩, _, Client.history_emit c event ref, ?_⟩
  intro data hmem
  split at hmem
  · exact hevent data (List.mem_singleton.mp hmem).symm
  · exact List.not_mem_nil hmem

/-- A callback that asks for the next block of an observation is called once more. -/
private theorem timerKept_nextBlock_observed (hwf : WellFormed c) (hfind : c.find ref = some req)
    (hobserve : req.isObserve = true) (status : ℤ) :
    TimerKept ref c (coapReqNextBlock e ref status c).2 := by
  have heffect := effect_coapReqNextBlock (e := e) ref status hwf
    (c.mem_refs_iff.mpr ⟨req, hfind⟩)
  obtain ⟨req', hfind', hprepared⟩ := heffect.find_busy ref rfl req hfind
  obtain ⟨events, hhistory, -, hkind⟩ := heffect.history_busy ref rfl req hfind
  refine ⟨fun req'' hfind'' => ?_, events, hhistory, fun data hmem => ?_⟩
  · obtain rfl := Option.some_inj.mp (hfind'.symm.trans hfind'')
    refine ⟨req, hfind, ?_⟩
    -- an observation is not prepared for a next block
    rcases hprepared.cases_head with rfl | ⟨_, ⟨hplain, _⟩, _⟩
    · rfl
    · rw [hobserve] at hplain
      cases hplain
  · obtain ⟨rsp, ret, h | h⟩ := hkind _ hmem <;> cases h

/-- **Command.** -/
private theorem aroundTimer_answer (command : CbCmd κ σ) (s : Client κ σ) :
    AroundTimer e ref time s (answerWith e (coapReqNextBlock e ref) command s).2 := by
  cases command with
  | getNext status =>
    have hstep : (answerWith e (coapReqNextBlock e ref) (.getNext status) s).2 =
        (coapReqNextBlock e ref status s).2 := rfl
    rw [hstep]
    cases hfind : s.find ref with
    | none =>
      have htick : (coapReqNextBlock e ref status s).2 = s.tick := by
        rw [coapReqNextBlock, Client.find_tick, hfind]
      rw [htick]
      exact .idle (fun hwf => ⟨hwf.nodup, hwf.refs_lt, hwf.log_lt⟩) le_rfl fun _ _ => ⟨rfl, rfl⟩
    | some req =>
      intro hwf hlt
      have heffect := effect_coapReqNextBlock (e := e) ref status hwf
        (s.mem_refs_iff.mpr ⟨req, hfind⟩)
      cases hobserve : req.isObserve with
      | true =>
        exact AroundTimer.respond (fun _ => heffect.wellFormed) heffect.nextRef_le
          (timerKept_nextBlock_observed hwf hfind hobserve status) hwf hlt
      | false =>
        exact ⟨heffect.wellFormed, hlt.trans_le heffect.nextRef_le, [.nextBlock status _],
          .single (.nextBlock hfind hobserve rfl), fun _ h => absurd h List.not_mem_nil⟩
  | submit submission => exact aroundTimer_of_not_about (.submit submission) (by simp [Action.about])
  | get => exact .refl s
  | set app =>
    exact .idle (fun hwf => ⟨hwf.nodup, hwf.refs_lt, hwf.log_lt⟩) le_rfl fun _ _ => ⟨rfl, rfl⟩

/-- **Callback.** Whatever the code of a callback does is a run around the timer. -/
private theorem aroundTimer_invoke (hfind : c.find ref = some req) (cb : Option κ) (rsp : Rsp) :
    AroundTimer e ref time c (invoke e ref cb rsp c).2 := by
  have hcalled : AroundTimer e ref time c (c.emit (.called ref rsp)) := fun hwf hlt =>
    AroundTimer.respond (fun hwf => hwf.emit hlt) le_rfl (timerKept_emit (by simp)) hwf hlt
  cases hnext : rsp.getNext with
  | true =>
    have hcode := CS.Prog.run_rel (answerWith e (coapReqNextBlock e ref))
      (fun s => (AroundTimer.refl s : AroundTimer e ref time s s))
      (fun h h' => h.trans h') (fun command s => aroundTimer_answer command s)
      (e.callback cb rsp) (c.emit (.called ref rsp))
    rw [invoke, if_pos hnext]
    refine (hcalled.trans hcode).trans fun hwf hlt => ?_
    exact AroundTimer.respond (fun hwf => hwf.emit hlt) le_rfl (timerKept_emit (by simp)) hwf hlt
  | false =>
    intro hwf hlt
    obtain ⟨events, hhistory, hnone, -⟩ := history_invoke (e := e) hwf hfind cb rsp
    obtain rfl := hnone (.inr hnext)
    refine AroundTimer.respond (fun hwf => wellFormed_invoke hwf hfind cb rsp)
      (nextRef_invoke_le hwf hfind cb rsp) ⟨fun req' hfind' => ?_, _, hhistory, ?_⟩ hwf hlt
    · rw [find_invoke_of_last hwf hfind cb hnext] at hfind'
      exact ⟨req', hfind.trans hfind', rfl⟩
    · simp

/-- A request that is removed after its last event needs no timer. -/
private theorem aroundTimer_cancelAndFree : AroundTimer e ref time c (coapReqCancelAndFree ref c) := by
  intro hwf hlt
  refine AroundTimer.respond (fun hwf => wellFormed_coapReqCancelAndFree hwf hlt) le_rfl
    ⟨fun req' hfind => ?_, _, history_coapReqCancelAndFree c ref ref, ?_⟩ hwf hlt
  · rw [find_coapReqCancelAndFree_self] at hfind
    cases hfind
  · simp

/-- **Action.** The actions of the response handler and of a disconnect are runs around
the timer. -/
theorem aroundTimer_of_answers {action : Action κ} (hacts : Acts e action c c')
    (hanswers : action.Answers ref) : AroundTimer e ref time c c' := by
  cases hanswers with
  | track =>
    cases hacts with
    | track _ reply blockCtx =>
      exact .respond (fun hwf => hwf.modify fun _ h => h) le_rfl
        (timerKept_modify fun _ => ⟨rfl, rfl⟩)
  | offer rsp =>
    cases hacts with
    | @offer _ _ req _ hfind _ _ => exact aroundTimer_invoke hfind req.cb rsp
  | notify rsp =>
    cases hacts with
    | @notify _ _ req _ hfind _ _ _ =>
      refine (aroundTimer_invoke hfind req.cb rsp).trans ?_
      exact .respond (fun hwf => hwf.modify fun _ h => h) le_rfl
        (timerKept_modify fun _ => ⟨rfl, rfl⟩)
  | finish rsp =>
    cases hacts with
    | @finish _ _ req _ hfind _ _ =>
      exact (aroundTimer_invoke hfind req.cb rsp).trans aroundTimer_cancelAndFree

private theorem aroundTimer_of_run {p : Action κ → Prop}
    (hp : ∀ action, p action → action.about ≠ some ref ∨ action.Answers ref)
    (hrun : CS.RunOf (Acts e) p c c') : AroundTimer e ref time c c' :=
  hrun.rel (fun s => .refl s) (fun h h' => h.trans h') fun action _ _ haction hacts =>
    (hp action haction).elim (aroundTimer_of_not_about hacts) (aroundTimer_of_answers hacts)

/-- **Visit.** A visit of the poll loop is a call for its request. -/
private theorem aroundTimer_pollVisit {now : ℤ} {other : ℕ} {s s' : ℤ × Client κ σ}
    (hvisit : pollVisit e (uint32OfInt now) other s = some s') :
    AroundTimer e ref (some now) s.2 s'.2 := by
  have hrun := pollVisit_run hvisit
  by_cases hother : other = ref
  · subst hother
    unfold pollVisit at hvisit
    split at hvisit
    · cases hvisit
    · next req hfind =>
      split at hvisit
      · obtain rfl := Option.some_inj.mp hvisit
        exact .refl s.2
      · obtain ⟨polled, hpoll, rfl⟩ := Option.map_eq_some_iff.mp hvisit
        obtain ⟨outcome, hloop, hcarried⟩ := Option.map_eq_some_iff.mp hpoll
        intro hwf hlt
        obtain ⟨hwf', hle⟩ := wellFormed_of_run hrun hwf
        obtain ⟨events, hevents⟩ : ∃ events, polled.2.history other = s.2.history other ++ events := by
          cases outcome with
          | waits timeout send pending readings =>
            exact ⟨_, (carryOut_waits hwf hfind timeout send pending readings hcarried).2.2.2⟩
          | expires pending readings =>
            obtain ⟨-, -, -, events, hhistory, -⟩ := carryOut_expires hwf hfind pending readings
              hcarried
            exact ⟨events, hhistory⟩
        refine ⟨hwf', hlt.trans_le hle, [.poll now polled.1 events],
          .single (.poll hfind hpoll hevents), fun time hmem => ?_⟩
        rw [List.mem_singleton.mp hmem]
        rfl
  · refine aroundTimer_of_run (fun action haction => .inl fun habout => ?_) hrun
    -- the visit is about another request
    rcases haction with rfl | rfl | rfl | ⟨userData, rfl⟩
    · cases habout
    · exact hother (Option.some_inj.mp habout)
    · exact hother (Option.some_inj.mp habout)
    · exact hother (Option.some_inj.mp habout)

/-- **Every operation is a run around the timer of a request.** -/
theorem aroundTimer_of_step (hwf : WellFormed c) {op : Op κ} (hstep : Step e op c c') :
    AroundTimer e ref op.pollTime c c' := by
  cases op with
  | submit submission =>
    refine aroundTimer_of_run (fun action haction => .inl ?_) (perform_run hwf hstep)
    obtain rfl : action = .submit submission := haction
    simp [Action.about]
  | processRx rx =>
    obtain rfl := Option.some_inj.mp hstep
    refine aroundTimer_of_run (fun action haction => ?_) (processRx_run hwf rx)
    rcases haction with rfl | ⟨req, -, hanswers⟩
    · exact .inl (by simp [Action.about])
    · by_cases href : req.ref = ref
      · exact .inr (href ▸ hanswers)
      · exact .inl (by rw [hanswers.about_eq]; simpa using href)
  | pollPrepare now visits =>
    obtain ⟨s, hpass, rfl⟩ := Option.map_eq_some_iff.mp hstep
    exact CS.SafeIteration.forEachSafe_rel
      (r := fun s s' : ℤ × Client κ σ => AroundTimer e ref (some now) s.2 s'.2)
      (fun s => .refl s.2) (fun h h' => h.trans h')
      (fun _ _ _ h => aroundTimer_pollVisit h) hpass
  | onConnect =>
    refine aroundTimer_of_run (fun action haction => .inl ?_) (perform_run hwf hstep)
    obtain rfl : action = .internal := haction
    simp [Action.about]
  | onDisconnect =>
    refine aroundTimer_of_run (fun action haction => ?_) (perform_run hwf hstep)
    rcases haction with rfl | ⟨other, userData, rfl⟩
    · exact .inl (by simp [Action.about])
    · by_cases hother : other = ref
      · exact .inr (hother ▸ .finish _)
      · exact .inl (by simpa [Action.about] using hother)

/-- **Every run of operations is a run around the timer of a request**, with calls at the
times of its polls. -/
theorem timerRun_of_run (hwf : WellFormed c) (hlt : ref < c.nextRef) {ops : List (Op κ)}
    (hrun : Run (Step e) ops c c') :
    ∃ labels, Run (TimerStep e ref) labels c c' ∧
      ∀ now ∈ pollTimes labels, ∃ op ∈ ops, op.pollTime = some now := by
  induction hrun with
  | nil c => exact ⟨[], .nil c, fun _ h => absurd h List.not_mem_nil⟩
  | @cons op ops c d c' hstep _ ih =>
    obtain ⟨hwf', hlt', labels, hfirst, htimes⟩ := aroundTimer_of_step hwf hstep hwf hlt
    obtain ⟨rest, hrest, htimes'⟩ := ih hwf' hlt'
    refine ⟨labels ++ rest, hfirst.append hrest, fun now hmem => ?_⟩
    rw [pollTimes_append] at hmem
    rcases List.mem_append.mp hmem with hmem | hmem
    · exact ⟨op, List.mem_cons_self, htimes now hmem⟩
    · obtain ⟨op', hop, htime⟩ := htimes' now hmem
      exact ⟨op', List.mem_cons_of_mem _ hop, htime⟩

end AroundTimer

end Golioth.Requests
