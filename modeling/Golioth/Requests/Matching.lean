/-
# Which request a packet answers

The receive loop compares as many bytes of a request's token as the packet's
token has, and the message id alone if it has none. This file says when that
goes wrong: a packet whose token is a proper prefix of a request's token, and an
empty acknowledgement, which carries no response but the message id of a request.
-/
import Golioth.Requests.Handler

namespace Golioth.Requests

open Golioth.Coap

variable {κ σ : Type} {e : Env κ σ} {c c' : Client κ σ} {rx : RxPacket} {req : CoapReq κ}

/-! ## What a received packet changes -/

/-- The packet is a notification, and an out-of-order one for a request. -/
def OutOfOrder (e : Env κ σ) (rx : RxPacket) (c : Client κ σ) (req : CoapReq κ) : Prop :=
  coapGetOptionInt rx .observe ≠ -Errno.enoent ∧
    coapReplyIsNewer req.reply (coapGetOptionInt rx .observe) (e.kUptimeGet c.readings) = false

/-- The packet is a block that was received before, and it changes neither the
block size nor the total of a request. -/
def ReceivedBefore (e : Env κ σ) (rx : RxPacket) (req : CoapReq κ) : Prop :=
  coapGetOptionInt rx .observe = -Errno.enoent ∧ coapCodeToPosix rx.code = 0 ∧
    coapGetOptionInt rx .block2 ≠ -Errno.enoent ∧
    (e.zephyr.coapUpdateFromBlock rx req.blockCtx).1 = 0 ∧
    (e.zephyr.coapUpdateFromBlock rx req.blockCtx).2.current < req.blockCtx.current ∧
    { (e.zephyr.coapUpdateFromBlock rx req.blockCtx).2 with current := req.blockCtx.current } =
      req.blockCtx

theorem find_answered (hwf : WellFormed c)
    (hanswered : answered e rx c = some req) :
    c.find req.ref = some req :=
  Client.find_of_mem hwf.nodup (List.mem_of_find?_eq_some hanswered)

theorem processRx_of_none (hanswered : answered e rx c = none) :
    coapReqProcessRx e rx c = c := by
  rw [coapReqProcessRx, hanswered]

theorem processRx_of_outOfOrder (hanswered : answered e rx c = some req)
    (hstale : OutOfOrder e rx c req) : coapReqProcessRx e rx c = c.tick := by
  simp only [coapReqProcessRx, hanswered, hstale.1, hstale.2, if_false, Bool.false_eq_true]

/-- A response without an Observe option is decided on as it is. -/
theorem processRx_of_response (hwf : WellFormed c) (hanswered : answered e rx c = some req)
    (hobserve : coapGetOptionInt rx .observe = -Errno.enoent) :
    coapReqProcessRx e rx c = (verdict e.zephyr req rx).carryOut e req c := by
  simp only [coapReqProcessRx, hanswered, hobserve, if_true]
  exact coapReqReplyHandler_eq e hwf (find_answered hwf hanswered) rx

/-- A notification that is newer than the last one is decided on after its
number and the time have been noted. -/
theorem processRx_of_newer (hwf : WellFormed c) (hanswered : answered e rx c = some req)
    (hobserve : coapGetOptionInt rx .observe ≠ -Errno.enoent)
    (hnewer : coapReplyIsNewer req.reply (coapGetOptionInt rx .observe)
      (e.kUptimeGet c.readings) = true) :
    ∃ c₁ req₁, WellFormed c₁ ∧ c₁.find req.ref = some req₁ ∧ c₁.log = c.log ∧
      c₁.nextRef = c.nextRef ∧
      req₁ = { req with
        reply := { seq := coapGetOptionInt rx .observe, ts := e.kUptimeGet c.readings } } ∧
      coapReqProcessRx e rx c = (verdict e.zephyr req₁ rx).carryOut e req₁ c₁ := by
  have hwf₁ : WellFormed c.tick := ⟨hwf.nodup, hwf.refs_lt, hwf.log_lt⟩
  have hwf₂ := Acts.wellFormed (e := e)
    (.track req.ref
      (fun _ => { seq := coapGetOptionInt rx .observe, ts := e.kUptimeGet c.readings }) id) hwf₁
  have hfind := find_answered hwf hanswered
  have hfind₂ := find_track (c := c.tick) hfind
    (fun _ => { seq := coapGetOptionInt rx .observe, ts := e.kUptimeGet c.readings }) id
  refine ⟨_, _, hwf₂, hfind₂, rfl, rfl, rfl, ?_⟩
  simp only [coapReqProcessRx, hanswered, hobserve, hnewer, if_false, if_true]
  exact coapReqReplyHandler_eq e hwf₂ hfind₂ rx

/-- A packet leaves every request alone but the one it answers. -/
theorem processRx_frame (hwf : WellFormed c) {other : ℕ} (hlt : other < c.nextRef)
    (hother : ∀ req, answered e rx c = some req → req.ref ≠ other) :
    (coapReqProcessRx e rx c).find other = c.find other ∧
      (coapReqProcessRx e rx c).history other = c.history other := by
  have hstep : Step e (.processRx rx) c (coapReqProcessRx e rx c) := rfl
  refine frame_of_run (perform_run hwf hstep) hwf hlt fun action hpermits => ?_
  rcases hpermits with rfl | ⟨req, hanswered, habout⟩
  · simp [Action.about]
  · rw [habout, Ne, Option.some_inj]
    exact hother req hanswered

/-! ## Tokens -/

/-- A packet is matched exactly: it changes, or invokes the callback of, at most
one request, one with the token of the packet, and nothing if there is none. -/
structure MatchedExactly (rx : RxPacket) (c c' : Client κ σ) : Prop where
  one : ∃ ref, ∀ other ∈ c.refs, other ≠ ref →
    c'.find other = c.find other ∧ c'.history other = c.history other
  same_token : ∀ req ∈ c.coapReqs,
    c'.find req.ref ≠ some req ∨ c'.history req.ref ≠ c.history req.ref →
      coapHeaderGetToken req.request = rx.token.1
  none : (∀ req ∈ c.coapReqs, coapHeaderGetToken req.request ≠ rx.token.1) →
    c'.coapReqs = c.coapReqs ∧ c'.log = c.log

private theorem untouched_of_ignored (hwf : WellFormed c)
    (hanswered : answered e rx c = some req)
    (hignored : OutOfOrder e rx c req ∨ ReceivedBefore e rx req) :
    (coapReqProcessRx e rx c).coapReqs = c.coapReqs ∧
      (coapReqProcessRx e rx c).log = c.log := by
  rcases hignored with hstale | ⟨hobserve, hcode, hblock2, hupdate, hreceived, hsame⟩
  · rw [processRx_of_outOfOrder hanswered hstale]
    exact ⟨rfl, rfl⟩
  · have hfind := find_answered hwf hanswered
    have hself : c.modify req.ref (fun req' => { req' with blockCtx := req.blockCtx }) = c :=
      Client.modify_eq_self hwf.nodup hfind rfl
    have hverdict : verdict e.zephyr req rx = .ignore req.blockCtx := by
      simp only [verdict, blockVerdict, hcode, hblock2, hupdate, hreceived, hsame, ne_eq,
        not_true_eq_false, not_false_eq_true, if_true, if_false]
    rw [processRx_of_response hwf hanswered hobserve, hverdict, Verdict.carryOut, hself]
    exact ⟨rfl, rfl⟩

theorem verdict_eq_ignore {z : Zephyr} {blockCtx : BlockContext}
    (h : verdict z req rx = .ignore blockCtx) :
    coapCodeToPosix rx.code = 0 ∧ coapGetOptionInt rx .block2 ≠ -Errno.enoent ∧
      (z.coapUpdateFromBlock rx req.blockCtx).1 = 0 ∧
      (z.coapUpdateFromBlock rx req.blockCtx).2.current < req.blockCtx.current ∧
      blockCtx =
        { (z.coapUpdateFromBlock rx req.blockCtx).2 with current := req.blockCtx.current } := by
  simp only [verdict, blockVerdict] at h
  split_ifs at h with hcode hblock2 hupdate hreceived
  exact ⟨not_not.mp hcode, hblock2, not_not.mp hupdate, hreceived, (Verdict.ignore.inj h).symm⟩

theorem verdict_eq_offer {z : Zephyr} {blockCtx : BlockContext} {rsp : Rsp}
    (h : verdict z req rx = .offer blockCtx rsp) :
    (z.coapUpdateFromBlock rx req.blockCtx).1 = 0 ∧
      req.blockCtx.current ≤ (z.coapUpdateFromBlock rx req.blockCtx).2.current ∧
      blockCtx = (z.coapNextBlockForOption rx
        (z.coapUpdateFromBlock rx req.blockCtx).2 .block2).2 := by
  simp only [verdict, blockVerdict] at h
  split_ifs at h with hcode hblock2 hupdate hreceived hlast hobserve
  · exact ⟨not_not.mp hupdate, not_lt.mp hreceived, (Verdict.offer.inj h).1.symm⟩
  · exact ⟨not_not.mp hupdate, not_lt.mp hreceived, (Verdict.offer.inj h).1.symm⟩

private theorem ignored_of_history {c₁ : Client κ σ} {ref : ℕ} {req₁ : CoapReq κ}
    (hwf : WellFormed c₁) (hfind : c₁.find ref = some req₁)
    (hhistory : ((verdict e.zephyr req₁ rx).carryOut e req₁ c₁).history ref =
      c₁.history ref) :
    ∃ blockCtx, verdict e.zephyr req₁ rx = .ignore blockCtx ∧
      ((verdict e.zephyr req₁ rx).carryOut e req₁ c₁).find ref =
        some { req₁ with blockCtx := blockCtx } := by
  obtain ⟨events, hevents, hhead⟩ := head_carryOut (e := e) hwf hfind
    (verdict e.zephyr req₁ rx) (consistent_verdict _ _ _)
  rw [hevents, List.append_right_eq_self] at hhistory
  rw [hhistory] at hhead
  cases hverdict : verdict e.zephyr req₁ rx with
  | ignore blockCtx => exact ⟨blockCtx, rfl, (carryOut_ignore hfind blockCtx).1⟩
  | deliver blockCtx rsp err =>
    rw [hverdict] at hhead
    cases hhead
  | offer blockCtx rsp =>
    rw [hverdict] at hhead
    cases hhead

private theorem coapReplyIsNewer_self (seq uptime : ℤ) :
    coapReplyIsNewer { seq := seq, ts := uptime } seq uptime = false := by
  have hdiff : 0 < coapObserveTsDiffNewer := by decide
  simp only [coapReplyIsNewer, sequenceNumberIsNewer, decide_eq_false_iff_not,
    decide_eq_true_eq, not_or]
  omega

private theorem ignored_of_untouched (hwf : WellFormed c)
    (hanswered : answered e rx c = some req)
    (hfind : (coapReqProcessRx e rx c).find req.ref = some req)
    (hhistory : (coapReqProcessRx e rx c).history req.ref = c.history req.ref) :
    OutOfOrder e rx c req ∨ ReceivedBefore e rx req := by
  by_cases hobserve : coapGetOptionInt rx .observe = -Errno.enoent
  · rw [processRx_of_response hwf hanswered hobserve] at hfind hhistory
    obtain ⟨blockCtx, hverdict, hkept⟩ :=
      ignored_of_history hwf (find_answered hwf hanswered) hhistory
    rw [hkept, Option.some_inj] at hfind
    obtain ⟨hcode, hblock2, hupdate, hreceived, hctx⟩ := verdict_eq_ignore hverdict
    refine .inr ⟨hobserve, hcode, hblock2, hupdate, hreceived, ?_⟩
    rw [← hctx]
    exact congrArg CoapReq.blockCtx hfind
  · cases hnewer : coapReplyIsNewer req.reply (coapGetOptionInt rx .observe)
      (e.kUptimeGet c.readings) with
    | false => exact .inl ⟨hobserve, hnewer⟩
    | true =>
      exfalso
      obtain ⟨c₁, req₁, hwf₁, hfind₁, hlog₁, -, hreq₁, hrun⟩ :=
        processRx_of_newer hwf hanswered hobserve hnewer
      have hhistory₁ : c₁.history req.ref = c.history req.ref := by
        rw [Client.history, hlog₁, Client.history]
      rw [hrun, ← hhistory₁] at hhistory
      rw [hrun] at hfind
      obtain ⟨blockCtx, -, hkept⟩ := ignored_of_history hwf₁ hfind₁ hhistory
      rw [hkept, Option.some_inj] at hfind
      have hreply : req.reply =
          { seq := coapGetOptionInt rx .observe, ts := e.kUptimeGet c.readings } := by
        rw [← hfind, hreq₁]
      rw [hreply, coapReplyIsNewer_self] at hnewer
      cases hnewer

/-- **When matching by token is exact.** A packet, with a token or without, is
matched exactly if the request the loop selects has just the token of the packet,
or else ignores the packet without a trace; and only then. The loop selects on
as many bytes of a request's token as the packet's token has. -/
theorem matchedExactly_iff {app : σ} (hreach : Reachable e app c) (rx : RxPacket) :
    MatchedExactly rx c (coapReqProcessRx e rx c) ↔
      ∀ req, answered e rx c = some req →
        coapHeaderGetToken req.request = rx.token.1 ∨
          OutOfOrder e rx c req ∨ ReceivedBefore e rx req := by
  have hwf := wellFormed_of_reachable hreach
  constructor
  · intro hmatched req hanswered
    by_cases htoken : coapHeaderGetToken req.request = rx.token.1
    · exact .inl htoken
    · have hmem := List.mem_of_find?_eq_some hanswered
      -- a request that the packet is not for was left alone, so it was ignored
      have huntouched := mt (hmatched.same_token req hmem) htoken
      rw [not_or, not_not, not_not] at huntouched
      exact .inr (ignored_of_untouched hwf hanswered huntouched.1 huntouched.2)
  · intro hcondition
    cases hanswered : answered e rx c with
    | none =>
      rw [processRx_of_none hanswered]
      refine ⟨⟨0, fun _ _ _ => ⟨rfl, rfl⟩⟩, fun req hmem hchanged => ?_, fun _ => ⟨rfl, rfl⟩⟩
      exact absurd (Client.find_of_mem hwf.nodup hmem) (hchanged.resolve_right (by simp))
    | some req =>
      -- only the request the packet answers can be touched
      have hframe : ∀ other ∈ c.refs, other ≠ req.ref →
          (coapReqProcessRx e rx c).find other = c.find other ∧
            (coapReqProcessRx e rx c).history other = c.history other := by
        intro other hlisted hne
        refine processRx_frame hwf (hwf.refs_lt other hlisted) fun req' hanswered' => ?_
        rw [Option.some_inj.mp (hanswered'.symm.trans hanswered)]
        exact hne.symm
      rcases hcondition req hanswered with htoken | hignored
      · refine ⟨⟨req.ref, hframe⟩, fun req' hmem hchanged => ?_, fun hnone => ?_⟩
        · by_cases href : req'.ref = req.ref
          · have hsame : req' = req := List.inj_on_of_nodup_map hwf.nodup hmem
              (List.mem_of_find?_eq_some hanswered) href
            rw [hsame, htoken]
          · obtain ⟨hfind, hhistory⟩ := hframe req'.ref (List.mem_map_of_mem hmem) href
            rw [hfind, hhistory, Client.find_of_mem hwf.nodup hmem] at hchanged
            simp at hchanged
        · exact absurd htoken (hnone req (List.mem_of_find?_eq_some hanswered))
      · obtain ⟨hreqs, hlog⟩ := untouched_of_ignored hwf hanswered hignored
        have hfind : ∀ ref, (coapReqProcessRx e rx c).find ref = c.find ref := by
          intro ref
          rw [Client.find, hreqs, Client.find]
        have hhistory : ∀ ref, (coapReqProcessRx e rx c).history ref = c.history ref := by
          intro ref
          rw [Client.history, hlog, Client.history]
        refine ⟨⟨req.ref, hframe⟩, fun req' hmem hchanged => ?_, fun _ => ⟨hreqs, hlog⟩⟩
        rw [hfind, hhistory, Client.find_of_mem hwf.nodup hmem] at hchanged
        simp at hchanged

/-- A response whose token is the first byte of the token of the one request. -/
def prefixResponse : RxPacket where
  type := .ack
  code := 69
  id := 4
  token := ⟨[2], by decide⟩
  options := []
  payload := [1, 2, 3]

private theorem prefixResponse_facts :
    ∃ c, openRun = some c ∧ c.refs = [0] ∧
      c.coapReqs.map (fun req => coapHeaderGetToken req.request) = [[2, 0, 0, 0, 0, 0, 0, 0]] ∧
      (coapReqProcessRx .quiet prefixResponse c).refs = [] := by
  obtain ⟨c, hrun⟩ : ∃ c, openRun = some c := Option.isSome_iff_exists.mp (by decide)
  have hfacts : openRun.map (fun c => (c.refs,
      c.coapReqs.map (fun req => coapHeaderGetToken req.request),
      (coapReqProcessRx .quiet prefixResponse c).refs)) =
      some ([0], [[2, 0, 0, 0, 0, 0, 0, 0]], []) := by decide
  rw [hrun, Option.map_some, Option.some_inj, Prod.mk.injEq, Prod.mk.injEq] at hfacts
  exact ⟨c, hrun, hfacts⟩

/-- The request is removed, though no request has the token of the packet. -/
theorem prefixResponse_mismatched :
    ∃ c, openRun = some c ∧ prefixResponse.token.1 ≠ [] ∧
      ¬ MatchedExactly prefixResponse c (coapReqProcessRx .quiet prefixResponse c) := by
  obtain ⟨c, hrun, hrefs, htokens, hremoved⟩ := prefixResponse_facts
  refine ⟨c, hrun, by decide, fun hmatched => ?_⟩
  have hnone : ∀ req ∈ c.coapReqs, coapHeaderGetToken req.request ≠ prefixResponse.token.1 := by
    intro req hmem htoken
    have hmem' := List.mem_map_of_mem (f := fun req => coapHeaderGetToken req.request) hmem
    rw [htokens, htoken] at hmem'
    exact absurd hmem' (by decide)
  have hsame := congrArg (List.map CoapReq.ref) (hmatched.none hnone).1
  change (coapReqProcessRx .quiet prefixResponse c).refs = c.refs at hsame
  rw [hrefs, hremoved] at hsame
  cases hsame

theorem matchedExactly_iff_prefixResponse :
    ∃ c, openRun = some c ∧
      (MatchedExactly prefixResponse c (coapReqProcessRx .quiet prefixResponse c) ↔
        ∀ req, answered .quiet prefixResponse c = some req →
          coapHeaderGetToken req.request = prefixResponse.token.1 ∨
            OutOfOrder .quiet prefixResponse c req ∨ ReceivedBefore .quiet prefixResponse req) := by
  obtain ⟨c, hrun, -⟩ := prefixResponse_facts
  exact ⟨c, hrun, matchedExactly_iff (reachable_of_execute _ hrun) prefixResponse⟩

/-! ## Empty acknowledgements -/

/-- An empty acknowledgement. -/
structure EmptyAck (rx : RxPacket) : Prop where
  type : rx.type = .ack
  code : rx.code = codeEmpty
  token : rx.token.1 = []

/-- A successful response in one packet that is not a notification. -/
structure PlainResponse (rx : RxPacket) : Prop where
  code : coapCodeToPosix rx.code = 0
  observe : coapGetOptionInt rx .observe = -Errno.enoent
  block2 : coapGetOptionInt rx .block2 = -Errno.enoent

/-- The response handed over for a plain response. -/
def plainRsp (rx : RxPacket) (req : CoapReq κ) : Rsp where
  data := rx.payload
  total := rx.payload.length
  userData := req.userData

/-- A packet did no harm: no callback was invoked with an error, no request was
removed, and a plain response that any of the requests gets later, however much
later, is handed to its callback. That a request which is listed is handed its
response is so after any packet; what a packet decides is `kept`, whether the
request is still there to be answered. -/
structure Harmless (e : Env κ σ) (c c' : Client κ σ) : Prop where
  no_error : ∃ events, c'.log = c.log ++ events ∧
    ∀ ref rsp, .called ref rsp ∈ events → rsp.err = 0
  kept : ∀ ref ∈ c.refs, ref ∈ c'.refs
  delivered : ∀ ref ∈ c.refs, ∀ d, CS.Reachable (Step e) c' d → ∀ req, req.ref = ref →
    ∀ rx, PlainResponse rx → rx.token.1 = coapHeaderGetToken req.request →
      answered e rx d = some req → ∃ events,
        (coapReqProcessRx e rx d).history ref =
          d.history ref ++ .called ref (plainRsp rx req) :: events

/-- A plain response is handed to the callback of the request it answers. -/
theorem plainResponse_delivered (hwf : WellFormed c) (hanswered : answered e rx c = some req)
    (hplain : PlainResponse rx) :
    ∃ events, (coapReqProcessRx e rx c).history req.ref =
      c.history req.ref ++ .called req.ref (plainRsp rx req) :: events := by
  have hverdict : verdict e.zephyr req rx =
      .deliver req.blockCtx (plainRsp rx req) 0 := by
    simp only [verdict, hplain.code, hplain.block2, ne_eq, not_true_eq_false, if_false]
    rfl
  obtain ⟨ret, hhistory, -⟩ := carryOut_deliver (e := e) hwf (find_answered hwf hanswered)
    req.blockCtx 0 (show (plainRsp rx req).getNext = false from rfl)
  rw [processRx_of_response hwf hanswered hplain.observe, hverdict]
  exact ⟨_, hhistory⟩

private theorem harmless_of_same {app : σ} (hreach' : Reachable e app c')
    (hreqs : c'.coapReqs = c.coapReqs) (hlog : c'.log = c.log) : Harmless e c c' where
  no_error := ⟨[], by rw [hlog, List.append_nil], by simp⟩
  kept ref hlisted := by
    rw [Client.refs, hreqs]
    exact hlisted
  delivered ref hlisted d hlater req href rx hplain htoken hanswered := by
    obtain ⟨labels, hrun⟩ := hreach'
    obtain ⟨later, hrun'⟩ := hlater
    have hwf := wellFormed_of_reachable (e := e) ⟨labels ++ later, hrun.append hrun'⟩
    subst href
    exact plainResponse_delivered hwf hanswered hplain

private theorem answered_eq_none_iff_of_no_token (htoken : rx.token.1 = []) :
    answered e rx c = none ↔
      ∀ req ∈ c.coapReqs, coapHeaderGetId req.request = rx.id →
        coapHeaderGetId req.request = 0 ∧ coapHeaderGetTkl req.request = 0 := by
  rw [answered, List.find?_eq_none]
  refine forall₂_congr fun req _ => ?_
  simp only [answers, htoken, List.length_nil, lt_irrefl, false_and, not_false_eq_true,
    and_true, decide_eq_true_eq, not_and, not_not]
  tauto

private theorem answered_removed (hwf : WellFormed c) (hempty : EmptyAck rx)
    (hanswered : answered e rx c = some req) (hinorder : ¬ OutOfOrder e rx c req) :
    (coapReqProcessRx e rx c).find req.ref = none := by
  have hcode : coapCodeToPosix rx.code = -Errno.ebadmsg := by
    rw [hempty.code]
    decide
  have hbad : -Errno.ebadmsg ≠ 0 := by decide
  have hremoved : ∀ c₁ : Client κ σ, ∀ req₁, WellFormed c₁ → c₁.find req.ref = some req₁ →
      ((verdict e.zephyr req₁ rx).carryOut e req₁ c₁).find req.ref = none := by
    intro c₁ req₁ hwf₁ hfind₁
    have hverdict : verdict e.zephyr req₁ rx = .deliver req₁.blockCtx
        { userData := req₁.userData, err := -Errno.ebadmsg } (-Errno.ebadmsg) := by
      rw [verdict, hcode]
      exact if_pos hbad
    have hnext : Rsp.getNext { userData := req₁.userData, err := -Errno.ebadmsg } = false := rfl
    obtain ⟨ret, -, hgone⟩ := carryOut_deliver (e := e) hwf₁ hfind₁ req₁.blockCtx
      (-Errno.ebadmsg) hnext
    rw [hverdict, hgone]
    exact if_neg fun h => hbad h.2
  by_cases hobserve : coapGetOptionInt rx .observe = -Errno.enoent
  · rw [processRx_of_response hwf hanswered hobserve]
    exact hremoved c req hwf (find_answered hwf hanswered)
  · cases hnewer : coapReplyIsNewer req.reply (coapGetOptionInt rx .observe)
      (e.kUptimeGet c.readings) with
    | false => exact absurd ⟨hobserve, hnewer⟩ hinorder
    | true =>
      obtain ⟨c₁, req₁, hwf₁, hfind₁, -, -, -, hrun⟩ :=
        processRx_of_newer hwf hanswered hobserve hnewer
      rw [hrun]
      exact hremoved c₁ req₁ hwf₁ hfind₁

/-- **When an empty acknowledgement is harmless.** It is if no listed request has
its message id, apart from ones without id and token, or if it looks like an
out-of-order notification to the first one that has; and only then. Otherwise its
code is taken for that of an error response. -/
theorem harmless_iff {app : σ} (hreach : Reachable e app c) (hempty : EmptyAck rx) :
    Harmless e c (coapReqProcessRx e rx c) ↔
      (∀ req ∈ c.coapReqs, coapHeaderGetId req.request = rx.id →
        coapHeaderGetId req.request = 0 ∧ coapHeaderGetTkl req.request = 0) ∨
      ∃ req, answered e rx c = some req ∧ OutOfOrder e rx c req := by
  have hwf := wellFormed_of_reachable hreach
  have hstep : Step e (.processRx rx) c (coapReqProcessRx e rx c) := rfl
  rw [← answered_eq_none_iff_of_no_token (e := e) hempty.token]
  constructor
  · intro hharmless
    cases hanswered : answered e rx c with
    | none => exact .inl rfl
    | some req =>
      refine .inr ⟨req, rfl, by_contra fun hinorder => ?_⟩
      have hlisted : req.ref ∈ c.refs :=
        List.mem_map_of_mem (List.mem_of_find?_eq_some hanswered)
      have hgone := answered_removed hwf hempty hanswered hinorder
      exact (Client.find_eq_none_iff _).mp hgone (hharmless.kept req.ref hlisted)
  · rintro (hnone | ⟨req, hanswered, hstale⟩)
    · refine harmless_of_same (hreach.snoc hstep) ?_ ?_
      · rw [processRx_of_none hnone]
      · rw [processRx_of_none hnone]
    · refine harmless_of_same (hreach.snoc hstep) ?_ ?_
      · rw [processRx_of_outOfOrder hanswered hstale]
        rfl
      · rw [processRx_of_outOfOrder hanswered hstale]
        rfl

/-- An empty acknowledgement with the message id of the one request. -/
def emptyAck : RxPacket where
  type := .ack
  code := codeEmpty
  id := 4
  token := ⟨[], by decide⟩
  options := []
  payload := []

private theorem emptyAck_facts :
    ∃ c, openRun = some c ∧ c.refs = [0] ∧ (coapReqProcessRx .quiet emptyAck c).refs = [] := by
  obtain ⟨c, hrun⟩ : ∃ c, openRun = some c := Option.isSome_iff_exists.mp (by decide)
  have hfacts : openRun.map (fun c => (c.refs, (coapReqProcessRx .quiet emptyAck c).refs)) =
      some ([0], []) := by decide
  rw [hrun, Option.map_some, Option.some_inj, Prod.mk.injEq] at hfacts
  exact ⟨c, hrun, hfacts⟩

/-- The acknowledgement removes the request it acknowledges. -/
theorem emptyAck_harms :
    ∃ c, openRun = some c ∧ EmptyAck emptyAck ∧
      ¬ Harmless .quiet c (coapReqProcessRx .quiet emptyAck c) := by
  obtain ⟨c, hrun, hrefs, hremoved⟩ := emptyAck_facts
  refine ⟨c, hrun, ⟨rfl, rfl, rfl⟩, fun hharmless => ?_⟩
  have hkept := hharmless.kept 0 (by rw [hrefs]; exact List.mem_singleton_self 0)
  rw [hremoved] at hkept
  cases hkept

theorem harmless_iff_emptyAck :
    ∃ c, openRun = some c ∧
      (Harmless .quiet c (coapReqProcessRx .quiet emptyAck c) ↔
        (∀ req ∈ c.coapReqs, coapHeaderGetId req.request = emptyAck.id →
          coapHeaderGetId req.request = 0 ∧ coapHeaderGetTkl req.request = 0) ∨
        ∃ req, answered .quiet emptyAck c = some req ∧ OutOfOrder .quiet emptyAck c req) := by
  obtain ⟨c, hrun, -⟩ := emptyAck_facts
  exact ⟨c, hrun, harmless_iff (reachable_of_execute _ hrun) ⟨rfl, rfl, rfl⟩⟩

end Golioth.Requests
