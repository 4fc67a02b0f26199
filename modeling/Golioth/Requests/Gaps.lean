/-
# Gaps

The response handler compares the offset of a block with the one it expects, on one
side only: a block from before is dropped, a block from beyond is handed to the
callback as if it were the next one. The callback sees data without gaps as long as
the server sends no block from beyond, no block that ends past the announced total,
and no response without Block2 after blocks.
-/
import Golioth.Requests.Blockwise

namespace Golioth.Requests

open Golioth.Coap CS

variable {κ σ : Type} {e : Env κ σ} {c c' : Client κ σ} {ref : ℕ} {req : CoapReq κ}
  {rx : RxPacket} {events : List Event}

/-- **No gaps.** Every payload handed over without an error has for its offset the sum
of the lengths of those handed over before. -/
def Gapless (events : List Event) : Prop := Pieces.Adjoining 0 (pieces (successes events))

/-! ## Responses in place -/

/-- The block of a response, after the library has taken it up, does not start past
the offset the request expects, and does not end past the announced total if it
starts there. -/
structure BlockInPlace (z : Zephyr) (rx : RxPacket) (expected : BlockContext) : Prop where
  start_le : (z.coapUpdateFromBlock rx expected).2.current ≤ expected.current
  fits : (z.coapUpdateFromBlock rx expected).2.current = expected.current →
    0 ≤ coapGetOptionInt rx .block2 ∧ ¬ Zephyr.Overruns rx (z.coapUpdateFromBlock rx expected).2

/-- A response leaves no gap: it is an error, or comes before all data if it has no
Block2 option, or its block is refused by the library or in place. -/
def LeavesNoGap (z : Zephyr) (events : List Event) (rx : RxPacket) (req : CoapReq κ) : Prop :=
  coapCodeToPosix rx.code = 0 →
    if coapGetOptionInt rx .block2 = -Errno.enoent then progress events = 0
    else (z.coapUpdateFromBlock rx req.blockCtx).1 = 0 → BlockInPlace z rx req.blockCtx

/-- Every response to a request leaves no gap. -/
def InPlace (e : Env κ σ) (ref : ℕ) : Op κ → Client κ σ → Prop
  | .processRx rx, c => ∀ req, answered e rx c = some req → req.ref = ref →
      LeavesNoGap e.zephyr (c.history ref) rx req
  | _, _ => True

/-! ## The invariant -/

/-- No gaps so far, and a listed request expects the offset that was reached. -/
structure Streaming (listed : Option (CoapReq κ)) (events : List Event) : Prop where
  gapless : Gapless events
  expects : ∀ req, listed = some req →
    req.isObserve = false ∧ req.blockCtx.current = progress events

/-- One more response, with the events around it. -/
private theorem gapless_snoc {rest : List Event} {rsp : Rsp} (hone : successes rest = [rsp]) :
    Gapless (events ++ rest) ↔ Gapless events ∧ rsp.off = progress events := by
  have hpieces : pieces (successes (events ++ rest)) =
      pieces (successes events) ++ [(rsp.off, rsp.data)] := by
    rw [successes_append, hone]
    simp [pieces]
  rw [Gapless, hpieces, Pieces.adjoining_snoc, Nat.zero_add]
  rfl

private theorem progress_snoc {rest : List Event} {rsp : Rsp} (hone : successes rest = [rsp]) :
    progress (events ++ rest) = progress events + rsp.data.length := by
  rw [progress, successes_append, hone]
  simp [progress, pieces]

private theorem Streaming.quiet {listed listed' : Option (CoapReq κ)} {rest : List Event}
    (h : Streaming listed events) (hnone : successes rest = [])
    (hexpects : ∀ req', listed' = some req' → ∃ req, listed = some req ∧
      req'.isObserve = req.isObserve ∧ req'.blockCtx.current = req.blockCtx.current) :
    Streaming listed' (events ++ rest) := by
  have hsame : successes (events ++ rest) = successes events := by
    rw [successes_append, hnone, List.append_nil]
  refine ⟨?_, fun req' hreq' => ?_⟩
  · rw [Gapless, hsame]
    exact h.gapless
  · obtain ⟨req, hreq, hobserve, hcurrent⟩ := hexpects req' hreq'
    rw [hobserve, hcurrent, progress, hsame]
    exact h.expects req hreq

private theorem successes_refused {rsp : Rsp} (herr : rsp.err ≠ 0) (ret : ℤ) :
    successes [.called ref rsp, .returned ref rsp ret, .freed ref] = [] := by
  simp [successes, invocations, herr]

private theorem keeps_streaming : Keeps (Streaming (κ := κ)) ref where
  rearm req events pending h := by
    refine ⟨h.gapless, fun req' hreq' => ?_⟩
    obtain rfl := Option.some_inj.mp hreq'
    exact h.expects req rfl
  note req events reply h := by
    refine ⟨h.gapless, fun req' hreq' => ?_⟩
    obtain rfl := Option.some_inj.mp hreq'
    exact h.expects req rfl
  send req events h := h.quiet rfl fun req' hreq' => ⟨req', hreq', rfl, rfl⟩
  close req events rsp ret herr _ h := h.quiet (successes_refused herr ret) (by simp)

/-! ## One response -/

/-- What the handler makes of a response that leaves no gap. -/
private inductive Placed (events : List Event) (req : CoapReq κ) : Verdict → Prop
  | refused (blockCtx : BlockContext) (rsp : Rsp) (err : ℤ) : rsp.err ≠ 0 →
      rsp.getNext = false → Placed events req (.deliver blockCtx rsp err)
  | stale (blockCtx : BlockContext) : blockCtx.current = req.blockCtx.current →
      Placed events req (.ignore blockCtx)
  | last (blockCtx : BlockContext) (rsp : Rsp) (err : ℤ) : rsp.err = 0 → rsp.getNext = false →
      rsp.off = progress events → Placed events req (.deliver blockCtx rsp err)
  | more (blockCtx : BlockContext) (rsp : Rsp) : rsp.err = 0 → rsp.off = progress events →
      blockCtx.current = progress events + rsp.data.length →
      Placed events req (.offer blockCtx rsp)

/-- **Decision.** A response that leaves no gap is refused, or has been had, or is the
next piece. -/
private theorem placed_of_leavesNoGap (hnext : e.zephyr.NextBlockContract)
    (hobserve : req.isObserve = false) (hcurrent : req.blockCtx.current = progress events)
    (h : LeavesNoGap e.zephyr events rx req) : Placed events req (verdict e.zephyr req rx) := by
  have hbad : -Errno.ebadmsg ≠ 0 := by decide
  by_cases hcode : coapCodeToPosix rx.code = 0
  · have hplaced := h hcode
    by_cases hblock2 : coapGetOptionInt rx .block2 = -Errno.enoent
    · -- without Block2 the response is all there is
      rw [if_pos hblock2] at hplaced
      simp only [verdict, hcode, hblock2, ne_eq, not_true_eq_false, if_false]
      exact .last _ _ _ rfl rfl hplaced.symm
    · rw [if_neg hblock2] at hplaced
      by_cases hupdate : (e.zephyr.coapUpdateFromBlock rx req.blockCtx).1 = 0
      · obtain ⟨hstart, hfits⟩ := hplaced hupdate
        by_cases hstale :
            (e.zephyr.coapUpdateFromBlock rx req.blockCtx).2.current < req.blockCtx.current
        · simp only [verdict, blockVerdict, hcode, hblock2, hupdate, hstale, ne_eq,
            not_true_eq_false, not_false_eq_true, if_true, if_false]
          exact .stale _ rfl
        · have hhere := le_antisymm hstart (not_lt.mp hstale)
          obtain ⟨hnonneg, hinside⟩ := hfits hhere
          have hadvance := hnext.advance rx _ hnonneg hinside
          simp only [verdict, blockVerdict, hcode, hblock2, hupdate, hstale, hobserve, hadvance,
            ne_eq, not_true_eq_false, not_false_eq_true, if_true, if_false, Bool.false_eq_true]
          split
          · exact .last _ _ _ rfl rfl (hhere.trans hcurrent)
          · refine .more _ _ rfl (hhere.trans hcurrent) ?_
            rw [hhere, hcurrent]
      · simp only [verdict, blockVerdict, hcode, hblock2, hupdate, ne_eq, not_true_eq_false,
          not_false_eq_true, if_true, if_false]
        exact .refused _ _ _ hbad rfl
  · simp only [verdict, hcode, ne_eq, not_false_eq_true, if_true]
    exact .refused _ _ _ hcode rfl

private theorem survives_of_placed {v : Verdict} (hconsistent : v.Consistent req.isObserve)
    (hplaced : Placed events req v) : Survives e Streaming ref req events v := by
  intro c reply hwf hfind hhistory h
  obtain ⟨hobserve, hcurrent⟩ := h.expects _ rfl
  -- what is expected of a request does not depend on what it remembers of replies
  have hplaced : Placed events { req with reply := reply } v := by
    cases hplaced with
    | refused blockCtx rsp err herr hlast => exact .refused _ _ _ herr hlast
    | stale blockCtx hstale => exact .stale _ hstale
    | last blockCtx rsp err herr hlast hoff => exact .last _ _ _ herr hlast hoff
    | more blockCtx rsp herr hoff hnew => exact .more _ _ herr hoff hnew
  have hconsistent : v.Consistent (CoapReq.isObserve { req with reply := reply }) := hconsistent
  generalize { req with reply := reply } = req at *
  subst hhistory
  have hplain : ∀ err : ℤ, ¬ (req.isObserve = true ∧ err = 0) := by simp [hobserve]
  cases hplaced with
  | refused blockCtx rsp err herr hlast =>
    obtain ⟨ret, hhistory, hgone⟩ := carryOut_deliver (e := e) hwf hfind blockCtx err hlast
    rw [if_neg (hplain err)] at hhistory hgone
    rw [hgone, hhistory]
    exact h.quiet (successes_refused herr ret) (by simp)
  | stale blockCtx hstale =>
    -- a block that comes again is not handed over
    obtain ⟨hkept, hlog⟩ := carryOut_ignore (e := e) hfind blockCtx
    rw [hkept, Client.history, hlog]
    refine ⟨h.gapless, fun req' hreq' => ?_⟩
    obtain rfl := Option.some_inj.mp hreq'
    exact ⟨hobserve, hstale.trans hcurrent⟩
  | last blockCtx rsp err herr hlast hoff =>
    obtain ⟨ret, hhistory, hgone⟩ := carryOut_deliver (e := e) hwf hfind blockCtx err hlast
    rw [if_neg (hplain err)] at hhistory hgone
    have hone : successes [.called ref rsp, .returned ref rsp ret, .freed ref] = [rsp] := by
      simp [successes, invocations, herr]
    rw [hgone, hhistory]
    exact ⟨(gapless_snoc hone).mpr ⟨h.gapless, hoff⟩, by simp⟩
  | more blockCtx rsp herr hoff hnew =>
    obtain ⟨ret, req', hprepared, -, hhistory, hkept⟩ := carryOut_offer (e := e) hwf hfind
      hobserve blockCtx rsp
    have hone : successes (.called ref rsp :: .returned ref rsp ret ::
        if ret ≠ 0 then [.freed ref] else []) = [rsp] := by
      split <;> simp [successes, invocations, herr]
    rw [hkept, hhistory]
    -- the offset that is expected next is where this piece ends
    refine ⟨(gapless_snoc hone).mpr ⟨h.gapless, hoff⟩, fun req'' hreq'' => ?_⟩
    split at hreq''
    · cases hreq''
    · obtain rfl := Option.some_inj.mp hreq''
      rw [progress_snoc hone, hprepared.same.isObserve, hprepared.same.blockCtx]
      exact ⟨hobserve, hnew⟩

private theorem streaming_of_scheduled (hwf : WellFormed c) {submission : Submission κ}
    (hscheduled : Scheduled e submission ref c) (hobserve : submission.observe = false) :
    Follows Streaming ref c := by
  obtain ⟨req, hbuilt, hfind⟩ := hscheduled.listed
  refine ⟨hwf, hwf.refs_lt ref (c.mem_refs_iff.mpr ⟨req, hfind⟩), ?_⟩
  rw [hfind, hscheduled.history]
  refine ⟨trivial, fun req' hreq' => ?_⟩
  obtain rfl := Option.some_inj.mp hreq'
  exact ⟨hbuilt.isObserve.trans hobserve, by rw [hbuilt.blockCtx]; rfl⟩

/-- **No gaps**, in every run in which every response to the request is in place. -/
theorem gapless_of_inPlace (hnext : e.zephyr.NextBlockContract) {app : σ}
    (hreach : Reachable e app c) {submission : Submission κ}
    (hscheduled : Scheduled e submission ref c) (hobserve : submission.observe = false)
    {ops : List (Op κ)} (hrun : Run (Guarded (InPlace e ref) (Step e)) ops c c') :
    Gapless (c'.history ref) := by
  refine (hrun.invariant (Follows Streaming ref) (fun op d d' h hstep => ?_)
    (streaming_of_scheduled (wellFormed_of_reachable hreach) hscheduled hobserve)).holds.gapless
  refine h.step keeps_streaming (fun rx req hop hanswered href => ?_) hstep.2
  subst hop
  have hfind := find_answered h.wellFormed hanswered
  rw [href] at hfind
  obtain ⟨hobserve, hcurrent⟩ := h.holds.expects req hfind
  exact survives_of_placed (consistent_verdict e.zephyr req rx)
    (placed_of_leavesNoGap hnext hobserve hcurrent (hstep.1 req hanswered href))

/-! ## The responses that leave a gap -/

private theorem off_of_gapless {rsp : Rsp} {rest : List Event} (herr : rsp.err = 0)
    (h : Gapless (events ++ .called ref rsp :: rest)) : rsp.off = progress events := by
  have hsplit : pieces (successes (events ++ .called ref rsp :: rest)) =
      pieces (successes events) ++ (rsp.off, rsp.data) :: pieces (successes rest) := by
    rw [successes_append]
    simp [pieces, successes, invocations, herr]
  have hoff := Pieces.adjoining_iff.mp h _ _ _ hsplit
  rwa [Nat.zero_add] at hoff

/-- A block that the library takes up and that starts past the expected offset leaves a
gap. -/
theorem gap_of_beyond (h : Follows Streaming ref c) (hanswered : answered e rx c = some req)
    (href : req.ref = ref) (hobserve : coapGetOptionInt rx .observe = -Errno.enoent)
    (hcode : coapCodeToPosix rx.code = 0) (hblock2 : coapGetOptionInt rx .block2 ≠ -Errno.enoent)
    (hupdate : (e.zephyr.coapUpdateFromBlock rx req.blockCtx).1 = 0)
    (hbeyond : req.blockCtx.current < (e.zephyr.coapUpdateFromBlock rx req.blockCtx).2.current) :
    ¬ Gapless ((coapReqProcessRx e rx c).history ref) := by
  subst href
  have hfind := find_answered h.wellFormed hanswered
  obtain ⟨hplain, hcurrent⟩ := h.holds.expects req hfind
  obtain ⟨events, hhistory, hhead⟩ := head_carryOut (e := e) h.wellFormed hfind
    (verdict e.zephyr req rx) (consistent_verdict e.zephyr req rx)
  obtain ⟨rsp, hrsp, herr, hoff⟩ : ∃ rsp, (verdict e.zephyr req rx).rsp = some rsp ∧ rsp.err = 0 ∧
      rsp.off = (e.zephyr.coapUpdateFromBlock rx req.blockCtx).2.current := by
    simp only [verdict, blockVerdict, hcode, hblock2, hupdate, not_lt.mpr hbeyond.le, hplain,
      ne_eq, not_true_eq_false, not_false_eq_true, if_true, if_false, Bool.false_eq_true]
    split
    · exact ⟨_, rfl, rfl, rfl⟩
    · exact ⟨_, rfl, rfl, rfl⟩
  rw [hrsp, Option.map_some] at hhead
  obtain ⟨rest, rfl⟩ := List.head?_eq_some_iff.mp hhead
  rw [processRx_of_response h.wellFormed hanswered hobserve, hhistory]
  intro hgapless
  have := off_of_gapless herr hgapless
  omega

/-- The second block in answer to the first request for blocks is handed over as if it
were the first. -/
theorem skippedBlock_leaves_gap :
    ∃ c c', openRun = some c ∧ Step .quiet (.processRx (blockOfTwenty 1)) c c' ∧
      ¬ Gapless (c'.history 0) := by
  obtain ⟨c, hrun⟩ : ∃ c, openRun = some c := Option.isSome_iff_exists.mp (by decide)
  have hpieces : openRun.map (fun c => pieces (successes
      ((coapReqProcessRx .quiet (blockOfTwenty 1) c).history 0))) =
      some [(16, [16, 17, 18, 19])] := by decide
  rw [hrun, Option.map_some, Option.some_inj] at hpieces
  refine ⟨c, _, hrun, rfl, fun hgapless => ?_⟩
  rw [Gapless, hpieces] at hgapless
  exact absurd hgapless.1 (by decide)

private theorem inPlace_of_context {c : Client Unit Unit} {context : BlockContext}
    (hcontext : c.coapReqs.map CoapReq.blockCtx = [context])
    (hblock2 : coapGetOptionInt rx .block2 ≠ -Errno.enoent)
    (hplace : BlockInPlace Reference.zephyr rx context) :
    InPlace .quiet 0 (.processRx rx) c := by
  intro req hanswered _ _
  have hmem := List.mem_map_of_mem (f := CoapReq.blockCtx) (List.mem_of_find?_eq_some hanswered)
  rw [hcontext] at hmem
  rw [if_neg hblock2, List.mem_singleton.mp hmem]
  exact fun _ => hplace

/-- The two blocks of the twenty bytes, one after the other, leave no gap. -/
theorem gapless_of_inPlace_blocksOfTwenty :
    ∃ c c', openRun = some c ∧
      Run (Guarded (InPlace .quiet 0) (Step .quiet))
        [.processRx (blockOfTwenty 0), .processRx (blockOfTwenty 1)] c c' ∧
      pieces (successes (c'.history 0)) = [(0, twentyBytes.take 16), (16, twentyBytes.drop 16)] ∧
      Gapless (c'.history 0) := by
  obtain ⟨c, hrun⟩ : ∃ c, openRun = some c := Option.isSome_iff_exists.mp (by decide)
  have hconnected : Reachable Env.quiet () (coapReqsOnConnect (Client.init ())) :=
    ⟨[.onConnect], .single rfl⟩
  have hsubmit : some (submit Env.quiet (.getA () false) (coapReqsOnConnect (Client.init ()))).2 =
      some c := hrun
  obtain rfl := Option.some_inj.mp hsubmit
  have hscheduled : Scheduled Env.quiet (.getA () false) 0
      (submit Env.quiet (.getA () false) (coapReqsOnConnect (Client.init ()))).2 :=
    scheduled_of_submit (wellFormed_of_reachable hconnected) (by decide)
  generalize submit Env.quiet (.getA () false) (coapReqsOnConnect (Client.init ())) = result
    at hrun hscheduled
  have hfacts : openRun.map (fun c => (c.coapReqs.map CoapReq.blockCtx,
      (coapReqProcessRx .quiet (blockOfTwenty 0) c).coapReqs.map CoapReq.blockCtx,
      pieces (successes ((coapReqProcessRx .quiet (blockOfTwenty 1)
        (coapReqProcessRx .quiet (blockOfTwenty 0) c)).history 0)))) =
      some ([⟨0, 0, 6⟩], [⟨0, 16, 0⟩], [(0, twentyBytes.take 16), (16, twentyBytes.drop 16)]) := by
    decide
  rw [hrun, Option.map_some, Option.some_inj] at hfacts
  obtain ⟨hfirst, hfacts⟩ := Prod.mk.inj hfacts
  obtain ⟨hsecond, hpieces⟩ := Prod.mk.inj hfacts
  have hplace : BlockInPlace Reference.zephyr (blockOfTwenty 0) ⟨0, 0, 6⟩ := by
    refine ⟨by decide, fun _ => ⟨by decide, ?_⟩⟩
    unfold Zephyr.Overruns
    decide
  have hplace' : BlockInPlace Reference.zephyr (blockOfTwenty 1) ⟨0, 16, 0⟩ := by
    refine ⟨by decide, fun _ => ⟨by decide, ?_⟩⟩
    unfold Zephyr.Overruns
    decide
  have hguarded : Run (Guarded (InPlace .quiet 0) (Step .quiet))
      [.processRx (blockOfTwenty 0), .processRx (blockOfTwenty 1)] result.2 _ :=
    .cons ⟨inPlace_of_context hfirst (by decide) hplace, rfl⟩
      (.single ⟨inPlace_of_context hsecond (by decide) hplace', rfl⟩)
  exact ⟨_, _, hrun, hguarded, hpieces, gapless_of_inPlace Reference.nextBlockContract
    (reachable_of_execute _ hrun) hscheduled rfl hguarded⟩

end Golioth.Requests
