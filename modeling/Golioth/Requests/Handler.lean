/-
# What the response handler leaves behind

For each decision of the response handler, the events it adds to the history of
the request and the request it leaves on the list, if any. A consequence is what
becomes of a block that `coap_next_block_for_option` rejects: the negative result
is an offset like any other to the handler, which offers the block.
-/
import Golioth.Requests.Lifecycle

namespace Golioth.Requests

open Golioth.Coap

variable {κ σ : Type} {e : Env κ σ} {c : Client κ σ} {ref : ℕ} {req : CoapReq κ}

/-- The responses callbacks are invoked with. -/
def invocations : List Event → List Rsp
  | [] => []
  | .called _ rsp :: events => rsp :: invocations events
  | _ :: events => invocations events

@[simp] theorem invocations_append (first second : List Event) :
    invocations (first ++ second) = invocations first ++ invocations second := by
  induction first with
  | nil => rfl
  | cons event first ih => cases event <;> simp [invocations, ih]

/-! ## Decisions carried out -/

private theorem wellFormed_track (hwf : WellFormed c) (blockCtx : BlockContext) :
    WellFormed (c.modify ref fun req => { req with blockCtx := blockCtx }) :=
  hwf.modify fun _ h => h

private theorem find_trackBlock (hfind : c.find ref = some req) (blockCtx : BlockContext) :
    (c.modify ref fun req => { req with blockCtx := blockCtx }).find ref =
      some { req with blockCtx := blockCtx } :=
  find_track hfind id fun _ => blockCtx

/-- An ignored response leaves a new block context and no event. -/
theorem carryOut_ignore (hfind : c.find ref = some req) (blockCtx : BlockContext) :
    ((Verdict.ignore blockCtx).carryOut e req c).find ref =
        some { req with blockCtx := blockCtx } ∧
      ((Verdict.ignore blockCtx).carryOut e req c).log = c.log := by
  obtain rfl := Client.ref_of_find hfind
  exact ⟨find_trackBlock hfind blockCtx, rfl⟩

private theorem label_invoke (hwf : WellFormed c) (hfind : c.find ref = some req)
    (cb : Option κ) {rsp : Rsp} (err : ℤ) (hnext : rsp.getNext = false) {ret : ℤ}
    {c' : Client κ σ} (hinvoke : invoke e ref cb rsp c = (ret, c')) :
    (labelCancelAndFree ref err c').history ref =
        c.history ref ++ (.called ref rsp :: .returned ref rsp ret ::
          if req.isObserve ∧ err = 0 then [] else [.freed ref]) ∧
      (labelCancelAndFree ref err c').find ref =
        if req.isObserve ∧ err = 0 then some { req with isPending := false } else none := by
  obtain ⟨events, hhistory, hquiet, -⟩ := history_invoke (e := e) hwf hfind cb rsp
  have hfind' := find_invoke_of_last (e := e) hwf hfind cb hnext
  rw [hquiet (.inr hnext), List.nil_append] at hhistory
  rw [hinvoke] at hhistory hfind'
  rw [labelCancelAndFree_of_find hfind']
  split
  · refine ⟨hhistory, Eq.trans (Client.find_modify_self _ ?_) ?_⟩
    · exact fun _ h => h
    · rw [hfind']
      rfl
  · refine ⟨?_, find_coapReqCancelAndFree_self _⟩
    rw [history_coapReqCancelAndFree, if_pos rfl, hhistory, List.append_assoc]
    rfl

/-- A last response is one invocation. After it the request is removed, unless it
is an observation and there was no error. -/
theorem carryOut_deliver (hwf : WellFormed c) (hfind : c.find ref = some req)
    (blockCtx : BlockContext) {rsp : Rsp} (err : ℤ) (hnext : rsp.getNext = false) :
    ∃ ret, ((Verdict.deliver blockCtx rsp err).carryOut e req c).history ref =
        c.history ref ++ (.called ref rsp :: .returned ref rsp ret ::
          if req.isObserve ∧ err = 0 then [] else [.freed ref]) ∧
      ((Verdict.deliver blockCtx rsp err).carryOut e req c).find ref =
        if req.isObserve ∧ err = 0 then
          some { req with blockCtx := blockCtx, isPending := false }
        else none := by
  obtain rfl := Client.ref_of_find hfind
  exact ⟨_, label_invoke (wellFormed_track hwf blockCtx) (find_trackBlock hfind blockCtx)
    req.cb err hnext Prod.mk.eta.symm⟩

private theorem label_offered (hwf : WellFormed c) (hfind : c.find ref = some req)
    (hobserve : req.isObserve = false) (cb : Option κ) (rsp : Rsp) {ret : ℤ}
    {c' : Client κ σ} (hinvoke : invoke e ref cb rsp c = (ret, c')) :
    ∃ req', Prepared e.zephyr req req' ∧
      (if ret ≠ 0 then labelCancelAndFree ref ret c' else c').history ref =
        c.history ref ++ (.called ref rsp :: .returned ref rsp ret ::
          if ret ≠ 0 then [.freed ref] else []) ∧
      (if ret ≠ 0 then labelCancelAndFree ref ret c' else c').find ref =
        if ret ≠ 0 then none else some req' := by
  obtain ⟨events, hhistory, hquiet, -⟩ := history_invoke (e := e) hwf hfind cb rsp
  obtain ⟨req', hfind', hprepared⟩ := find_invoke (e := e) hwf hfind cb rsp
  rw [hquiet (.inl hobserve), List.nil_append] at hhistory
  rw [hinvoke] at hhistory hfind'
  have hobserve' : ¬ (req'.isObserve = true ∧ ret = 0) := by
    simp [hprepared.same.isObserve, hobserve]
  refine ⟨req', hprepared, ?_⟩
  by_cases hret : ret ≠ 0
  · rw [if_pos hret, if_pos hret, if_pos hret, labelCancelAndFree_of_find hfind',
      if_neg hobserve']
    refine ⟨?_, find_coapReqCancelAndFree_self _⟩
    rw [history_coapReqCancelAndFree, if_pos rfl, hhistory, List.append_assoc]
    rfl
  · rw [if_neg hret, if_neg hret, if_neg hret]
    exact ⟨hhistory, hfind'⟩

/-- A response offered together with `get_next`, for a request that is not an
observation, is one invocation. After it the request is removed if the callback
returned an error, and may have been prepared for the next block otherwise. -/
theorem carryOut_offer (hwf : WellFormed c) (hfind : c.find ref = some req)
    (hobserve : req.isObserve = false) (blockCtx : BlockContext) (rsp : Rsp) :
    ∃ ret req', Prepared e.zephyr { req with blockCtx := blockCtx } req' ∧
      (∃ d, ret = (invoke e ref req.cb rsp d).1) ∧
      ((Verdict.offer blockCtx rsp).carryOut e req c).history ref =
        c.history ref ++ (.called ref rsp :: .returned ref rsp ret ::
          if ret ≠ 0 then [.freed ref] else []) ∧
      ((Verdict.offer blockCtx rsp).carryOut e req c).find ref =
        if ret ≠ 0 then none else some req' := by
  obtain rfl := Client.ref_of_find hfind
  obtain ⟨req', hprepared, hhistory, hkept⟩ := label_offered (e := e)
    (wellFormed_track hwf blockCtx) (find_trackBlock hfind blockCtx) hobserve req.cb rsp
    Prod.mk.eta.symm
  have hplain : ¬ req.isObserve = true := by simp [hobserve]
  rw [Verdict.carryOut, if_neg hplain]
  exact ⟨_, req', hprepared, ⟨_, rfl⟩, hhistory, hkept⟩

/-- A response offered together with `get_next` ends an observation. -/
theorem find_carryOut_offer_observed (hwf : WellFormed c) (hfind : c.find ref = some req)
    (hobserve : req.isObserve = true) (blockCtx : BlockContext) (rsp : Rsp) :
    ((Verdict.offer blockCtx rsp).carryOut e req c).find ref = none := by
  obtain rfl := Client.ref_of_find hfind
  obtain ⟨req', hfind', hprepared⟩ := find_invoke (e := e) (wellFormed_track hwf blockCtx)
    (find_trackBlock hfind blockCtx) req.cb rsp
  have hremoved : ∀ err, err ≠ 0 → (labelCancelAndFree req.ref err (invoke e req.ref req.cb rsp
      (c.modify req.ref fun req => { req with blockCtx := blockCtx })).2).find req.ref = none := by
    intro err herr
    rw [labelCancelAndFree_of_find hfind', if_neg fun h => herr h.2]
    exact find_coapReqCancelAndFree_self _
  rw [Verdict.carryOut]
  split
  · next hret => exact hremoved _ hret
  · exact hremoved _ (by decide)

/-- The response a decision hands over. -/
def Verdict.rsp : Verdict → Option Rsp
  | .ignore _ => none
  | .deliver _ rsp _ => some rsp
  | .offer _ rsp => some rsp

private theorem history_label {c' : Client κ σ} (hfind : c'.find ref = some req) (err : ℤ)
    {history events : List Event} {event : Event}
    (hhistory : c'.history ref = history ++ event :: events) :
    ∃ rest, (labelCancelAndFree ref err c').history ref = history ++ event :: rest := by
  rw [labelCancelAndFree_of_find hfind]
  split
  · exact ⟨events, hhistory⟩
  · refine ⟨events ++ [.freed ref], ?_⟩
    rw [history_coapReqCancelAndFree, if_pos rfl, hhistory, List.append_assoc]
    rfl

/-- The first event a decision causes is the invocation with its response. -/
theorem head_carryOut (hwf : WellFormed c) (hfind : c.find ref = some req) (v : Verdict)
    (hconsistent : v.Consistent req.isObserve) :
    ∃ events, (v.carryOut e req c).history ref = c.history ref ++ events ∧
      events.head? = v.rsp.map fun rsp => .called ref rsp := by
  cases v with
  | ignore blockCtx =>
    refine ⟨[], ?_, rfl⟩
    rw [Client.history, (carryOut_ignore hfind blockCtx).2, List.append_nil, Client.history]
  | deliver blockCtx rsp err =>
    obtain ⟨ret, hhistory, -⟩ := carryOut_deliver (e := e) hwf hfind blockCtx err hconsistent.1
    exact ⟨_, hhistory, rfl⟩
  | offer blockCtx rsp =>
    obtain rfl := Client.ref_of_find hfind
    obtain ⟨events, hhistory, -⟩ := history_invoke (e := e) (wellFormed_track hwf blockCtx)
      (find_trackBlock hfind blockCtx) req.cb rsp
    obtain ⟨req', hfind', -⟩ := find_invoke (e := e) (wellFormed_track hwf blockCtx)
      (find_trackBlock hfind blockCtx) req.cb rsp
    have hkept : ∃ rest, ((Verdict.offer blockCtx rsp).carryOut e req c).history req.ref =
        c.history req.ref ++ .called req.ref rsp :: rest := by
      rw [Verdict.carryOut]
      split_ifs
      · exact history_label hfind' _ hhistory
      · exact history_label hfind' _ hhistory
      · exact ⟨_, hhistory⟩
    obtain ⟨rest, hrest⟩ := hkept
    exact ⟨_, hrest, rfl⟩

/-! ## Blocks that overrun the announced total -/

/-- The response was rejected as a bad message: one invocation with `-EBADMSG`,
no data and no `get_next`, and the request is removed and freed. -/
def RejectedAsBad (ref : ℕ) (c c' : Client κ σ) : Prop :=
  ref ∉ c'.refs ∧ ∃ rsp ret, rsp.err = -Errno.ebadmsg ∧ rsp.data = [] ∧ rsp.getNext = false ∧
    c'.history ref = c.history ref ++ [.called ref rsp, .returned ref rsp ret, .freed ref]

private theorem rejectedAsBad_of_verdict (hwf : WellFormed c) (hfind : c.find ref = some req)
    {response : RxPacket} (blockCtx : BlockContext) (userData : ℕ)
    (hverdict : verdict e.zephyr req response = .deliver blockCtx
      { userData := userData, err := -Errno.ebadmsg } (-Errno.ebadmsg)) :
    RejectedAsBad ref c (coapReqReplyHandler e ref response c) := by
  have herr : ¬ (req.isObserve = true ∧ -Errno.ebadmsg = 0) := fun h => absurd h.2 (by decide)
  have hnext : Rsp.getNext { userData := userData, err := -Errno.ebadmsg } = false := rfl
  obtain ⟨ret, hhistory, hfind'⟩ := carryOut_deliver (e := e) hwf hfind blockCtx
    (-Errno.ebadmsg) hnext
  rw [if_neg herr] at hhistory hfind'
  rw [coapReqReplyHandler_eq e hwf hfind, hverdict]
  exact ⟨(Client.find_eq_none_iff _).mp hfind', _, ret, rfl, rfl, rfl, hhistory⟩

private theorem verdict_of_rejectedAsBad (hwf : WellFormed c) (hfind : c.find ref = some req)
    {response : RxPacket}
    (hrejected : RejectedAsBad ref c (coapReqReplyHandler e ref response c)) :
    ∃ rsp, (verdict e.zephyr req response).rsp = some rsp ∧ rsp.err = -Errno.ebadmsg ∧
      rsp.getNext = false := by
  obtain ⟨-, rsp, ret, herr, -, hnext, hhistory⟩ := hrejected
  obtain ⟨events, hevents, hhead⟩ := head_carryOut (e := e) hwf hfind
    (verdict e.zephyr req response) (consistent_verdict _ _ _)
  rw [coapReqReplyHandler_eq e hwf hfind, hevents, List.append_cancel_left_eq] at hhistory
  rw [hhistory] at hhead
  obtain ⟨rsp', hrsp, hcalled⟩ := Option.map_eq_some_iff.mp hhead.symm
  obtain ⟨-, rfl⟩ := Event.called.inj hcalled
  exact ⟨rsp', hrsp, herr, hnext⟩

/-- **When an overrunning block is rejected.** Let `coap_next_block_for_option`
fail on a response with a Block2 option. The response is rejected as bad only
where the handler does not get as far as that: its code already means
`-EBADMSG`, or `coap_update_from_block` fails. Otherwise the negative result,
stored in a `size_t`, is taken for an offset. -/
theorem rejectedAsBad_iff (hwf : WellFormed c) (hfind : c.find ref = some req)
    (response : RxPacket) (hblock2 : coapGetOptionInt response .block2 ≠ -Errno.enoent)
    (hint : -2 ^ 31 ≤ (e.zephyr.coapNextBlockForOption response
      (e.zephyr.coapUpdateFromBlock response req.blockCtx).2 .block2).1)
    (hnegative : (e.zephyr.coapNextBlockForOption response
      (e.zephyr.coapUpdateFromBlock response req.blockCtx).2 .block2).1 < 0) :
    RejectedAsBad ref c (coapReqReplyHandler e ref response c) ↔
      coapCodeToPosix response.code = -Errno.ebadmsg ∨
        (coapCodeToPosix response.code = 0 ∧
          (e.zephyr.coapUpdateFromBlock response req.blockCtx).1 ≠ 0) := by
  have hoffset := sizeOfInt_ne_zero hnegative.ne hint (by omega)
  have hbad : -Errno.ebadmsg ≠ 0 := by decide
  constructor
  · intro hrejected
    obtain ⟨rsp, hrsp, herr, hnext⟩ := verdict_of_rejectedAsBad hwf hfind hrejected
    by_cases hcode : coapCodeToPosix response.code = 0
    · by_cases hupdate : (e.zephyr.coapUpdateFromBlock response req.blockCtx).1 = 0
      · exfalso
        simp only [verdict, blockVerdict, hcode, hblock2, hupdate, hoffset, ne_eq,
          not_true_eq_false, not_false_eq_true, if_true, if_false] at hrsp
        split at hrsp
        · cases hrsp
        · obtain rfl := Option.some_inj.mp hrsp
          cases hnext
      · exact .inr ⟨hcode, hupdate⟩
    · rw [verdict, if_pos hcode] at hrsp
      obtain rfl := Option.some_inj.mp hrsp
      exact .inl herr
  · rintro (hcode | ⟨hcode, hupdate⟩)
    · refine rejectedAsBad_of_verdict hwf hfind req.blockCtx req.userData ?_
      rw [verdict, hcode]
      exact if_pos hbad
    · refine rejectedAsBad_of_verdict hwf hfind
        (e.zephyr.coapUpdateFromBlock response req.blockCtx).2 req.userData ?_
      simp only [verdict, blockVerdict, hcode, hblock2, hupdate, ne_eq, not_true_eq_false,
        not_false_eq_true, if_true, if_false]

/-- A connected client with one request. -/
def openRun : Option (Client Unit Unit) :=
  execute .quiet [.onConnect, .submit (.getA () false)] ()

/-- A last block of sixteen bytes that announces a total of ten. -/
def overrunBlock : RxPacket where
  type := .ack
  code := 69
  id := 4
  token := firstToken
  options := [(.block2, 0), (.size2, 10)]
  payload := List.replicate 16 0

private theorem overrunBlock_facts :
    ∃ c req, openRun = some c ∧ c.find 0 = some req ∧
      Env.quiet.zephyr.coapNextBlockForOption overrunBlock
        (Env.quiet.zephyr.coapUpdateFromBlock overrunBlock req.blockCtx).2 .block2 =
        (-Errno.emsgsize, ⟨10, 0, 0⟩) ∧
      (coapReqReplyHandler .quiet 0 overrunBlock c).refs = [0] := by
  obtain ⟨c, hrun⟩ : ∃ c, openRun = some c := Option.isSome_iff_exists.mp (by decide)
  have hfacts : openRun.map (fun c => (c.coapReqs.map (·.blockCtx), c.refs,
      (coapReqReplyHandler .quiet 0 overrunBlock c).refs)) =
      some ([⟨0, 0, 6⟩], [0], [0]) := by decide
  rw [hrun] at hfacts
  obtain ⟨hctx, hrefs, hkept⟩ := by
    simpa only [Option.map_some, Option.some_inj, Prod.mk.injEq] using hfacts
  obtain ⟨req, hfind⟩ := c.mem_refs_iff.mp (by rw [hrefs]; exact List.mem_singleton_self 0)
  have hreq : req.blockCtx = ⟨0, 0, 6⟩ := by
    have hmem := List.mem_map_of_mem (f := (·.blockCtx)) (Client.mem_of_find hfind)
    rw [hctx] at hmem
    exact List.mem_singleton.mp hmem
  exact ⟨c, req, hrun, hfind, by rw [hreq]; decide, hkept⟩

/-- The block is not rejected: the request stays on the list. -/
theorem overrunBlock_not_rejected :
    ∃ c req, openRun = some c ∧ c.find 0 = some req ∧
      (Env.quiet.zephyr.coapNextBlockForOption overrunBlock
        (Env.quiet.zephyr.coapUpdateFromBlock overrunBlock req.blockCtx).2 .block2).1 < 0 ∧
      ¬ RejectedAsBad 0 c (coapReqReplyHandler .quiet 0 overrunBlock c) := by
  obtain ⟨c, req, hrun, hfind, hnext, hkept⟩ := overrunBlock_facts
  refine ⟨c, req, hrun, hfind, ?_, fun hrejected => ?_⟩
  · rw [hnext]
    decide
  · exact hrejected.1 (by rw [hkept]; exact List.mem_singleton_self 0)

theorem rejectedAsBad_iff_overrunBlock :
    ∃ c req, openRun = some c ∧ c.find 0 = some req ∧
      (RejectedAsBad 0 c (coapReqReplyHandler .quiet 0 overrunBlock c) ↔
        coapCodeToPosix overrunBlock.code = -Errno.ebadmsg ∨
          (coapCodeToPosix overrunBlock.code = 0 ∧
            (Env.quiet.zephyr.coapUpdateFromBlock overrunBlock req.blockCtx).1 ≠ 0)) := by
  obtain ⟨c, req, hrun, hfind, hnext, -⟩ := overrunBlock_facts
  have hwf := (lifecycle_of_reachable (reachable_of_execute _ hrun)).wellFormed
  refine ⟨c, req, hrun, hfind, rejectedAsBad_iff hwf hfind overrunBlock (by decide) ?_ ?_⟩
  · rw [hnext]
    decide
  · rw [hnext]
    decide

end Golioth.Requests
