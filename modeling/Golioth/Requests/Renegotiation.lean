/-
# Renegotiation of the block size

A first answer that is cut can be the beginning of a transfer with smaller blocks. This
is so exactly if it is cut at the end of such a block: the next request then names the
block that begins where the first answer ended. What remains to be shown is that a
transfer of this kind goes through, one exchange after the other.
-/
import Golioth.Requests.Asking

namespace Golioth.Requests

open Golioth.Coap CS

variable {κ σ : Type} {e : Env κ σ} {c d : Client κ σ} {ref : ℕ} {req scheduled : CoapReq κ}
  {rx : RxPacket}

/-! ## One exchange -/

/-- The only request of a client after a number of exchanges: it is at the beginning or
where a block ends, and has asked for what comes next. -/
structure Fetching (e : Env κ σ) (payload : List UInt8) (count : ℕ) (scheduled : CoapReq κ)
    (ref : ℕ) (cb : Option κ) (offset : ℕ) (c : Client κ σ) : Prop where
  wellFormed : WellFormed c
  lt : offset < payload.length
  atBlock : offset = 0 ∨ ∃ num, count ≤ num ∧ num < 2 ^ 20 ∧
    offset = num * coapBlockSizeToBytes (goliothEstimatedCoapBlockSize e.config.rxBufferLen)
  request : ∃ req calls t0, c.coapReqs = [req] ∧ req.ref = ref ∧ req.cb = cb ∧
    Fetched e payload offset req ∧ req.pending = coapPendingInit t0 3 ∧
    Asked e.zephyr scheduled calls req ∧ (offset = 0 → calls = []) ∧
    (0 < offset → ∃ before id, calls = before ++ [(id, req.blockCtx)])
  succeeded : ∀ rsp ∈ invocations (c.history ref), rsp.err = 0
  consecutive : CS.Pieces.Consecutive payload 0 (pieces (successes (c.history ref)))
  progress : progress (c.history ref) = offset

section Exchange

variable {named : List UInt8 → Option (ℕ × ℕ)} {value : BlockContext → List UInt8}
  {payload : List UInt8} {headLen : Option (ℕ × ℕ) → ℕ} {server : List UInt8 → List UInt8}
  {r : Receiver} {szx num room count offset : ℕ} {cb : Option κ}
  {calls : List (UInt16 × BlockContext)} {events : List Event}

private theorem fullHeader_of_asked (hheader : e.zephyr.HeaderContract)
    (hassembled : Assembled e.zephyr false scheduled.request)
    (hasked : Asked e.zephyr scheduled calls req) : FullHeader req.request.data := by
  have hfull := fullHeader_of_assembled hheader hassembled
  rcases List.eq_nil_or_concat calls with rfl | ⟨before, ⟨id, context⟩, rfl⟩
  · rw [(hasked.unasked rfl).1]
    exact hfull
  · obtain ⟨-, -, hrequest⟩ := hasked.last before id context (List.concat_eq_append ..)
    rw [hrequest]
    exact (fullHeader_setId hfull id).extended (hheader.appendBlock2 _ _)

/-- What a request names: nothing at first, and then the block that begins at its offset. -/
private theorem named_of_asked (hnaming : NamingContract e.zephyr named)
    (hassembled : Assembled e.zephyr false scheduled.request)
    (hasked : Asked e.zephyr scheduled calls req) (hfetched : Fetched e payload offset req)
    (hunasked : offset = 0 → calls = [])
    (hlast : 0 < offset → ∃ before id, calls = before ++ [(id, req.blockCtx)])
    (hnum : offset / coapBlockSizeToBytes
      (goliothEstimatedCoapBlockSize e.config.rxBufferLen) < 2 ^ 20) :
    named req.request.data =
      if offset = 0 then none
      else some (offset / coapBlockSizeToBytes
        (goliothEstimatedCoapBlockSize e.config.rxBufferLen),
        goliothEstimatedCoapBlockSize e.config.rxBufferLen) := by
  split
  · next hzero =>
    rw [(hasked.unasked (hunasked hzero)).1]
    exact hnaming.plain _ hassembled
  · next hne =>
    obtain ⟨before, id, hcalls⟩ := hlast (Nat.pos_of_ne_zero hne)
    obtain ⟨-, hok, hrequest⟩ := hasked.last before id req.blockCtx hcalls
    have hsize : req.blockCtx.blockSize < 7 := hfetched.blockSize ▸ estimatedBlockSize_lt _
    have hnamed := hnaming.appended (coapPacketSetId scheduled.request id) req.blockCtx
      (.setId id hassembled) hsize (by rw [hfetched.current, hfetched.blockSize]; exact hnum) hok
    rw [hrequest, hnamed, hfetched.current, hfetched.blockSize]

/-- How much of the block at an offset fits: it ends where the next block begins, or with
the payload. -/
private theorem fitting_of_cutsAtBlock {rxBufferLen blockSize : ℕ}
    (hlong : coapBlockSizeToBytes szx < payload.length)
    (htruncated : rxBufferLen < headLen none + coapBlockSizeToBytes szx) (hcount : 0 < count)
    (hfirst : rxBufferLen = headLen none + count * coapBlockSizeToBytes blockSize)
    (hrest : ∀ num, count ≤ num → num * coapBlockSizeToBytes blockSize < payload.length →
      num < 2 ^ 20 ∧ headLen (some (num, blockSize)) +
        min (coapBlockSizeToBytes blockSize)
          (payload.length - num * coapBlockSizeToBytes blockSize) ≤ rxBufferLen)
    (hlt : offset < payload.length)
    (hat : offset = 0 ∨ ∃ num, count ≤ num ∧ num < 2 ^ 20 ∧
      offset = num * coapBlockSizeToBytes blockSize) (hlarger : blockSize < szx)
    {asked : Option (ℕ × ℕ)}
    (hasked : asked = if offset = 0 then none
      else some (offset / coapBlockSizeToBytes blockSize, blockSize)) :
    ∃ num size len, asked.getD (0, szx) = (num, size) ∧ size ≤ szx ∧ blockSize ≤ size ∧
      num < 2 ^ 20 ∧ num * coapBlockSizeToBytes size = offset ∧
      (0 < offset → size = blockSize) ∧ 0 < len ∧
      len = min (rxBufferLen - headLen asked)
        (min (coapBlockSizeToBytes size) (payload.length - offset)) ∧
      (offset + coapBlockSizeToBytes size < payload.length →
        offset + len < payload.length ∧ ∃ next, count ≤ next ∧ next < 2 ^ 20 ∧
          offset + len = next * coapBlockSizeToBytes blockSize) ∧
      (payload.length ≤ offset + coapBlockSizeToBytes size → offset + len = payload.length) := by
  have hbytes : 0 < coapBlockSizeToBytes blockSize := Nat.two_pow_pos _
  have hpos := Nat.mul_pos hcount hbytes
  rcases hat with rfl | ⟨num, hge, hnum, rfl⟩
  · rw [if_pos rfl] at hasked
    subst hasked
    refine ⟨0, szx, count * coapBlockSizeToBytes blockSize, rfl, le_rfl, hlarger.le, by decide,
      Nat.zero_mul _, fun h => absurd h (lt_irrefl 0), hpos, by omega, fun _ => ?_, by omega⟩
    exact ⟨by omega, count, le_rfl, (hrest count le_rfl (by omega)).1, Nat.zero_add _⟩
  · have hne : num * coapBlockSizeToBytes blockSize ≠ 0 :=
      (Nat.mul_pos (hcount.trans_le hge) hbytes).ne'
    rw [if_neg hne, Nat.mul_div_cancel _ hbytes] at hasked
    subst hasked
    obtain ⟨-, hfits⟩ := hrest num hge hlt
    refine ⟨num, blockSize, min (coapBlockSizeToBytes blockSize)
      (payload.length - num * coapBlockSizeToBytes blockSize), rfl, hlarger.le, le_rfl, hnum, rfl,
      fun _ => rfl, by omega, by omega, fun hmore => ?_, by omega⟩
    have hnext : num * coapBlockSizeToBytes blockSize + coapBlockSizeToBytes blockSize =
        (num + 1) * coapBlockSizeToBytes blockSize := (Nat.succ_mul _ _).symm
    have hlater := hrest (num + 1) (by omega) (by omega)
    exact ⟨by omega, num + 1, by omega, hlater.1, by omega⟩

/-- A block at the offset reached, in the size negotiated, is accepted by the library. -/
private theorem accepted_of_cutBlock (haccept : e.zephyr.AcceptContract) (hszx : szx < 7)
    (hfetched : Fetched e payload offset req) (hcut : CutBlock payload szx num room rx)
    (hroom : 0 < room) (hhere : num * coapBlockSizeToBytes szx = offset)
    (hle : offset ≤ payload.length)
    (hsize : 0 < offset → szx = goliothEstimatedCoapBlockSize e.config.rxBufferLen) :
    (e.zephyr.coapUpdateFromBlock rx req.blockCtx).1 = 0 := by
  have hblock2 := hcut.block2.resolve_right fun h => hroom.ne' h.1
  have hpart : PartOfBlock payload szx num rx := ⟨hcut.success, hcut.num_lt, hblock2,
    hcut.no_block1, hcut.size2, hcut.data ▸ List.take_prefix _ _⟩
  refine haccept rx req.blockCtx (responseCode_of_success hcut.success) (hpart.wellFormed hszx)
    ?_ ?_ ?_
  · rw [hblock2, blockSzx_blockValue (by omega), hfetched.current, hfetched.blockSize]
    exact fun hpos => (hsize hpos).le
  · rcases hfetched.totalSize with hzero | hknown
    · exact .inl hzero
    · refine .inr (hcut.size2.imp (fun habsent => ?_)
        fun hannounced => hannounced.trans hknown.symm)
      rw [Zephyr.announcedTotal, if_pos habsent]
  · refine hfetched.totalSize.imp_right fun hknown => ?_
    rw [hblock2, blockStart, blockNum_blockValue (by omega), blockSzx_blockValue (by omega), hhere,
      hknown]
    exact hle

/-- What makes a transfer go through whose first answer is cut after some blocks. -/
private structure Arranged (e : Env κ σ) (named : List UInt8 → Option (ℕ × ℕ))
    (value : BlockContext → List UInt8) (r : Receiver) (server : List UInt8 → List UInt8)
    (payload : List UInt8) (szx : ℕ) (headLen : Option (ℕ × ℕ) → ℕ) (count : ℕ)
    (scheduled : CoapReq κ) (cb : Option κ) : Prop where
  library : TransferContract e.zephyr named value
  extensible : Extensible e scheduled
  asks : ∀ rsp, rsp.getNext = true → Asks false (e.callback cb rsp)
  serves : Serves r named payload szx headLen server
  larger : goliothEstimatedCoapBlockSize e.config.rxBufferLen < szx
  szx_lt : szx < 7
  long : coapBlockSizeToBytes szx < payload.length
  truncated : e.config.rxBufferLen < headLen none + coapBlockSizeToBytes szx
  count_pos : 0 < count
  first : e.config.rxBufferLen = headLen none + count *
    coapBlockSizeToBytes (goliothEstimatedCoapBlockSize e.config.rxBufferLen)
  rest : ∀ num, count ≤ num →
    num * coapBlockSizeToBytes (goliothEstimatedCoapBlockSize e.config.rxBufferLen) <
        payload.length →
      num < 2 ^ 20 ∧ headLen (some (num, goliothEstimatedCoapBlockSize e.config.rxBufferLen)) +
        min (coapBlockSizeToBytes (goliothEstimatedCoapBlockSize e.config.rxBufferLen))
          (payload.length - num *
            coapBlockSizeToBytes (goliothEstimatedCoapBlockSize e.config.rxBufferLen)) ≤
              e.config.rxBufferLen

/-- One more piece in the history of a transfer. -/
private theorem extended_history {before after : Client κ σ} {rest : List Event} {rsp : Rsp}
    (h : Fetching e payload count scheduled ref cb offset before)
    (hhistory : after.history ref = before.history ref ++ rest)
    (hone : invocations rest = [rsp]) (herr : rsp.err = 0) (hoff : rsp.off = offset)
    (hdata : rsp.data <+: payload.drop offset) :
    (∀ rsp ∈ invocations (after.history ref), rsp.err = 0) ∧
      CS.Pieces.Consecutive payload 0 (pieces (successes (after.history ref))) ∧
      CS.Pieces.join (pieces (successes (after.history ref))) =
        CS.Pieces.join (pieces (successes (before.history ref))) ++ rsp.data ∧
      progress (after.history ref) = offset + rsp.data.length := by
  have hsuccess : successes rest = [rsp] := by simp [successes, hone, herr]
  have hstart := h.progress
  rw [progress] at hstart
  have hpieces : pieces (successes (after.history ref)) =
      pieces (successes (before.history ref)) ++ [(offset, rsp.data)] := by
    rw [hhistory, successes_append, hsuccess, ← hoff]
    simp [pieces]
  have hjoin : CS.Pieces.join (pieces (successes (after.history ref))) =
      CS.Pieces.join (pieces (successes (before.history ref))) ++ rsp.data := by
    rw [hpieces, CS.Pieces.join_append]
    simp [CS.Pieces.join]
  refine ⟨fun rsp' hmem => ?_, ?_, hjoin, ?_⟩
  · rw [hhistory, invocations_append, hone, List.mem_append, List.mem_singleton] at hmem
    rcases hmem with hmem | rfl
    · exact h.succeeded rsp' hmem
    · exact herr
  · have hnext : rsp.data <+: payload.drop
        (0 + (CS.Pieces.join (pieces (successes (before.history ref)))).length) := by
      rw [hstart, Nat.zero_add]
      exact hdata
    have hsnoc := h.consecutive.snoc hnext
    rw [hstart, Nat.zero_add] at hsnoc
    rw [hpieces]
    exact hsnoc
  · rw [progress, hjoin, List.length_append, hstart]

/-- **Offer.** A block that more follow is handed to the callback, which asks for the next
one. -/
private theorem offered {req : CoapReq κ} {c : Client κ σ}
    (harranged : Arranged e named value r server payload szx headLen count scheduled cb)
    (hone : c.coapReqs = [req]) (hcb : req.cb = cb) {later : ℕ} {blockCtx : BlockContext}
    (hfetched : Fetched e payload later { req with blockCtx := blockCtx })
    (hasked : Asked e.zephyr scheduled calls req)
    (hnum : later / coapBlockSizeToBytes
      (goliothEstimatedCoapBlockSize e.config.rxBufferLen) < 2 ^ 20)
    {rsp : Rsp} (hnext : rsp.getNext = true) :
    ∃ c' req' before id t0, (Verdict.offer blockCtx rsp).carryOut e req c = c' ∧
      c'.history req.ref = c.history req.ref ++ [.called req.ref rsp, .returned req.ref rsp 0] ∧
      c'.coapReqs = [req'] ∧ req'.ref = req.ref ∧ req'.cb = cb ∧ req'.blockCtx = blockCtx ∧
      Asked e.zephyr scheduled (before ++ [(id, blockCtx)]) req' ∧
      req'.pending = coapPendingInit t0 3 := by
  have hoffering : Offering e scheduled req.ref cb blockCtx (c.log ++ [.called req.ref rsp]) false
      ((c.modify req.ref fun req => { req with blockCtx := blockCtx }).emit
        (.called req.ref rsp)) := by
    refine ⟨rfl, { req with blockCtx := blockCtx }, calls, ?_, rfl, hcb, rfl,
      ⟨hasked.isObserve, hasked.unasked, hasked.last⟩, by simp⟩
    simp [Client.modify, Client.emit, hone]
  have hsize : blockCtx.blockSize = goliothEstimatedCoapBlockSize e.config.rxBufferLen :=
    hfetched.blockSize
  have hcurrent : blockCtx.current = later := hfetched.current
  have hran := (harranged.asks rsp hnext).run harranged.library harranged.extensible hsize
    (hcurrent ▸ hnum) hoffering
  have hinvoked : invoke e req.ref req.cb rsp
      (c.modify req.ref fun req => { req with blockCtx := blockCtx }) =
      invokeWith e (answerWith e (coapReqNextBlock e req.ref)) req.ref cb rsp
        (c.modify req.ref fun req => { req with blockCtx := blockCtx }) := by
    rw [invoke, if_pos hnext, hcb]
  rw [Verdict.carryOut, hinvoked, invokeWith]
  generalize Prog.run (answerWith e (coapReqNextBlock e req.ref)) (e.callback cb rsp)
    ((c.modify req.ref fun req => { req with blockCtx := blockCtx }).emit
      (.called req.ref rsp)) = result at hran
  obtain ⟨hret, hlog, req', calls', hone', href', hcb', hctx', hasked', hasks⟩ := hran
  obtain ⟨⟨before, id, rfl⟩, t0, hpending⟩ := hasks rfl
  refine ⟨_, req', before, id, t0, rfl, ?_, ?_, href', hcb', hctx', hasked', hpending⟩
  · simp [hret, hasked.isObserve, Client.history, hlog, Client.emit, Event.ref]
  · simp [hret, hasked.isObserve, hone', Client.emit]

/-- **Exchange.** The answer to the packet of the request is accepted; it is the last piece of
the payload, or the request asks for the next one. -/
private theorem fetching_exchange
    (harranged : Arranged e named value r server payload szx headLen count scheduled cb)
    (h : Fetching e payload count scheduled ref cb offset c)
    (hexchange : Exchange e r server ref c d) :
    (∃ later, offset < later ∧ Fetching e payload count scheduled ref cb later d) ∨
      Delivered payload ref d ∧ progress (d.history ref) = payload.length := by
  obtain ⟨now, visits, c₁, data, hstep, hsent, rfl⟩ := hexchange
  have hbytes : 0 < coapBlockSizeToBytes
    (goliothEstimatedCoapBlockSize e.config.rxBufferLen) := Nat.two_pow_pos _
  obtain ⟨req, calls, t0, hone, rfl, hcb, hfetched, -, hasked, hunasked, hlast⟩ := h.request
  -- the packet that is sent is that of the request, and the request stays
  obtain ⟨⟨ret, c₂⟩, hpoll, rfl⟩ := Option.map_eq_some_iff.mp hstep
  obtain ⟨rfl, hwf₁, pending, hone₁⟩ := poll_of_sent h.wellFormed hone hpoll hsent
  have hfetched₁ : Fetched e payload offset { req with pending := pending } :=
    hfetched.congr rfl rfl
  have hasked₁ : Asked e.zephyr scheduled calls { req with pending := pending } :=
    ⟨hasked.isObserve, hasked.unasked, hasked.last⟩
  have hsent' : c₂.history req.ref = c.history req.ref ++ [.sent req.ref req.request.data] := hsent
  have hfind₁ : c₂.find req.ref = some { req with pending := pending } := find_of_only hone₁
  -- the server answers with the block at the offset
  have hnamed := named_of_asked harranged.library.naming harranged.extensible.assembled hasked hfetched
    hunasked hlast (by
      rcases h.atBlock with rfl | ⟨num, -, hnum, rfl⟩
      · rw [Nat.zero_div]
        decide
      · rwa [Nat.mul_div_cancel _ hbytes])
  obtain ⟨num, size, len, hblock, hsize, hlarge, hnum, hhere, hsame, hpos, hlen, hmore, hend⟩ :=
    fitting_of_cutsAtBlock harranged.long harranged.truncated harranged.count_pos
      harranged.first harranged.rest h.lt h.atBlock harranged.larger hnamed
  obtain ⟨head, rx, hanswer⟩ := harranged.serves _ num size hblock hsize hnum (hhere ▸ h.lt)
  have hheadLen := hanswer.length_head
  have hbefore : head.length < e.config.rxBufferLen := by omega
  have hprocessed := hanswer.carries.processed (e := e) (c := c₂) hbefore
  rw [← hanswer.datagram] at hprocessed
  have hcut := hanswer.carries.cutBlock hanswer.block
    (hanswer.carries.whole e.config.rxBufferLen (.inl hbefore))
  rw [hheadLen] at hcut hprocessed
  generalize hrx : { rx with
      payload := rx.payload.take (e.config.rxBufferLen - headLen (named req.request.data)) } = rx'
    at hprocessed hcut
  have hlength : rx'.payload.length = len := by rw [hcut.length_payload, hhere, hlen]
  have hstarts : rx'.payload <+: payload.drop offset := by
    rw [hcut.data, hhere]
    exact (List.take_prefix _ _).trans (List.take_prefix _ _)
  -- the response is for the request, and is decided on
  have hfull := fullHeader_of_asked harranged.library.header harranged.extensible.assembled hasked
  have hanswered : answered e rx' c₂ = some { req with pending := pending } := by
    rw [answered, hone₁]
    refine List.find?_cons_of_pos (answers_of_token hfull ?_)
    rw [← hrx]
    exact hanswer.token hfull.length_token
  have hobserve : coapGetOptionInt rx' .observe = -Errno.enoent := by
    rw [← hrx]
    exact hanswer.no_observe
  have hdecided := processRx_of_response hwf₁ hanswered hobserve
  rw [← hprocessed] at hdecided
  have hwf₂ : WellFormed (goliothProcessRx e r (server req.request.data) c₂).2 := by
    rw [hprocessed]
    exact wellFormed_step hwf₁ (show Step e (.processRx rx') c₂ _ from rfl)
  have houtcome := cutOutcome harranged.library.update harranged.library.next
    (hsize.trans_lt harranged.szx_lt) hlarge hfetched₁ hcut hhere.le h.lt.le
  generalize (goliothProcessRx e r (server req.request.data) c₂).2 = d at hdecided hwf₂
  generalize verdict e.zephyr { req with pending := pending } rx' = v at hdecided houtcome
  cases houtcome with
  | rejected blockCtx hrejected =>
    have haccepted := accepted_of_cutBlock harranged.library.accept
      (hsize.trans_lt harranged.szx_lt) hfetched₁ hcut
      (hpos.trans_le (hlen.le.trans (min_le_left _ _))) hhere h.lt.le hsame
    exact absurd haccepted hrejected
  | stale blockCtx hstale _ => exact absurd hhere hstale.ne
  | last blockCtx rsp herr hnone hdata hcomplete =>
    obtain ⟨-, hoff, hlast⟩ := hcomplete.resolve_left fun hnil => by
      rw [hnil, List.length_nil] at hlength
      omega
    obtain ⟨ret, hhistory, hgone⟩ := carryOut_deliver (e := e) hwf₁ hfind₁ blockCtx 0 hnone
    have hplain : ¬ (req.isObserve = true ∧ (0 : ℤ) = 0) := by simp [hfetched.isObserve]
    rw [← hdecided] at hhistory hgone
    rw [if_neg hplain, hsent', List.append_assoc] at hhistory
    rw [if_neg hplain] at hgone
    obtain ⟨hsucceeded, hconsecutive, hjoin, hprogress⟩ := extended_history h hhistory rfl herr hoff
      (hdata ▸ hstarts)
    have hall : offset + rsp.data.length = payload.length := by
      rw [hdata, hlength]
      exact hend hlast
    refine .inr ⟨⟨hgone, hsucceeded, hconsecutive, ?_⟩, hprogress.trans hall⟩
    rw [progress] at hprogress
    have hwhole := hconsecutive.join_eq
    rwa [hprogress, hall, List.drop_zero, List.take_length] at hwhole
  | more blockCtx rsp herr hnext hdata _ hoff hrest _ hnew =>
    obtain ⟨hlt, next, hge, hnext', hat⟩ := hmore hrest
    rw [hlength] at hnew
    obtain ⟨c', req', before, id, t0, hcarried, hhistory, hone', href', hcb', hctx', hasked',
      hpending'⟩ := offered harranged hone₁ hcb hnew hasked₁
        (by rwa [hat, Nat.mul_div_cancel _ hbytes]) hnext
    rw [← hdecided] at hcarried
    subst hcarried
    rw [hsent', List.append_assoc] at hhistory
    obtain ⟨hsucceeded, hconsecutive, -, hprogress⟩ := extended_history h hhistory rfl herr hoff
      (hdata ▸ hstarts)
    rw [hdata, hlength] at hprogress
    refine .inl ⟨offset + len, Nat.lt_add_of_pos_right hpos, hwf₂, hlt,
      .inr ⟨next, hge, hnext', hat⟩, ⟨req', before ++ [(id, blockCtx)], t0, hone', href', hcb',
        hnew.congr ?_ hctx', hpending', hasked', fun hzero => by omega, fun _ => ⟨before, id, ?_⟩⟩,
      hsucceeded, hconsecutive, hprogress⟩
    · exact hasked'.isObserve.trans hasked.isObserve.symm
    · rw [hctx']

/-! ## Whole transfers -/

private theorem reachable_of_exchange (h : Exchange e r server ref c d) :
    CS.Reachable (Step e) c d := by
  obtain ⟨now, visits, c₁, data, hpoll, -, rfl⟩ := h
  have hpolled : CS.Reachable (Step e) c c₁ := CS.Reachable.refl.snoc hpoll
  rcases goliothProcessRx_cases e r (server data) c₁ with hsame | ⟨rx, -, hprocessed⟩
  · rw [hsame]
    exact hpolled
  · rw [hprocessed]
    exact hpolled.snoc (show Step e (.processRx rx) c₁ _ from rfl)

/-- Nothing is sent for a request that is gone. -/
private theorem not_exchange_of_gone (hwf : WellFormed c) (hlt : ref < c.nextRef)
    (hgone : c.find ref = none) : ¬ Exchange e r server ref c d := by
  rintro ⟨now, visits, c₁, data, hpoll, hsent, -⟩
  have hpolled : CS.Reachable (Step e) c c₁ := CS.Reachable.refl.snoc hpoll
  rw [(unchanged_of_unlisted hwf hlt hgone hpolled).2] at hsent
  simp at hsent

private theorem ref_lt_of_fetching (h : Fetching e payload count scheduled ref cb offset c) :
    ref < c.nextRef := by
  obtain ⟨req, -, -, hone, rfl, -⟩ := h.request
  exact h.wellFormed.refs_lt req.ref (c.mem_refs_iff.mpr ⟨req, find_of_only hone⟩)

/-- **Run.** A transfer is under way or has delivered the payload. -/
private theorem fetching_or_delivered
    (harranged : Arranged e named value r server payload szx headLen count scheduled cb)
    (hstart : Fetching e payload count scheduled ref cb 0 c)
    (hlossless : Lossless e r server ref c d) :
    (∃ offset, Fetching e payload count scheduled ref cb offset d) ∨
      WellFormed d ∧ ref < d.nextRef ∧ Delivered payload ref d := by
  induction hlossless with
  | refl => exact .inl ⟨0, hstart⟩
  | tail _ hexchange ih =>
    rcases ih with ⟨offset, hfetching⟩ | ⟨hwf, hlt, hdelivered⟩
    · rcases fetching_exchange harranged hfetching hexchange with
        ⟨later, -, hlater⟩ | ⟨hdelivered, -⟩
      · exact .inl ⟨later, hlater⟩
      · obtain ⟨hwf, hlt, -⟩ := history_prefix hfetching.wellFormed (ref_lt_of_fetching hfetching)
          (reachable_of_exchange hexchange)
        exact .inr ⟨hwf, hlt, hdelivered⟩
    · exact absurd hexchange (not_exchange_of_gone hwf hlt hdelivered.gone)

/-- **Progress.** From wherever a transfer is under way it can go on to the end. -/
private theorem delivered_of_fetching
    (harranged : Arranged e named value r server payload szx headLen count scheduled cb)
    (hclock : ∀ reading, FitsClock (initAckTimeout e.config (e.sysRand32Get reading)).toNat)
    (hfetching : Fetching e payload count scheduled ref cb offset c) :
    ∃ d, Lossless e r server ref c d ∧ Delivered payload ref d := by
  generalize hleft : payload.length - offset = left
  induction left using Nat.strong_induction_on generalizing offset c with
  | _ left ih =>
    obtain ⟨req, calls, t0, hone, rfl, -, hfetched, hpending, -⟩ := hfetching.request
    obtain ⟨ret, c₁, hpoll, hsent⟩ := poll_at_start hclock hfetching.wellFormed hone
      hfetched.isObserve hpending
    have hstep : Step e (.pollPrepare t0 1) c c₁ := by
      rw [Step, perform, hpoll]
      rfl
    have hexchange : Exchange e r server req.ref c
        (goliothProcessRx e r (server req.request.data) c₁).2 :=
      ⟨t0, 1, c₁, req.request.data, hstep, hsent, rfl⟩
    rcases fetching_exchange harranged hfetching hexchange with ⟨later, hlt, hlater⟩ |
      ⟨hdelivered, -⟩
    · have hless : payload.length - later < left := by
        have := hlater.lt
        omega
      obtain ⟨d, hlossless, hdelivered⟩ := ih _ hless hlater rfl
      exact ⟨d, .head hexchange hlossless, hdelivered⟩
    · exact ⟨_, .single hexchange, hdelivered⟩

private theorem renegotiates_of_fetching
    (harranged : Arranged e named value r server payload szx headLen count scheduled cb)
    (hclock : ∀ reading, FitsClock (initAckTimeout e.config (e.sysRand32Get reading)).toNat)
    (hstart : Fetching e payload count scheduled ref cb 0 c) :
    Renegotiates e r server payload ref c where
  accepted d d' hlossless hexchange := by
    rcases fetching_or_delivered harranged hstart hlossless with
      ⟨offset, hfetching⟩ | ⟨hwf, hlt, hdelivered⟩
    · rw [hfetching.progress]
      rcases fetching_exchange harranged hfetching hexchange with ⟨later, hlt, hlater⟩ |
        ⟨-, hend⟩
      · exact hlt.trans_eq hlater.progress.symm
      · exact hfetching.lt.trans_eq hend.symm
    · exact absurd hexchange (not_exchange_of_gone hwf hlt hdelivered.gone)
  completes d hlossless := by
    rcases fetching_or_delivered harranged hstart hlossless with
      ⟨offset, hfetching⟩ | ⟨-, -, hdelivered⟩
    · exact delivered_of_fetching harranged hclock hfetching
    · exact ⟨d, .refl, hdelivered⟩

end Exchange

section Submitted

variable {named : List UInt8 → Option (ℕ × ℕ)} {value : BlockContext → List UInt8}
  {payload : List UInt8} {headLen : Option (ℕ × ℕ) → ℕ} {server : List UInt8 → List UInt8}
  {r : Receiver} {szx count : ℕ} {submission : Submission κ} {app : σ}

/-- A request that has just been scheduled, and is the only one, is at the beginning. -/
private theorem fetching_of_submit (hwf : WellFormed c) (hok : (submit e submission c).1 = 0)
    (hobserve : submission.observe = false) (hpos : 0 < payload.length)
    (hlisted : (submit e submission c).2.coapReqs = [scheduled])
    (hbuilt : Built e submission c.nextRef scheduled) :
    Fetching e payload count scheduled c.nextRef submission.cb 0 (submit e submission c).2 := by
  have hwf' := (effect_submit (e := e) none hwf submission).wellFormed
  obtain ⟨req, reading, hreqs, -, hpending⟩ := coapReqs_of_submit_ok e hok
  have hsame : req = scheduled := by
    rw [hlisted] at hreqs
    exact (List.append_eq_singleton_iff.mp hreqs.symm).elim (fun h => List.singleton_inj.mp h.2)
      fun h => absurd h.2 (List.cons_ne_nil _ _)
  rw [hsame] at hpending
  have hhistory := (scheduled_of_submit hwf hok).history
  have hnone : invocations ((submit e submission c).2.history c.nextRef) = [] := by
    rw [hhistory]
    rfl
  have hfetched : Fetched e payload 0 scheduled := by
    refine ⟨hbuilt.isObserve.trans hobserve, ?_, ?_, .inl ?_⟩
    all_goals rw [hbuilt.blockCtx]; rfl
  refine ⟨hwf', hpos, .inl rfl, ⟨scheduled, [], _, hlisted, hbuilt.ref_eq, hbuilt.cb, hfetched,
    hpending, ⟨hfetched.isObserve, fun _ => ⟨rfl, hbuilt.requestWoBlock2⟩, ?_⟩, fun _ => rfl,
    fun h => absurd h (lt_irrefl 0)⟩, ?_, ?_, ?_⟩
  · intro before id context hsplit
    exact absurd hsplit (by simp)
  · intro rsp hmem
    rw [hnone] at hmem
    cases hmem
  · rw [successes, hnone]
    trivial
  · rw [progress, successes, hnone]
    rfl

/-- **Negotiation of the block size by truncation.** The only request of a client is answered
by a server whose blocks are larger than the client expects, and the first answer does not
fit in the receive buffer. In a transfer without losses every answer is accepted and brings
more of the payload, until all of it has been handed over, exactly if the first answer is
cut where a block of the client ends and all the blocks from there on fit. Otherwise no such
transfer delivers the payload. -/
theorem renegotiates_iff (hz : TransferContract e.zephyr named value)
    (hclock : ∀ reading, FitsClock (initAckTimeout e.config (e.sysRand32Get reading)).toNat)
    (hreach : Reachable e app c) (hok : (submit e submission c).1 = 0)
    (hobserve : submission.observe = false) (hpayload : submission.payload = false)
    (hlisted : (submit e submission c).2.coapReqs = [scheduled])
    (hroom : RoomForBlock2 e.zephyr scheduled.request
      (goliothEstimatedCoapBlockSize e.config.rxBufferLen))
    (hasks : ∀ rsp, rsp.getNext = true → Asks false (e.callback submission.cb rsp))
    (hserves : Serves r named payload szx headLen server)
    (hlarger : goliothEstimatedCoapBlockSize e.config.rxBufferLen < szx) (hszx : szx < 7)
    (hlong : coapBlockSizeToBytes szx < payload.length)
    (htruncated : e.config.rxBufferLen < headLen none + coapBlockSizeToBytes szx) :
    (Renegotiates e r server payload c.nextRef (submit e submission c).2 ↔
      CutsAtBlock e.config.rxBufferLen headLen
        (goliothEstimatedCoapBlockSize e.config.rxBufferLen) payload.length) ∧
    (¬ CutsAtBlock e.config.rxBufferLen headLen
        (goliothEstimatedCoapBlockSize e.config.rxBufferLen) payload.length →
      ∀ d, Lossless e r server c.nextRef (submit e submission c).2 d →
        ¬ Delivered payload c.nextRef d) := by
  have hwf := wellFormed_of_reachable hreach
  have hwf' := (effect_submit (e := e) none hwf submission).wellFormed
  have hscheduled := scheduled_of_submit hwf hok
  have hcuts : ∀ d, Lossless e r server c.nextRef (submit e submission c).2 d →
      Delivered payload c.nextRef d → CutsAtBlock e.config.rxBufferLen headLen
        (goliothEstimatedCoapBlockSize e.config.rxBufferLen) payload.length :=
    fun d hlossless hdelivered => cutsAtBlock_of_delivered hz.header hz.update hz.next hz.naming
      hserves hlarger hszx hlong htruncated hwf' hscheduled hobserve hpayload hlossless hdelivered
  refine ⟨⟨fun hrenegotiates => ?_, ?_⟩,
    fun hnot d hlossless hdelivered => hnot (hcuts d hlossless hdelivered)⟩
  · obtain ⟨d, hlossless, hdelivered⟩ := hrenegotiates.completes _ .refl
    exact hcuts d hlossless hdelivered
  · rintro ⟨count, hcount, hfirst, hrest⟩
    have hbuilt : Built e submission c.nextRef scheduled := by
      obtain ⟨req, hbuilt, hfind⟩ := hscheduled.listed
      have hmem := Client.mem_of_find hfind
      rw [hlisted, List.mem_singleton] at hmem
      exact hmem ▸ hbuilt
    have hassembled := hbuilt.request
    rw [hpayload] at hassembled
    exact renegotiates_of_fetching
      { library := hz
        extensible := ⟨hassembled, delta_le_of_assembled hz.writing hz.order hassembled,
          offset_ne_zero hz.header hbuilt, hroom⟩
        asks := hasks, serves := hserves, larger := hlarger, szx_lt := hszx, long := hlong
        truncated := htruncated, count_pos := hcount, first := hfirst, rest := hrest }
      hclock (fetching_of_submit hwf hok hobserve (by omega) hlisted hbuilt)

end Submitted

/-! ## A hundred bytes through a small buffer

The receive buffer has 48 bytes, of which an answer needs 16 for its head. A client with this
buffer expects blocks of 32 bytes, and the server below has blocks of 64. -/

/-- A client that asks for every block and has a receive buffer of 48 bytes. -/
def Env.smallBuffer : Env Unit Unit :=
  { Env.reading with config := { Env.reading.config with rxBufferLen := 48 } }

/-- Bytes as a token of full length. -/
def fullToken (bytes : List UInt8) : Token :=
  let token := (bytes ++ List.replicate tokenMaxLen 0).take tokenMaxLen
  if h : token.length ≤ tokenMaxLen then ⟨token, h⟩ else firstToken

/-- An acknowledgement with code 2.05, before its options. -/
def contentAck (token : Token) : RxPacket where
  type := .ack
  code := 69
  id := 0
  token := token
  options := []
  payload := []

/-- The acknowledgement with a block. -/
def blockAck (token : Token) (value : ℕ) (payload : List UInt8) : RxPacket :=
  { contentAck token with options := [(.block2, value)], payload := payload }

/-- What follows the header of an answer: a Block2 option of one byte, and the payload after
its marker, which must not be empty. -/
def parseBlock (token : Token) : List UInt8 → Except ℤ RxPacket
  | [] => .ok (contentAck token)
  | [_, _, value] => .ok (blockAck token value.toNat [])
  | _ :: _ :: value :: _ :: byte :: rest => .ok (blockAck token value.toNat (byte :: rest))
  | _ => .error (-Errno.einval)

/-- A parser for the answers of the server below. -/
def contentReceiver : Receiver where
  coapPacketParse bytes :=
    if bytes.take 4 = [104, 69, 0, 0] ∧ Zephyr.headerLen ≤ bytes.length then
      parseBlock (fullToken (bytes.drop 4)) (bytes.drop Zephyr.headerLen)
    else .error (-Errno.einval)
  goliothAckPacket _ := 0
  recvUseMsgTrunc := true

/-- A hundred bytes, in blocks of 64 unless something smaller is asked for. -/
def hundredBytes : List UInt8 := (List.range 100).map UInt8.ofNat

/-- The block of the hundred bytes with a number. -/
def blockOfHundred (token : Token) (num szx : ℕ) : RxPacket :=
  blockAck token
    (blockValue num (decide ((num + 1) * coapBlockSizeToBytes szx < hundredBytes.length)) szx)
    ((hundredBytes.drop (num * coapBlockSizeToBytes szx)).take (coapBlockSizeToBytes szx))

/-- The head of an answer with a Block2 option. -/
def blockHead (token : Token) (value : ℕ) : List UInt8 :=
  Zephyr.headerBytes .ack token 69 0 ++ [0xD1, 10, UInt8.ofNat value, 0xFF]

/-- The server. -/
def hundredServer (data : List UInt8) : List UInt8 :=
  let asked := (Reference.named data).getD (0, 2)
  let rx := blockOfHundred (fullToken (requestToken data)) asked.1 asked.2
  blockHead rx.token (coapGetOptionInt rx .block2).toNat ++ rx.payload

section HundredBytes

theorem length_fullToken (bytes : List UInt8) : (fullToken bytes).1.length = tokenMaxLen := by
  have hlen : ((bytes ++ List.replicate tokenMaxLen 0).take tokenMaxLen).length = tokenMaxLen := by
    rw [List.length_take, List.length_append, List.length_replicate]
    omega
  rw [fullToken, dif_pos hlen.le]
  exact hlen

theorem fullToken_append {bytes : List UInt8} (h : bytes.length = tokenMaxLen)
    (rest : List UInt8) : (fullToken (bytes ++ rest)).1 = bytes := by
  have htake : ((bytes ++ rest) ++ List.replicate tokenMaxLen 0).take tokenMaxLen = bytes := by
    rw [List.append_assoc, ← h]
    exact List.take_left
  rw [fullToken, dif_pos (by rw [htake]; exact h.le)]
  exact htake

private theorem parse_header (token : Token) (h : token.1.length = tokenMaxLen)
    (rest : List UInt8) :
    contentReceiver.coapPacketParse (Zephyr.headerBytes .ack token 69 0 ++ rest) =
      parseBlock token rest := by
  have hfirst : UInt8.ofNat (64 + 16 * MsgType.ack.bits + token.1.length) = 104 := by
    rw [h]
    rfl
  have hbytes : Zephyr.headerBytes .ack token 69 0 ++ rest =
      104 :: 69 :: 0 :: 0 :: (token.1 ++ rest) := by
    rw [Zephyr.headerBytes, hfirst]
    rfl
  have htoken : fullToken (token.1 ++ rest) = token := Subtype.ext (fullToken_append h rest)
  have hrest : (token.1 ++ rest).drop tokenMaxLen = rest := List.drop_left' h
  have hlong : Zephyr.headerLen ≤ (104 :: 69 :: 0 :: 0 :: (token.1 ++ rest)).length := by
    simp only [List.length_cons, List.length_append, h, Zephyr.headerLen]
    omega
  rw [hbytes]
  change (if _ ∧ Zephyr.headerLen ≤ _ then parseBlock (fullToken (token.1 ++ rest))
    ((token.1 ++ rest).drop tokenMaxLen) else _) = _
  rw [if_pos ⟨rfl, hlong⟩, htoken, hrest]

private theorem parse_short {bytes : List UInt8} (h : bytes.length < Zephyr.headerLen) :
    contentReceiver.coapPacketParse bytes = .error (-Errno.einval) :=
  if_neg fun hwhole => absurd hwhole.2 (not_le.mpr h)

private theorem parseBlock_value (token : Token) {value : ℕ} (hvalue : value < 256)
    {payload : List UInt8} (hpayload : payload ≠ []) :
    parseBlock token ([0xD1, 10, UInt8.ofNat value, 0xFF] ++ payload) =
      .ok (blockAck token value payload) := by
  have hread : (UInt8.ofNat value).toNat = value := UInt8.toNat_ofNat_of_lt' hvalue
  obtain ⟨byte, rest, rfl⟩ := List.exists_cons_of_ne_nil hpayload
  change Except.ok (blockAck token (UInt8.ofNat value).toNat (byte :: rest)) = _
  rw [hread]

private theorem carries_blockAck {token : Token} (h : token.1.length = tokenMaxLen) {value : ℕ}
    (hvalue : value < 256) {payload : List UInt8} (hpayload : payload ≠ []) :
    Carries contentReceiver (blockHead token value) (blockAck token value payload) := by
  have hlen : (Zephyr.headerBytes .ack token 69 0).length = 12 := by
    simp [Zephyr.headerBytes, h, tokenMaxLen]
  have hhead : (blockHead token value).length = 16 := by simp [blockHead, hlen]
  refine ⟨List.prefix_append _ _, by omega, fun room hroom => ?_, fun room hroom rx' hparse => ?_⟩
  · -- the marker is followed by part of the payload
    have hlt : (blockHead token value).length < room :=
      hroom.resolve_right fun hempty => hpayload hempty.1
    have hpart : payload.take (room - (blockHead token value).length) ≠ [] := by
      rw [ne_eq, List.take_eq_nil_iff]
      exact not_or.mpr ⟨by omega, hpayload⟩
    change contentReceiver.coapPacketParse ((blockHead token value ++ payload).take room) = _
    rw [List.take_append, List.take_of_length_le hlt.le, blockHead, List.append_assoc,
      parse_header token h]
    exact parseBlock_value token hvalue hpart
  · rw [hhead] at hroom
    change contentReceiver.coapPacketParse ((blockHead token value ++ payload).take room) = _
      at hparse
    rw [blockHead, List.append_assoc] at hparse
    rcases Nat.lt_or_ge room 12 with hshort | hlong
    · -- the header is not whole
      rw [parse_short ((List.length_take_le _ _).trans_lt hshort)] at hparse
      cases hparse
    · obtain ⟨n, rfl⟩ : ∃ n, room = 12 + n := ⟨room - 12, by omega⟩
      have hn : n ≤ 4 := Nat.le_of_add_le_add_left hroom
      rw [← hlen, List.take_length_add_append, parse_header token h] at hparse
      have hread : (UInt8.ofNat value).toNat = value := UInt8.toNat_ofNat_of_lt' hvalue
      obtain rfl | rfl | rfl | rfl | rfl : n = 0 ∨ n = 1 ∨ n = 2 ∨ n = 3 ∨ n = 4 := by omega
      · exact ⟨0, (Except.ok.inj hparse).symm⟩
      · cases hparse
      · cases hparse
      · have hoption := Except.ok.inj hparse
        rw [hread] at hoption
        exact ⟨1, hoption.symm⟩
      · cases hparse

private theorem isBlock_blockOfHundred (token : Token) {num : ℕ} (szx : ℕ) (hnum : num < 2 ^ 20) :
    IsBlock hundredBytes szx num (blockOfHundred token num szx) where
  success := show coapCodeToPosix 69 = 0 by decide
  num_lt := hnum
  block2 := rfl
  no_block1 := rfl
  size2 := .inl rfl
  data := rfl

private theorem serves_hundredServer :
    Serves contentReceiver Reference.named hundredBytes 2 (fun _ => 16) hundredServer := by
  intro data num size hnamed hsize hnum hstart
  have htoken := length_fullToken (requestToken data)
  have hlength : hundredBytes.length = 100 := by decide
  have hbytes : 16 ≤ coapBlockSizeToBytes size := by
    rw [coapBlockSizeToBytes, pow_add]
    exact Nat.le_mul_of_pos_left _ (Nat.two_pow_pos _)
  have hfew : num * 16 < 100 := (Nat.mul_le_mul_left num hbytes).trans_lt (hlength ▸ hstart)
  have hvalue : ∀ more, blockValue num more size < 256 := by
    intro more
    rw [blockValue]
    split <;> omega
  have hpayload : (hundredBytes.drop (num * coapBlockSizeToBytes size)).take
      (coapBlockSizeToBytes size) ≠ [] := by
    rw [ne_eq, List.take_eq_nil_iff, List.drop_eq_nil_iff]
    omega
  refine ⟨_, blockOfHundred (fullToken (requestToken data)) num size, ⟨?_,
    carries_blockAck htoken (hvalue _) hpayload, ?_, isBlock_blockOfHundred _ size hnum, rfl,
    fun hfull => ?_⟩⟩
  · rw [hundredServer, hnamed]
    rfl
  · simp [blockHead, Zephyr.headerBytes, htoken, tokenMaxLen]
  · have hpadded := fullToken_append hfull []
    rwa [List.append_nil] at hpadded

private theorem room_smallBuffer {scheduled : CoapReq Unit}
    (hlisted : (submit Env.smallBuffer (.getA () false) connectedClient).2.coapReqs = [scheduled]) :
    RoomForBlock2 Env.smallBuffer.zephyr scheduled.request 1 := by
  intro id context hsize hnum
  have hfacts : (submit Env.smallBuffer (.getA () false) connectedClient).2.coapReqs.map
      (fun req => (req.request.offset, req.request.delta, req.request.maxLen)) =
        [(16, 17, 130)] := by decide
  rw [hlisted, List.map_singleton, List.singleton_inj] at hfacts
  obtain ⟨hoffset, hfacts⟩ := Prod.mk.inj hfacts
  obtain ⟨hdelta, hmaxLen⟩ := Prod.mk.inj hfacts
  have hshort : (Reference.block2Value context).length ≤ 3 :=
    Reference.block2Contract.length_le context (by omega) (by rw [hsize]; exact hnum)
  change (Reference.coapPacketAppendOption _ .block2 (Reference.block2Value context)).1 = 0
  refine (Reference.roomContract.option_iff _ .block2 _ ?_ (by omega)).mpr ?_
  · exact hdelta.trans_le (by decide)
  · have hsix : OptionNum.block2.value - (coapPacketSetId scheduled.request id).delta = 6 := by
      rw [show (coapPacketSetId scheduled.request id).delta = 17 from hdelta]
      rfl
    have hroom : (coapPacketSetId scheduled.request id).maxLen = 130 := hmaxLen
    rw [hsix, hroom, offset_setId, hoffset, length_encode, extendedLen, extendedLen,
      if_pos (by omega), if_pos (by omega)]
    omega

theorem renegotiates_iff_hundredBytes :
    Renegotiates Env.smallBuffer contentReceiver hundredServer hundredBytes 0
      (submit Env.smallBuffer (.getA () false) connectedClient).2 := by
  have hreach : Reachable Env.smallBuffer () connectedClient := ⟨[.onConnect], .single rfl⟩
  have hone : (submit Env.smallBuffer (.getA () false) connectedClient).2.coapReqs.length = 1 := by
    decide
  obtain ⟨scheduled, hlisted⟩ := List.length_eq_one_iff.mp hone
  have hz : TransferContract Env.smallBuffer.zephyr Reference.named Reference.block2Value :=
    { header := Reference.headerContract, writing := Reference.writingContract
      order := Reference.orderContract, block2 := Reference.block2Contract
      naming := Reference.namingContract, update := Reference.updateContract
      accept := Reference.acceptContract, next := Reference.nextBlockContract }
  have hasks : ∀ rsp, rsp.getNext = true →
      Asks false (Env.smallBuffer.callback (Submission.getA () false).cb rsp) := by
    intro rsp hnext
    change Asks false (if rsp.getNext then .call (.getNext 0) fun _ => .ret 0 else .ret 0)
    rw [if_pos hnext]
    exact .getNext 0 .ret
  have hclock : ∀ reading, FitsClock
      (initAckTimeout Env.smallBuffer.config (Env.smallBuffer.sysRand32Get reading)).toNat :=
    fun _ => show FitsClock 2000 from ⟨by decide, by decide⟩
  refine (renegotiates_iff hz hclock hreach (by decide) rfl rfl hlisted (room_smallBuffer hlisted)
    hasks serves_hundredServer (by decide) (by decide) (by decide) (by decide)).1.mpr ?_
  refine ⟨1, Nat.one_pos, by decide, fun num hge hlt => ?_⟩
  have hlength : hundredBytes.length = 100 := by decide
  have hsize : coapBlockSizeToBytes
      (goliothEstimatedCoapBlockSize Env.smallBuffer.config.rxBufferLen) = 32 := by decide
  have hbuffer : Env.smallBuffer.config.rxBufferLen = 48 := rfl
  rw [hlength, hsize] at hlt
  rw [hlength, hsize, hbuffer]
  dsimp only
  omega

end HundredBytes

end Golioth.Requests
