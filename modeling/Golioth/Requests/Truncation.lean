/-
# Truncated blocks

The blocks of a server may be larger than the receive buffer, and then its first answer
is cut. The client does not know, takes what has arrived for the block, and asks for the
block of its own size that the offset it has reached lies in. A transfer without losses
is followed here: a poll sends the packet of the request, the server answers it, and what
fits of the answer is processed. The invariant says which offsets such a transfer gets to.
-/
import Golioth.Requests.Receiving

namespace Golioth.Requests

open Golioth.Coap

variable {κ σ : Type} {e : Env κ σ} {c d : Client κ σ} {ref : ℕ} {req : CoapReq κ}
  {rx : RxPacket}

/-! ## Transfers without losses -/

/-- The token of a request, as a server reads it. -/
def requestToken (data : List UInt8) : List UInt8 :=
  (data.drop 4).take ((data.getD 0 0).toNat % 16)

/-- A datagram answers a request with a block. How long the head is that comes before the
payload depends on what the request names. -/
structure AnsweredBy (r : Receiver) (named : List UInt8 → Option (ℕ × ℕ)) (payload : List UInt8)
    (headLen : Option (ℕ × ℕ) → ℕ) (szx num : ℕ) (data answer head : List UInt8) (rx : RxPacket) :
    Prop where
  datagram : answer = head ++ rx.payload
  carries : Carries r head rx
  length_head : head.length = headLen (named data)
  block : IsBlock payload szx num rx
  no_observe : coapGetOptionInt rx .observe = -Errno.enoent
  token : (requestToken data).length = tokenMaxLen → rx.token.1 = requestToken data

/-- An honest server: it answers with the block that a request names, in the size it names,
or with the first block in the size of the server. -/
def Serves (r : Receiver) (named : List UInt8 → Option (ℕ × ℕ)) (payload : List UInt8) (szx : ℕ)
    (headLen : Option (ℕ × ℕ) → ℕ) (server : List UInt8 → List UInt8) : Prop :=
  ∀ data num size, (named data).getD (0, szx) = (num, size) → size ≤ szx → num < 2 ^ 20 →
    num * coapBlockSizeToBytes size < payload.length →
      ∃ head rx, AnsweredBy r named payload headLen size num data (server data) head rx

/-- A poll sends the packet of a request, and the answer to it is processed. -/
def Exchange (e : Env κ σ) (r : Receiver) (server : List UInt8 → List UInt8) (ref : ℕ)
    (c d : Client κ σ) : Prop :=
  ∃ now visits c₁ data, Step e (.pollPrepare now visits) c c₁ ∧
    c₁.history ref = c.history ref ++ [.sent ref data] ∧
    d = (goliothProcessRx e r (server data) c₁).2

/-- The states a transfer without losses gets to. -/
def Lossless (e : Env κ σ) (r : Receiver) (server : List UInt8 → List UInt8) (ref : ℕ) :
    Client κ σ → Client κ σ → Prop :=
  Relation.ReflTransGen (Exchange e r server ref)

/-- All of a payload has been handed over in order, without an error, and the request is
gone. -/
structure Delivered (payload : List UInt8) (ref : ℕ) (c : Client κ σ) : Prop where
  gone : c.find ref = none
  succeeded : ∀ rsp ∈ invocations (c.history ref), rsp.err = 0
  consecutive : CS.Pieces.Consecutive payload 0 (pieces (successes (c.history ref)))
  complete : CS.Pieces.join (pieces (successes (c.history ref))) = payload

/-- In a transfer without losses every answer is accepted, and brings more of the payload;
and however far it has got, it can go on to the end. -/
structure Renegotiates (e : Env κ σ) (r : Receiver) (server : List UInt8 → List UInt8)
    (payload : List UInt8) (ref : ℕ) (c : Client κ σ) : Prop where
  accepted : ∀ d d', Lossless e r server ref c d → Exchange e r server ref d d' →
    progress (d.history ref) < progress (d'.history ref)
  completes : ∀ d, Lossless e r server ref c d →
    ∃ d', Lossless e r server ref d d' ∧ Delivered payload ref d'

/-! ## The offsets that are reached -/

/-- How much of a block fits in the receive buffer when it is asked for. -/
def fittingLen (rxBufferLen : ℕ) (headLen : Option (ℕ × ℕ) → ℕ) (blockSize length num : ℕ) : ℕ :=
  min (rxBufferLen - headLen (some (num, blockSize)))
    (min (coapBlockSizeToBytes blockSize) (length - num * coapBlockSizeToBytes blockSize))

/-- The offsets a transfer gets to whose first answer is cut. A block that is asked for
later starts at the offset that has been reached, or has been had in part. -/
inductive Reached (rxBufferLen : ℕ) (headLen : Option (ℕ × ℕ) → ℕ) (blockSize length : ℕ) : ℕ → Prop
  | start : Reached rxBufferLen headLen blockSize length 0
  | first : Reached rxBufferLen headLen blockSize length (rxBufferLen - headLen none)
  | next (num : ℕ) : 0 < num → num < 2 ^ 20 →
      Reached rxBufferLen headLen blockSize length (num * coapBlockSizeToBytes blockSize) →
      Reached rxBufferLen headLen blockSize length (num * coapBlockSizeToBytes blockSize +
        fittingLen rxBufferLen headLen blockSize length num)

/-- The first answer is cut where a block of the client ends, and every block after that
can be named and fits in the receive buffer. -/
def CutsAtBlock (rxBufferLen : ℕ) (headLen : Option (ℕ × ℕ) → ℕ) (blockSize length : ℕ) : Prop :=
  ∃ count, 0 < count ∧ rxBufferLen = headLen none + count * coapBlockSizeToBytes blockSize ∧
    ∀ num, count ≤ num → num * coapBlockSizeToBytes blockSize < length →
      num < 2 ^ 20 ∧ headLen (some (num, blockSize)) +
        min (coapBlockSizeToBytes blockSize) (length - num * coapBlockSizeToBytes blockSize) ≤
          rxBufferLen

section Offsets

variable {rxBufferLen blockSize length offset : ℕ} {headLen : Option (ℕ × ℕ) → ℕ}

/-- Past the first answer a transfer is at the end of a block of which all blocks before,
from the first answer on, have been had whole. -/
private theorem Reached.cases (h : Reached rxBufferLen headLen blockSize length offset) :
    offset = 0 ∨ offset = rxBufferLen - headLen none ∨
      ∃ count num, 0 < count ∧
        rxBufferLen - headLen none = count * coapBlockSizeToBytes blockSize ∧ count ≤ num ∧
        num < 2 ^ 20 ∧
        (∀ before, count ≤ before → before < num →
          fittingLen rxBufferLen headLen blockSize length before = coapBlockSizeToBytes blockSize) ∧
        offset = num * coapBlockSizeToBytes blockSize +
          fittingLen rxBufferLen headLen blockSize length num := by
  have hbytes : 0 < coapBlockSizeToBytes blockSize := Nat.two_pow_pos _
  induction h with
  | start => exact .inl rfl
  | first => exact .inr (.inl rfl)
  | next num hpos hnum _ ih =>
    refine .inr (.inr ?_)
    rcases ih with hzero | hfirst | ⟨count, last, hcount, hcut, hle, hlast, hwhole, hhere⟩
    · exact absurd hzero (Nat.mul_pos hpos hbytes).ne'
    · exact ⟨num, num, hpos, hfirst.symm, le_rfl, hnum, fun _ hge hlt => by omega, rfl⟩
    · by_cases hfits : fittingLen rxBufferLen headLen blockSize length last =
          coapBlockSizeToBytes blockSize
      · -- the last block has been had whole, and the next one is asked for
        have hnext : num = last + 1 := by
          rw [hfits, ← Nat.succ_mul] at hhere
          exact Nat.eq_of_mul_eq_mul_right hbytes hhere
        subst hnext
        refine ⟨count, last + 1, hcount, hcut, hle.trans (Nat.le_succ _), hnum, ?_, rfl⟩
        intro before hge hlt
        rcases Nat.lt_succ_iff_lt_or_eq.mp hlt with hlt | rfl
        · exact hwhole before hge hlt
        · exact hfits
      · -- nothing of the last block has been had, and it is asked for once more
        have hless : fittingLen rxBufferLen headLen blockSize length last <
            coapBlockSizeToBytes blockSize :=
          lt_of_le_of_ne ((min_le_right _ _).trans (min_le_left _ _)) hfits
        have hsame : num = last := by
          have hdiv := congrArg (· / coapBlockSizeToBytes blockSize) hhere
          rwa [Nat.mul_div_cancel _ hbytes, Nat.add_comm, Nat.add_mul_div_right _ _ hbytes,
            Nat.div_eq_of_lt hless, Nat.zero_add] at hdiv
        subst hsame
        exact ⟨count, num, hcount, hcut, hle, hnum, hwhole, rfl⟩

/-- A transfer that gets to the end of the payload has its first answer cut at the end of
a block. -/
theorem cutsAtBlock_of_reached (hcut : rxBufferLen - headLen none < length)
    (h : Reached rxBufferLen headLen blockSize length length) :
    CutsAtBlock rxBufferLen headLen blockSize length := by
  have hbytes : 0 < coapBlockSizeToBytes blockSize := Nat.two_pow_pos _
  rcases h.cases with hzero | hfirst | ⟨count, last, hcount, hfirst, hle, hlast, hwhole, hend⟩
  · omega
  · omega
  · have hpos := Nat.mul_pos hcount hbytes
    refine ⟨count, hcount, by omega, fun num hge hlt => ?_⟩
    rcases Nat.lt_trichotomy num last with hbefore | rfl | hafter
    · have hfits := hwhole num hge hbefore
      rw [fittingLen] at hfits
      exact ⟨hbefore.trans hlast, by omega⟩
    · rw [fittingLen] at hend
      exact ⟨hlast, by omega⟩
    · -- a block after the last one begins past the end
      have hmul := Nat.mul_le_mul_right (coapBlockSizeToBytes blockSize) (Nat.succ_le_of_lt hafter)
      rw [Nat.succ_mul] at hmul
      rw [fittingLen] at hend
      omega

end Offsets

section Transfer

variable (named : List UInt8 → Option (ℕ × ℕ)) (payload : List UInt8)

/-- A packet names no block, or the block that an offset lies in which had been reached
when it was made. -/
def AsksWithin (blockSize offset : ℕ) (data : List UInt8) : Prop :=
  named data = none ∨ ∃ earlier, 0 < earlier ∧ earlier ≤ offset ∧ earlier < payload.length ∧
    earlier / coapBlockSizeToBytes blockSize < 2 ^ 20 ∧
    named data = some (earlier / coapBlockSizeToBytes blockSize, blockSize)

/-- **The invariant of a transfer whose answers are cut.** -/
structure CutTransfer (e : Env κ σ) (headLen : Option (ℕ × ℕ) → ℕ) (ref : ℕ)
    (listed : Option (CoapReq κ)) (events : List Event) : Prop where
  reached : Reached e.config.rxBufferLen headLen
    (goliothEstimatedCoapBlockSize e.config.rxBufferLen) payload.length (progress events)
  fetched : ∀ req, listed = some req →
    Fetched e payload (progress events) req ∧ progress events < payload.length ∧
      Based e.zephyr req.request req.requestWoBlock2 ∧
      AsksWithin named payload (goliothEstimatedCoapBlockSize e.config.rxBufferLen)
        (progress events) req.request.data
  sent : ∀ data, .sent ref data ∈ events →
    AsksWithin named payload (goliothEstimatedCoapBlockSize e.config.rxBufferLen)
      (progress events) data

end Transfer

section Cut

variable {r : Receiver} {named : List UInt8 → Option (ℕ × ℕ)} {payload : List UInt8} {szx : ℕ}
  {headLen : Option (ℕ × ℕ) → ℕ} {server : List UInt8 → List UInt8} {offset later : ℕ}
  {data : List UInt8} {events : List Event}

theorem AsksWithin.mono {blockSize : ℕ} (h : AsksWithin named payload blockSize offset data)
    (hle : offset ≤ later) : AsksWithin named payload blockSize later data := by
  refine h.imp_right ?_
  rintro ⟨earlier, hpos, hearlier, hrest⟩
  exact ⟨earlier, hpos, hearlier.trans hle, hrest⟩

theorem Fetched.congr {req' : CoapReq κ} (h : Fetched e payload offset req)
    (hobserve : req'.isObserve = req.isObserve) (hctx : req'.blockCtx = req.blockCtx) :
    Fetched e payload offset req' :=
  ⟨hobserve.trans h.isObserve, hctx ▸ h.current, hctx ▸ h.blockSize, hctx ▸ h.totalSize⟩

theorem CutBlock.length_payload {szx num room : ℕ} (h : CutBlock payload szx num room rx) :
    rx.payload.length = min room
      (min (coapBlockSizeToBytes szx) (payload.length - num * coapBlockSizeToBytes szx)) := by
  rw [h.data, List.length_take, List.length_take, List.length_drop]

/-- The block a packet is answered with starts no later than at the offset reached; if it
starts there, what fits of it leads to an offset of the transfer. -/
theorem AsksWithin.answer (hlarger : goliothEstimatedCoapBlockSize e.config.rxBufferLen < szx)
    (hlong : coapBlockSizeToBytes szx < payload.length)
    (htruncated : e.config.rxBufferLen < headLen none + coapBlockSizeToBytes szx)
    (h : AsksWithin named payload (goliothEstimatedCoapBlockSize e.config.rxBufferLen) offset data)
    (hreached : Reached e.config.rxBufferLen headLen
      (goliothEstimatedCoapBlockSize e.config.rxBufferLen) payload.length offset) :
    ∃ num size, (named data).getD (0, szx) = (num, size) ∧ size ≤ szx ∧ num < 2 ^ 20 ∧
      goliothEstimatedCoapBlockSize e.config.rxBufferLen ≤ size ∧
      num * coapBlockSizeToBytes size < payload.length ∧
      num * coapBlockSizeToBytes size ≤ offset ∧
      ∀ rx, CutBlock payload size num (e.config.rxBufferLen - headLen (named data)) rx →
        num * coapBlockSizeToBytes size = offset →
          Reached e.config.rxBufferLen headLen
            (goliothEstimatedCoapBlockSize e.config.rxBufferLen) payload.length
            (offset + rx.payload.length) := by
  rcases h with hnone | ⟨earlier, hpos, hearlier, hlt, hnum, hnamed⟩
  · refine ⟨0, szx, by rw [hnone]; rfl, le_rfl, by decide, hlarger.le, by omega, by omega, ?_⟩
    intro rx hcut hhere
    have hlength := hcut.length_payload
    rw [hnone] at hlength
    have hpart : offset + rx.payload.length = e.config.rxBufferLen - headLen none := by omega
    rw [hpart]
    exact .first
  · generalize hsize : goliothEstimatedCoapBlockSize e.config.rxBufferLen = size at *
    have hstart := Nat.div_mul_le_self earlier (coapBlockSizeToBytes size)
    refine ⟨earlier / coapBlockSizeToBytes size, size, by rw [hnamed]; rfl, hlarger.le, hnum,
      le_rfl, by omega, by omega, ?_⟩
    intro rx hcut hhere
    have hpositive : 0 < earlier / coapBlockSizeToBytes size := by
      refine Nat.pos_of_ne_zero fun hzero => ?_
      rw [hzero, Nat.zero_mul] at hhere
      omega
    rw [hcut.length_payload, hnamed, ← hhere]
    exact .next _ hpositive hnum (hhere ▸ hreached)

/-! ## The invariant -/

private theorem progress_append_quiet {rest : List Event} (hquiet : successes rest = []) :
    progress (events ++ rest) = progress events := by
  rw [progress, successes_append, hquiet, List.append_nil, progress]

private theorem progress_append_one {rest : List Event} {rsp : Rsp}
    (hone : successes rest = [rsp]) :
    progress (events ++ rest) = progress events + rsp.data.length := by
  rw [progress, successes_append, hone]
  simp [progress, pieces, CS.Pieces.join]

private theorem successes_failed {rsp : Rsp} (herr : rsp.err ≠ 0) (ret : ℤ) :
    successes [.called ref rsp, .returned ref rsp ret, .freed ref] = [] := by
  simp [successes, invocations, herr]

private theorem keeps_cutTransfer :
    Keeps (CutTransfer (κ := κ) named payload e headLen ref) ref where
  rearm req events pending h := by
    refine { h with fetched := fun req' hreq' => ?_ }
    obtain rfl := Option.some_inj.mp hreq'
    obtain ⟨hfetched, hrest⟩ := h.fetched req rfl
    exact ⟨hfetched.congr rfl rfl, hrest⟩
  note req events reply h := by
    refine { h with fetched := fun req' hreq' => ?_ }
    obtain rfl := Option.some_inj.mp hreq'
    obtain ⟨hfetched, hrest⟩ := h.fetched req rfl
    exact ⟨hfetched.congr rfl rfl, hrest⟩
  send req events h := by
    have hsame : progress (events ++ [.sent ref req.request.data]) = progress events :=
      progress_append_quiet rfl
    refine ⟨hsame ▸ h.reached, hsame ▸ h.fetched, fun data hsent => ?_⟩
    rw [hsame]
    rcases List.mem_append.mp hsent with hsent | hsent
    · exact h.sent data hsent
    · obtain ⟨-, rfl⟩ := Event.sent.inj (List.mem_singleton.mp hsent)
      exact (h.fetched req rfl).2.2.2
  close req events rsp ret herr _ h := by
    have hsame : progress (events ++ [.called ref rsp, .returned ref rsp ret, .freed ref]) =
        progress events := progress_append_quiet (successes_failed herr ret)
    refine ⟨hsame ▸ h.reached, fun _ hnone => (by cases hnone), fun data hsent => ?_⟩
    rw [hsame]
    exact h.sent data (by simpa using hsent)

/-- What a request that is listed asks for after a call for the next block. -/
private theorem asks_prepareNextBlock (hheader : e.zephyr.HeaderContract)
    (hnaming : NamingContract e.zephyr named) (hfetched : Fetched e payload offset req)
    (hpos : 0 < offset) (hlt : offset < payload.length)
    (hbased : Based e.zephyr req.request req.requestWoBlock2) (id : UInt16) (uptime : ℤ) :
    Based e.zephyr (coapReqPrepareNextBlock e.zephyr id uptime req).2.request
        (coapReqPrepareNextBlock e.zephyr id uptime req).2.requestWoBlock2 ∧
      AsksWithin named payload (goliothEstimatedCoapBlockSize e.config.rxBufferLen) offset
        (coapReqPrepareNextBlock e.zephyr id uptime req).2.request.data := by
  obtain ⟨base, hassembled, hrequest, hcopy⟩ := based_prepareNextBlock hheader hbased id uptime
  refine ⟨.copied base hassembled hcopy (hrequest ▸ hnaming.keeps base _ hassembled), ?_⟩
  have hsize : req.blockCtx.blockSize < 7 := hfetched.blockSize ▸ estimatedBlockSize_lt _
  rw [hrequest]
  by_cases hok : (e.zephyr.coapAppendBlock2Option base req.blockCtx).1 = 0
  · by_cases hnum : req.blockCtx.current / coapBlockSizeToBytes req.blockCtx.blockSize < 2 ^ 20
    · have hnamed := hnaming.appended base req.blockCtx hassembled hsize hnum hok
      rw [hfetched.current, hfetched.blockSize] at hnum hnamed
      exact .inr ⟨offset, hpos, le_rfl, hlt, hnum, hnamed⟩
    · exact .inl (hnaming.tooLong base req.blockCtx hassembled (not_lt.mp hnum) hok)
  · exact .inl (hnaming.failed base req.blockCtx hassembled hok)

private theorem asks_prepared (hheader : e.zephyr.HeaderContract)
    (hnaming : NamingContract e.zephyr named) (hfetched : Fetched e payload offset req)
    (hpos : 0 < offset) (hlt : offset < payload.length)
    (hbased : Based e.zephyr req.request req.requestWoBlock2)
    (hasks : AsksWithin named payload (goliothEstimatedCoapBlockSize e.config.rxBufferLen) offset
      req.request.data) {req' : CoapReq κ} (hprepared : Prepared e.zephyr req req') :
    Fetched e payload offset req' ∧ Based e.zephyr req'.request req'.requestWoBlock2 ∧
      AsksWithin named payload (goliothEstimatedCoapBlockSize e.config.rxBufferLen) offset
        req'.request.data := by
  induction hprepared with
  | refl => exact ⟨hfetched, hbased, hasks⟩
  | @tail req₁ _ _ hstep ih =>
    obtain ⟨-, id, uptime, rfl⟩ := hstep
    obtain ⟨hfetched, hbased, -⟩ := ih
    have hsame := sameRequest_prepareNextBlock e.zephyr id uptime req₁
    exact ⟨hfetched.congr hsame.isObserve hsame.blockCtx,
      asks_prepareNextBlock hheader hnaming hfetched hpos hlt hbased id uptime⟩

/-- **Response.** What is handed to the callback of an answer leads to an offset of the
transfer. -/
private theorem survives_of_cutOutcome (hheader : e.zephyr.HeaderContract)
    (hnaming : NamingContract e.zephyr named) {size num : ℕ} {v : Verdict}
    (hlength : rx.payload.length ≤ coapBlockSizeToBytes size)
    (hreached : num * coapBlockSizeToBytes size = progress events →
      Reached e.config.rxBufferLen headLen (goliothEstimatedCoapBlockSize e.config.rxBufferLen)
        payload.length (progress events + rx.payload.length))
    (houtcome : ∀ reply, Fetched e payload (progress events) { req with reply := reply } →
      CutOutcome e payload size num (progress events) { req with reply := reply } rx v) :
    Survives e (CutTransfer named payload e headLen ref) ref req events v := by
  intro c reply hwf hfind hhistory h
  obtain ⟨hfetched, hlt, hbased, hasks⟩ := h.fetched _ rfl
  have houtcome := houtcome reply hfetched
  generalize { req with reply := reply } = req at *
  subst hhistory
  cases houtcome with
  | rejected blockCtx _ =>
    -- the callback is told the error and the request is freed: no progress
    have herr : Rsp.err { userData := req.userData, err := -Errno.ebadmsg } ≠ 0 :=
      show -Errno.ebadmsg ≠ 0 by decide
    have hlast : Rsp.getNext { userData := req.userData, err := -Errno.ebadmsg } = false := rfl
    obtain ⟨ret, hhistory, hgone⟩ := carryOut_deliver (e := e) hwf hfind blockCtx
      (-Errno.ebadmsg) hlast
    rw [if_neg fun h => herr h.2] at hhistory hgone
    rw [hgone, hhistory]
    exact keeps_cutTransfer.close req _ _ ret herr rfl h
  | stale blockCtx _ hstale =>
    obtain ⟨hkept, hlog⟩ := carryOut_ignore (e := e) hfind blockCtx
    rw [hkept, Client.history, hlog]
    refine ⟨h.reached, fun req' hreq' => ?_, h.sent⟩
    obtain rfl := Option.some_inj.mp hreq'
    exact ⟨hstale, hlt, hbased, hasks⟩
  | last blockCtx rsp herr hlast hdata hend =>
    obtain ⟨ret, hhistory, hgone⟩ := carryOut_deliver (e := e) hwf hfind blockCtx 0 hlast
    -- the request is freed after its callback has seen the last piece
    have hplain : ¬ (req.isObserve = true ∧ (0 : ℤ) = 0) := by simp [hfetched.isObserve]
    rw [if_neg hplain] at hhistory hgone
    have hprogress : progress (c.history ref ++ [.called ref rsp, .returned ref rsp ret,
        .freed ref]) = progress (c.history ref) + rx.payload.length := by
      rw [← hdata]
      exact progress_append_one (by simp [successes, invocations, herr])
    rw [hgone, hhistory]
    refine ⟨?_, fun _ hnone => (by cases hnone), fun data hsent => ?_⟩
    · rw [hprogress]
      rcases hend with hnothing | ⟨hhere, -, -⟩
      · rw [hnothing]
        exact h.reached
      · exact hreached hhere
    · rw [hprogress]
      exact (h.sent data (by simpa using hsent)).mono (Nat.le_add_right _ _)
  | more blockCtx rsp herr hnext hdata hhere _ hrest hpos hnew =>
    obtain ⟨ret, req', hprepared, -, hhistory, hkept⟩ := carryOut_offer (e := e) hwf hfind
      hfetched.isObserve blockCtx rsp
    have hprogress : progress (c.history ref ++ (.called ref rsp :: .returned ref rsp ret ::
        if ret ≠ 0 then [.freed ref] else [])) =
        progress (c.history ref) + rx.payload.length := by
      rw [← hdata]
      exact progress_append_one (by split <;> simp [successes, invocations, herr])
    -- the packet now asks for the block at the new offset, unless the callback failed
    have hlt' : progress (c.history ref) + rx.payload.length < payload.length := by omega
    rw [hkept, hhistory]
    refine ⟨hprogress ▸ hreached hhere, fun req'' hreq'' => ?_, fun data hsent => ?_⟩
    · split at hreq''
      · cases hreq''
      · obtain rfl := Option.some_inj.mp hreq''
        obtain ⟨hfetched', hbased', hasks'⟩ := asks_prepared hheader hnaming hnew hpos hlt'
          hbased (hasks.mono (Nat.le_add_right _ _)) hprepared
        rw [hprogress]
        exact ⟨hfetched', hlt', hbased', hasks'⟩
    · rw [hprogress]
      have hold : .sent ref data ∈ c.history ref := by
        rcases List.mem_append.mp hsent with hsent | hsent
        · exact hsent
        · split at hsent <;> simp at hsent
      exact (h.sent data hold).mono (Nat.le_add_right _ _)

/-- **Exchange.** A packet that is sent and answered keeps the invariant. -/
private theorem cutTransfer_exchange (hheader : e.zephyr.HeaderContract)
    (hupdate : e.zephyr.UpdateContract) (hnext : e.zephyr.NextBlockContract)
    (hnaming : NamingContract e.zephyr named) (hserves : Serves r named payload szx headLen server)
    (hlarger : goliothEstimatedCoapBlockSize e.config.rxBufferLen < szx) (hszx : szx < 7)
    (hlong : coapBlockSizeToBytes szx < payload.length)
    (htruncated : e.config.rxBufferLen < headLen none + coapBlockSizeToBytes szx)
    (h : Follows (CutTransfer named payload e headLen ref) ref c)
    (hexchange : Exchange e r server ref c d) :
    Follows (CutTransfer named payload e headLen ref) ref d := by
  obtain ⟨now, visits, c₁, data, hpoll, hhistory, rfl⟩ := hexchange
  have h₁ : Follows (CutTransfer named payload e headLen ref) ref c₁ := by
    refine h.step keeps_cutTransfer (fun rx req hop => ?_) hpoll
    cases hop
  have hasks := h₁.holds.sent data (by simp [hhistory])
  obtain ⟨num, size, hnamed, hsize, hnum, hlarge, hstart, hasked, hreached⟩ :=
    hasks.answer hlarger hlong htruncated h₁.holds.reached
  obtain ⟨head, rx, hanswer⟩ := hserves data num size hnamed hsize hnum hstart
  rw [hanswer.datagram]
  rcases goliothProcessRx_cases e r (head ++ rx.payload) c₁ with hsame | ⟨rx', hparse, hprocessed⟩
  · rw [hsame]
    exact h₁
  · rw [hprocessed]
    have hcut := hanswer.carries.cutBlock hanswer.block hparse
    rw [hanswer.length_head] at hcut
    refine h₁.step keeps_cutTransfer (fun rx'' req hop hanswered href => ?_)
      (show Step e (.processRx rx') c₁ _ from rfl)
    cases hop
    have hlength : rx'.payload.length ≤ coapBlockSizeToBytes size := by
      rw [hcut.length_payload]
      omega
    have hfind := find_answered h₁.wellFormed hanswered
    rw [href] at hfind
    obtain ⟨-, hlt, -⟩ := h₁.holds.fetched req hfind
    exact survives_of_cutOutcome hheader hnaming hlength (hreached rx' hcut) fun reply hfetched =>
      cutOutcome hupdate hnext (hsize.trans_lt hszx) hlarge hfetched hcut hasked hlt.le

private theorem cutTransfer_of_scheduled (hnaming : NamingContract e.zephyr named)
    (hlong : coapBlockSizeToBytes szx < payload.length) (hwf : WellFormed c)
    {submission : Submission κ} (hscheduled : Scheduled e submission ref c)
    (hobserve : submission.observe = false) (hpayload : submission.payload = false) :
    Follows (CutTransfer named payload e headLen ref) ref c := by
  obtain ⟨req, hbuilt, hfind⟩ := hscheduled.listed
  have hassembled := hbuilt.request
  rw [hpayload] at hassembled
  have hzero : progress (c.history ref) = 0 := by rw [hscheduled.history]; rfl
  refine ⟨hwf, hwf.refs_lt ref (c.mem_refs_iff.mpr ⟨req, hfind⟩), ?_, fun req' hreq' => ?_, ?_⟩
  · rw [hzero]
    exact .start
  · rw [hfind] at hreq'
    obtain rfl := Option.some_inj.mp hreq'
    rw [hzero]
    refine ⟨⟨hbuilt.isObserve.trans hobserve, ?_, ?_, .inl ?_⟩, by omega,
      .plain hassembled hbuilt.requestWoBlock2, .inl (hnaming.plain _ hassembled)⟩
    all_goals rw [hbuilt.blockCtx]; rfl
  · intro data hsent
    rw [hscheduled.history] at hsent
    simp at hsent

/-- **Run.** A transfer whose first answer is cut delivers the payload only if it is cut
at the end of a block and everything after that fits. -/
theorem cutsAtBlock_of_delivered (hheader : e.zephyr.HeaderContract)
    (hupdate : e.zephyr.UpdateContract) (hnext : e.zephyr.NextBlockContract)
    (hnaming : NamingContract e.zephyr named) (hserves : Serves r named payload szx headLen server)
    (hlarger : goliothEstimatedCoapBlockSize e.config.rxBufferLen < szx) (hszx : szx < 7)
    (hlong : coapBlockSizeToBytes szx < payload.length)
    (htruncated : e.config.rxBufferLen < headLen none + coapBlockSizeToBytes szx)
    (hwf : WellFormed c) {submission : Submission κ} (hscheduled : Scheduled e submission ref c)
    (hobserve : submission.observe = false) (hpayload : submission.payload = false)
    (hlossless : Lossless e r server ref c d) (hdelivered : Delivered payload ref d) :
    CutsAtBlock e.config.rxBufferLen headLen
      (goliothEstimatedCoapBlockSize e.config.rxBufferLen) payload.length := by
  have hfollows : Follows (CutTransfer named payload e headLen ref) ref d := by
    clear hdelivered
    induction hlossless with
    | refl => exact cutTransfer_of_scheduled hnaming hlong hwf hscheduled hobserve hpayload
    | tail _ hexchange ih =>
      exact cutTransfer_exchange hheader hupdate hnext hnaming hserves hlarger hszx hlong htruncated
        ih hexchange
  have hend : progress (d.history ref) = payload.length :=
    congrArg List.length hdelivered.complete
  refine cutsAtBlock_of_reached ?_ (hend ▸ hfollows.holds.reached)
  omega

end Cut

end Golioth.Requests
