/-
# What a call reads from an honest server

The blocks of an honest server agree with one another and with the total they announce,
so that the writes to the buffer are consecutive pieces of the value. What the buffer
holds when `golioth_lightdb_get` returns zero is then a beginning of the value, and all of
it exactly if the buffer is large enough: a value that is too long is cut without an error.
-/
import Golioth.Lightdb
import Golioth.Requests.Blockwise
import Golioth.Requests.Encoding

namespace Golioth.Lightdb

open Golioth.Coap Golioth.Requests
open CS.Pieces (Consecutive join stored)

variable {κ σ : Type} {e : Env κ σ} {c c' : Client κ σ} {ref capacity szx num : ℕ} {k : κ}
  {req : CoapReq κ} {rx : RxPacket} {payload : List UInt8}
  {named : List UInt8 → Option (ℕ × ℕ)}

/-- A call whose request is listed, or not, has read from a server that stores `payload`. It
returns when the request is gone; nothing has been written outside the buffer; and if it returns
zero, the buffer holds a beginning of the payload, of the length it reports, which is all of the
payload exactly if there was room for that. -/
structure Reads (payload : List UInt8) (capacity : ℕ) (listed : Option (CoapReq κ))
    (syncData : SyncData GetPreallocData) : Prop where
  returns : goliothLightdbGet syncData = none ↔ listed.isSome
  inside : ∀ write ∈ syncData.userData.data, write.1 + write.2.length ≤ capacity
  holds : ∀ len, goliothLightdbGet syncData = some (0, some len) →
    len ≤ min capacity payload.length ∧
      (∀ i < len, stored syncData.userData.data i = payload[i]?) ∧
      (len = payload.length ↔ payload.length ≤ capacity)

/-- The invariant of a call to an honest server. The writes are consecutive pieces of the
payload, and while the request is listed, they are all that has been handed over. -/
structure Copying (k : κ) (payload : List UInt8) (capacity : ℕ) (listed : Option (CoapReq κ))
    (events : List Event) : Prop where
  capacity_eq : (dataAfter capacity events).userData.capacity = capacity
  consecutive : Consecutive payload 0 (dataAfter capacity events).userData.data
  inside : ∀ write ∈ (dataAfter capacity events).userData.data,
    write.1 + write.2.length ≤ capacity
  room : (join (dataAfter capacity events).userData.data).length ≤ capacity
  len : (dataAfter capacity events).userData.len =
      (join (dataAfter capacity events).userData.data).length ∨
    payload.length ≤ capacity ∧ (dataAfter capacity events).userData.len = payload.length
  waiting : ∀ req, listed = some req → req.cb = some k ∧
    (dataAfter capacity events).sem = false ∧ (dataAfter capacity events).err = 0 ∧
    (dataAfter capacity events).userData.data = pieces (successes events)
  gone : listed = none → (dataAfter capacity events).sem = true
  ended : (dataAfter capacity events).sem = true → (dataAfter capacity events).err = 0 →
    (dataAfter capacity events).userData.len =
        (join (dataAfter capacity events).userData.data).length ∧
      ((dataAfter capacity events).userData.len = payload.length ↔ payload.length ≤ capacity)

/-! ## Totals -/

/-- A response without an error announces no total or the right one, and has an end that does
not overflow. -/
structure Announces (payload : List UInt8) (rsp : Rsp) : Prop where
  total : rsp.total = 0 ∨ rsp.total = payload.length
  bounded : rsp.off + rsp.data.length < sizeModulus

private theorem announces_of_block (hupdate : e.zephyr.UpdateContract)
    (hnext : e.zephyr.NextBlockContract) (hszx : szx < 7)
    (hblock : IsBlock payload szx num rx)
    (htotal : req.blockCtx.totalSize = 0 ∨ req.blockCtx.totalSize = payload.length) {rsp : Rsp}
    (hrsp : (verdict e.zephyr req rx).rsp = some rsp) (herr : rsp.err = 0)
    (hwithin : num * coapBlockSizeToBytes szx ≤ payload.length) : Announces payload rsp := by
  have hblock2 := hblock.part.block2_ne
  have hsize : coapBlockSizeToBytes szx ≤ 2 ^ 10 :=
    Nat.pow_le_pow_right (by decide) (by omega)
  have hstart : num * coapBlockSizeToBytes szx ≤ 2 ^ 20 * 2 ^ 10 :=
    Nat.mul_le_mul hblock.num_lt.le hsize
  have hlength : rx.payload.length ≤ coapBlockSizeToBytes szx := by
    rw [hblock.data]
    exact List.length_take_le _ _
  have hbounded : num * coapBlockSizeToBytes szx + rx.payload.length < sizeModulus := by
    rw [sizeModulus]
    omega
  by_cases hok : (e.zephyr.coapUpdateFromBlock rx req.blockCtx).1 = 0
  · obtain ⟨total, hknown, hctx⟩ := update_of_block hupdate hszx hblock.part hok htotal
    obtain ⟨hadvanced, -⟩ := next_of_block hnext hszx hblock.part
      ⟨total, num * coapBlockSizeToBytes szx, min szx req.blockCtx.blockSize⟩ rfl hwithin hknown
    simp only [verdict, blockVerdict, hblock.success, hblock2, hok, hctx, hadvanced, ne_eq,
      not_true_eq_false, not_false_eq_true, if_true, if_false] at hrsp
    split at hrsp
    · cases hrsp
    · split at hrsp
      · obtain rfl := Option.some_inj.mp hrsp
        exact ⟨hknown, hbounded⟩
      · obtain rfl := Option.some_inj.mp hrsp
        exact ⟨hknown, hbounded⟩
  · simp only [verdict, blockVerdict, hblock.success, hblock2, hok, ne_eq, not_true_eq_false,
      not_false_eq_true, if_true, if_false] at hrsp
    obtain rfl := Option.some_inj.mp hrsp
    exact absurd herr (show -Errno.ebadmsg ≠ 0 by decide)

/-- The total a call goes by is the end of what it is handed, or the length of the payload. -/
private theorem totalOf_cases {rsp : Rsp} (h : Announces payload rsp) :
    totalOf rsp = rsp.off + rsp.data.length ∨ totalOf rsp = payload.length := by
  rw [totalOf]
  split
  · exact .inl (sizeAdd_eq h.bounded)
  · next hannounced => exact .inr (h.total.resolve_left hannounced)

/-! ## Responses -/

section Responses

variable {listed : Option (CoapReq κ)} {events rest : List Event} {rsp : Rsp}

/-- A response with an error ends the call with the error. -/
private theorem Copying.fail (h : Copying k payload capacity listed events) (herr : rsp.err ≠ 0)
    (hquiet : invocations rest = []) :
    Copying (κ := κ) k payload capacity none (events ++ .called ref rsp :: rest) := by
  have hdata : dataAfter capacity (events ++ .called ref rsp :: rest) =
      { dataAfter capacity events with err := rsp.err, sem := true } := by
    rw [dataAfter_called hquiet, goliothReqSyncCb, if_pos herr]
  refine ⟨?_, ?_, ?_, ?_, ?_, by simp, ?_, ?_⟩ <;> rw [hdata]
  · exact h.capacity_eq
  · exact h.consecutive
  · exact h.inside
  · exact h.room
  · exact h.len
  · exact fun _ => rfl
  · exact fun _ hok => absurd hok herr

/-- A response whose total is too much for the buffer ends the call. Nothing of it is written,
and the length stays what it was. -/
private theorem Copying.refuse (h : Copying k payload capacity (some req) events)
    (hannounces : Announces payload rsp) (hend : rsp.off + rsp.data.length ≤ payload.length)
    (hlt : capacity < totalOf rsp)
    (hdata : dataAfter capacity (events ++ .called ref rsp :: rest) =
      { dataAfter capacity events with sem := true }) :
    Copying (κ := κ) k payload capacity none (events ++ .called ref rsp :: rest) := by
  have hlong : capacity < payload.length := by
    rcases totalOf_cases hannounces with htotal | htotal
    · exact (hlt.trans_eq htotal).trans_le hend
    · exact hlt.trans_eq htotal
  have hlen := h.len.resolve_right fun hfits => absurd hfits.1 (not_le.mpr hlong)
  refine ⟨?_, ?_, ?_, ?_, ?_, by simp, ?_, ?_⟩ <;> rw [hdata]
  · exact h.capacity_eq
  · exact h.consecutive
  · exact h.inside
  · exact h.room
  · exact h.len
  · exact fun _ => rfl
  · intro _ _
    have hroom := h.room
    exact ⟨hlen, by rw [hlen]; omega, fun hfits => absurd hfits (not_le.mpr hlong)⟩

/-- A response that fits is written behind what has been written before, and ends the call if it
is the last one. -/
private theorem Copying.take (h : Copying k payload capacity (some req) events)
    (hannounces : Announces payload rsp) (hoff : rsp.off = progress events)
    (hpiece : rsp.data <+: payload.drop rsp.off)
    (hlast : rsp.getNext = false → rsp.data = payload.drop rsp.off)
    (hle : totalOf rsp ≤ capacity) (herr : rsp.err = 0) (hquiet : invocations rest = [])
    (hdata : dataAfter capacity (events ++ .called ref rsp :: rest) =
      { sem := if rsp.getNext then (dataAfter capacity events).sem else true
        err := (dataAfter capacity events).err
        userData :=
          { data := (dataAfter capacity events).userData.data ++ [(rsp.off, rsp.data)]
            capacity := capacity
            len := totalOf rsp } })
    {listed' : Option (CoapReq κ)} (hgone : listed' = none ↔ rsp.getNext = false)
    (hcb : ∀ req', listed' = some req' → req'.cb = some k) :
    Copying k payload capacity listed' (events ++ .called ref rsp :: rest) := by
  obtain ⟨-, hwaiting, hok, hpieces⟩ := h.waiting req rfl
  have hprogress : rsp.off = (join (dataAfter capacity events).userData.data).length := by
    rw [hoff, progress, hpieces]
  -- the piece begins where the pieces that are written end
  have hjoin : (join ((dataAfter capacity events).userData.data ++ [(rsp.off, rsp.data)])).length =
      rsp.off + rsp.data.length := by
    rw [CS.Pieces.join_append, List.length_append, ← hprogress]
    simp [CS.Pieces.join]
  have hend : rsp.off + rsp.data.length ≤ payload.length := by
    have hlength := hpiece.length_le
    have hbefore := h.consecutive.length_le
    rw [List.length_drop] at hlength
    omega
  have hwhole : rsp.getNext = false → rsp.off + rsp.data.length = payload.length := by
    intro hnext
    have hbefore := h.consecutive.length_le
    rw [hlast hnext, List.length_drop]
    omega
  -- the length that is checked is the announced total or the end of this piece
  have hfits : rsp.off + rsp.data.length ≤ capacity := by
    rcases totalOf_cases hannounces with htotal | htotal
    · exact htotal.symm.trans_le hle
    · exact hend.trans (htotal.symm.trans_le hle)
  refine ⟨?_, ?_, ?_, ?_, ?_, ?_, ?_, ?_⟩ <;> rw [hdata]
  · have hstart : rsp.off = 0 + (join (dataAfter capacity events).userData.data).length := by
      rw [hprogress, Nat.zero_add]
    rw [hstart] at hpiece ⊢
    exact h.consecutive.snoc hpiece
  · intro write hmem
    rcases List.mem_append.mp hmem with hmem | hmem
    · exact h.inside write hmem
    · rw [List.mem_singleton.mp hmem]
      exact hfits
  · exact hjoin.trans_le hfits
  · rw [hjoin]
    refine (totalOf_cases hannounces).imp id fun htotal => ⟨htotal.symm.trans_le hle, htotal⟩
  · intro req' hreq'
    have hnext : rsp.getNext = true := by
      cases hnext : rsp.getNext with
      | true => rfl
      | false => rw [hgone.mpr hnext] at hreq'; cases hreq'
    refine ⟨hcb req' hreq', ?_, hok, ?_⟩
    · rw [if_pos hnext]
      exact hwaiting
    · have hone : successes (.called ref rsp :: rest) = [rsp] := by
        simp [successes, invocations, herr, hquiet]
      rw [hpieces, successes_append, hone]
      simp [pieces]
  · intro hnone
    rw [hgone.mp hnone]
    rfl
  · intro hsem _
    have hnext : rsp.getNext = false := by
      cases hnext : rsp.getNext with
      | false => rfl
      | true =>
        rw [if_pos hnext, hwaiting] at hsem
        cases hsem
    -- the semaphore is given with the last piece only, which reaches the end
    have hall := hwhole hnext
    have htotal : totalOf rsp = payload.length := by
      rcases totalOf_cases hannounces with htotal | htotal
      · exact htotal.trans hall
      · exact htotal
    rw [hjoin, hall]
    exact ⟨htotal, fun _ => hall.symm.trans_le hfits, fun _ => htotal⟩

end Responses

/-! ## Whole runs -/

private theorem keeps_copying : Keeps (Copying k payload capacity) ref where
  rearm req events pending h := by
    refine { h with waiting := fun req' hreq' => ?_, gone := fun hnone => by cases hnone }
    obtain rfl := Option.some_inj.mp hreq'
    exact h.waiting req rfl
  note req events reply h := by
    refine { h with waiting := fun req' hreq' => ?_, gone := fun hnone => by cases hnone }
    obtain rfl := Option.some_inj.mp hreq'
    exact h.waiting req rfl
  send req events h := by
    have hdata : dataAfter capacity (events ++ [.sent ref req.request.data]) =
        dataAfter capacity events := SyncData.after_append _ _ _ _
    have hsuccesses : successes (events ++ [.sent ref req.request.data]) = successes events := by
      simp [successes, invocations]
    refine ⟨?_, ?_, ?_, ?_, ?_, ?_, ?_, ?_⟩ <;> rw [hdata]
    · exact h.capacity_eq
    · exact h.consecutive
    · exact h.inside
    · exact h.room
    · exact h.len
    · exact hsuccesses ▸ h.waiting
    · exact h.gone
    · exact h.ended
  close req events rsp ret herr _ h := h.fail herr rfl

/-- **Response.** What the callback makes of a block keeps the invariant. -/
private theorem survives_copying (hcode : RunsGet e k capacity) {events : List Event}
    {v : Verdict} (hconsecutive : Consecutive payload 0 (pieces (successes events)))
    (houtcome : ∀ reply,
      Ongoing e named payload szx (progress events) { req with reply := reply } →
        Requests.Outcome e named payload szx (progress events) { req with reply := reply } v)
    (hannounces : ∀ rsp, v.rsp = some rsp → rsp.err = 0 → Announces payload rsp)
    (htransfer : Survives e (Transfer e named payload szx ref) ref req events v) :
    Survives e (fun listed events => Transfer e named payload szx ref listed events ∧
      Copying k payload capacity listed events) ref req events v := by
  intro c reply hwf hfind hhistory h
  refine ⟨htransfer c reply hwf hfind hhistory h.1, ?_⟩
  obtain ⟨htransfer, h⟩ := h
  obtain ⟨hongoing, -⟩ := htransfer.ongoing _ rfl
  obtain ⟨hcb, -⟩ := h.waiting _ rfl
  have houtcome := houtcome reply hongoing
  have hobserve := hongoing.isObserve
  have hbefore := hconsecutive.length_le
  generalize { req with reply := reply } = req at *
  subst hhistory
  cases houtcome with
  | rejected blockCtx =>
    -- the callback is told the error, which it passes on without writing
    have herr : Rsp.err { userData := req.userData, err := -Errno.ebadmsg } ≠ 0 :=
      show -Errno.ebadmsg ≠ 0 by decide
    have hlast : Rsp.getNext { userData := req.userData, err := -Errno.ebadmsg } = false := rfl
    obtain ⟨ret, hhistory, hgone⟩ := carryOut_deliver (e := e) hwf hfind blockCtx
      (-Errno.ebadmsg) hlast
    rw [if_neg fun h => herr h.2] at hhistory hgone
    rw [hgone, hhistory]
    exact h.fail herr rfl
  | stale blockCtx _ =>
    -- nothing is handed over, so the history and what is written stay
    obtain ⟨hkept, hlog⟩ := carryOut_ignore (e := e) hfind blockCtx
    rw [hkept, Client.history, hlog]
    refine { h with waiting := fun req' hreq' => ?_, gone := fun hnone => by cases hnone }
    obtain rfl := Option.some_inj.mp hreq'
    exact h.waiting req rfl
  | last blockCtx rsp herr hlast hoff hdata =>
    obtain ⟨ret, hhistory, hgone⟩ := carryOut_deliver (e := e) hwf hfind blockCtx 0 hlast
    -- the request is freed after its callback has seen the last piece
    have hplain : ¬ (req.isObserve = true ∧ (0 : ℤ) = 0) := by simp [hobserve]
    rw [if_neg hplain] at hhistory hgone
    rw [hgone, hhistory]
    have hannounced := hannounces rsp rfl herr
    have hpiece : rsp.data = payload.drop rsp.off := by rw [hdata, hoff]
    have hend : rsp.off + rsp.data.length ≤ payload.length := by
      rw [hpiece, List.length_drop, hoff, progress]
      omega
    have hquiet : invocations [.returned ref rsp ret, .freed ref] = [] := rfl
    rcases dataAfter_success ref h.capacity_eq herr hquiet with
      ⟨hlt, -, hafter⟩ | ⟨hle, -, hafter⟩
    · exact h.refuse hannounced hend hlt hafter
    · exact h.take hannounced hoff (hpiece ▸ List.prefix_rfl) (fun _ => hpiece) hle herr hquiet
        hafter (by simp [hlast]) (by simp)
  | more blockCtx rsp herr hnext hoff hdata _ =>
    obtain ⟨ret, req', hprepared, ⟨d, hret⟩, hhistory, hkept⟩ := carryOut_offer (e := e) hwf hfind
      hobserve blockCtx rsp
    -- the callback asks for the next block unless the value is too long for the buffer
    have hprogram := hcode rsp (dataAfter capacity (c.history ref)) h.capacity_eq
    rw [hcb, ret_invoke_of_program hprogram] at hret
    have hquiet : invocations (.returned ref rsp ret :: if ret ≠ 0 then [.freed ref] else []) =
        [] := by split <;> rfl
    have hannounced := hannounces rsp rfl herr
    have hpiece : rsp.data <+: payload.drop rsp.off := hoff ▸ hdata
    have hend : rsp.off + rsp.data.length ≤ payload.length := by
      have hlength := hpiece.length_le
      rw [List.length_drop, hoff, progress] at hlength
      rw [hoff, progress]
      omega
    rw [hkept, hhistory]
    rcases dataAfter_success ref h.capacity_eq herr hquiet with
      ⟨hlt, hrefused, hafter⟩ | ⟨hle, htaken, hafter⟩
    · have hne : ret ≠ 0 := by
        rw [hret, hrefused]
        decide
      rw [if_pos hne]
      exact h.refuse hannounced hend hlt hafter
    · have hzero : ¬ ret ≠ 0 := not_not.mpr (hret.trans htaken)
      rw [if_neg hzero]
      refine h.take hannounced hoff hpiece (fun hend => ?_) hle herr hquiet hafter
        (by simp [hnext]) fun req'' hreq'' => ?_
      · rw [hnext] at hend
        cases hend
      · obtain rfl := Option.some_inj.mp hreq''
        exact hprepared.same.cb.trans hcb

private theorem copying_initial (hcb : req.cb = some k) (observe : Bool) :
    Copying k payload capacity (some req) [.scheduled ref observe 0] := by
  have hempty : dataAfter capacity [.scheduled ref observe 0] = initialData capacity := rfl
  refine ⟨?_, ?_, ?_, ?_, ?_, ?_, by simp, ?_⟩ <;> rw [hempty]
  · rfl
  · trivial
  · simp [initialData]
  · exact Nat.zero_le _
  · exact .inl rfl
  · intro req' hreq'
    obtain rfl := Option.some_inj.mp hreq'
    exact ⟨hcb, rfl, rfl, rfl⟩
  · simp [initialData]

private theorem reads_of_copying {listed : Option (CoapReq κ)} {events : List Event}
    (h : Copying k payload capacity listed events) :
    Reads payload capacity listed (dataAfter capacity events) where
  returns := by
    rw [goliothLightdbGet, Option.map_eq_none_iff, goliothCoapReqSync]
    cases listed with
    | none => simp [h.gone rfl]
    | some req => simp [(h.waiting req rfl).2.1]
  inside := h.inside
  holds len hlen := by
    obtain ⟨ret, hreturned, hlen⟩ := Option.map_eq_some_iff.mp hlen
    rw [goliothCoapReqSync] at hreturned
    split at hreturned
    · next hsem =>
      have hok : (dataAfter capacity events).err = 0 := by
        by_contra herr
        rw [if_pos herr, Option.some_inj] at hreturned
        rw [← hreturned, if_pos herr] at hlen
        exact absurd (Prod.mk.inj hlen).1 herr
      obtain ⟨hjoined, hwhole⟩ := h.ended hsem hok
      have hreturn : ¬ ret ≠ 0 := by
        rw [← Option.some_inj.mp hreturned]
        simp [hok]
      rw [if_neg hreturn] at hlen
      obtain rfl := Option.some_inj.mp (Prod.mk.inj hlen).2
      refine ⟨?_, fun i hi => ?_, hwhole⟩
      · rw [hjoined]
        exact le_min h.room h.consecutive.length_le
      · exact h.consecutive.stored_eq (hjoined ▸ hi)
    · cases hreturned

/-- **A call reads what the server stores.** Let `golioth_lightdb_get` make its request in any
reachable state, and let every response to it be the block of the value that an earlier packet of
it asks for, with a Block2 option, not cut, and of a size that is no larger than the client expects,
whatever the network does to the responses and whatever other requests do meanwhile.
The call returns when its request ends. It never writes outside the buffer, and if it returns
zero, the buffer begins with as much of the value as it reports: the whole value exactly if the
buffer is large enough for it. -/
theorem goliothLightdbGet_reads (hheader : e.zephyr.HeaderContract)
    (hupdate : e.zephyr.UpdateContract) (hnext : e.zephyr.NextBlockContract)
    (hnaming : NamingContract e.zephyr named)
    (hszx : szx ≤ goliothEstimatedCoapBlockSize e.config.rxBufferLen)
    (hcode : RunsGet e k capacity) {app : σ} (hreach : Reachable e app c)
    {path : List UInt8} {format userData : ℕ}
    (hok : (submit e (goliothLightdbGetArgs path format k userData) c).1 = 0) {ops : List (Op κ)}
    (hrun : CS.Run (CS.Guarded (Honest e named payload szx c.nextRef) (Step e)) ops
      (submit e (goliothLightdbGetArgs path format k userData) c).2 c') :
    Reads payload capacity (c'.find c.nextRef) (dataAfter capacity (c'.history c.nextRef)) := by
  have hwf := wellFormed_of_reachable hreach
  have hscheduled := scheduled_of_submit hwf hok
  have hsubmit := effect_submit (e := e) none hwf (goliothLightdbGetArgs path format k userData)
  have hstart : Follows (Transfer e named payload szx c.nextRef) c.nextRef
      (submit e (goliothLightdbGetArgs path format k userData) c).2 :=
    transfer_of_scheduled hnaming hsubmit.wellFormed hscheduled rfl rfl
  have hinit : Follows (fun listed events =>
      Transfer e named payload szx c.nextRef listed events ∧
        Copying k payload capacity listed events) c.nextRef
      (submit e (goliothLightdbGetArgs path format k userData) c).2 := by
    refine ⟨hstart.wellFormed, hstart.ref_lt, hstart.holds, ?_⟩
    obtain ⟨req, hbuilt, hfind⟩ := hscheduled.listed
    rw [hfind, hscheduled.history]
    exact copying_initial hbuilt.cb _
  refine reads_of_copying (hrun.invariant (Follows _ c.nextRef)
    (fun op s t h hstep => ?_) hinit).holds.2
  refine h.step (keeps_transfer.and keeps_copying) (fun rx req hop hanswered href => ?_) hstep.2
  subst hop
  -- the block is for a packet sent earlier, so it starts at the offset or before
  obtain ⟨data, hsent, hblock⟩ := hstep.1 req hanswered href
  have hasked := h.holds.1.sent data (List.mem_filter.mpr ⟨hsent, by simp [Event.ref]⟩)
  have hwithin := hasked.trans h.holds.1.delivers.progress_le
  have hfind := find_answered h.wellFormed hanswered
  rw [href] at hfind
  have htotal := (h.holds.1.ongoing req hfind).1.totalSize
  have houtcome : ∀ reply, Ongoing e named payload szx (progress (s.history c.nextRef))
      { req with reply := reply } → Requests.Outcome e named payload szx
        (progress (s.history c.nextRef)) { req with reply := reply } (verdict e.zephyr req rx) :=
    fun reply hongoing => outcome_of_block hupdate hnext hszx hongoing hblock hasked
      h.holds.1.delivers.progress_le
  exact survives_copying hcode h.holds.1.delivers.consecutive houtcome
    (fun rsp hrsp herr => announces_of_block hupdate hnext
      (hszx.trans_lt (estimatedBlockSize_lt _)) hblock htotal hrsp herr hwithin)
    (survives_transfer hheader hnaming hszx houtcome)

/-- The twenty bytes are read into a buffer of sixteen: the call returns zero, and reports sixteen
bytes. -/
theorem goliothLightdbGet_reads_twentyBytes : ∃ c',
    CS.Run (CS.Guarded (Honest getEnv Reference.named twentyBytes 0 0) (Step getEnv))
        twentyBytesRun (submit getEnv (goliothLightdbGetArgs [97] 60 () 7) connectedClient).2 c' ∧
      goliothLightdbGet (dataAfter 16 (c'.history 0)) = some (0, some 16) ∧
      Reads twentyBytes 16 (c'.find 0) (dataAfter 16 (c'.history 0)) := by
  have hfacts : (CS.Run.executeIf honestCheck (perform getEnv) twentyBytesRun
      (submit getEnv (goliothLightdbGetArgs [97] 60 () 7) connectedClient).2).map (fun c' =>
        goliothLightdbGet (dataAfter 16 (c'.history 0))) = some (some (0, some 16)) := by
    decide +kernel
  obtain ⟨c', hrun, hreturned⟩ := Option.map_eq_some_iff.mp hfacts
  have hreach : Reachable getEnv () connectedClient := ⟨[.onConnect], .single rfl⟩
  have hguarded := CS.Run.of_executeIf (honest_of_answers (e := getEnv)) hrun
  exact ⟨c', hguarded, hreturned, goliothLightdbGet_reads Reference.headerContract
    Reference.updateContract Reference.nextBlockContract Reference.namingContract (Nat.zero_le _)
    runsGet_getEnv hreach (by decide) hguarded⟩

end Golioth.Lightdb
