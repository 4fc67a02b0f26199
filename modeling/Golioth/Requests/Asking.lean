/-
# Asking for the next block

What it takes for a transfer in blocks to go on: the token of the request comes back with
the answer, a poll sends the packet of the only request and leaves it listed, and a
callback that asks for the next block has asked for it when it returns.
-/
import Golioth.Requests.GivingUp
import Golioth.Requests.NextBlock
import Golioth.Requests.Truncation

namespace Golioth.Requests

open Golioth.Coap CS

variable {κ σ : Type} {e : Env κ σ} {c c' : Client κ σ} {ref : ℕ} {req scheduled : CoapReq κ}
  {rx : RxPacket}

/-! ## Callbacks -/

/-- A callback that asks for the next block: it does so at least once, returns zero if that
succeeds, and does nothing else to the module. -/
inductive Asks : (asked : Bool) → CbProg κ σ → Prop
  | ret : Asks true (.ret 0)
  | getNext {asked : Bool} (status : ℤ) {next : ℤ → CbProg κ σ} : Asks true (next 0) →
      Asks asked (.call (.getNext status) next)
  | get {asked : Bool} {next : σ → CbProg κ σ} : (∀ app, Asks asked (next app)) →
      Asks asked (.call .get next)
  | set {asked : Bool} (app : σ) {next : Unit → CbProg κ σ} : Asks asked (next ()) →
      Asks asked (.call (.set app) next)

/-- What a transfer in blocks needs of the library. -/
structure TransferContract (z : Zephyr) (named : List UInt8 → Option (ℕ × ℕ))
    (value : BlockContext → List UInt8) : Prop where
  header : z.HeaderContract
  writing : z.WritingContract
  order : z.OrderContract
  block2 : z.Block2Contract value
  naming : NamingContract z named
  update : z.UpdateContract
  accept : z.AcceptContract
  next : z.NextBlockContract

/-- A packet has room for the Block2 option of any block of some size. -/
def RoomForBlock2 (z : Zephyr) (packet : CoapPacket) (blockSize : ℕ) : Prop :=
  ∀ id context, context.blockSize = blockSize →
    context.current / coapBlockSizeToBytes blockSize < 2 ^ 20 →
      (z.coapAppendBlock2Option (coapPacketSetId packet id) context).1 = 0

/-! ## Tokens -/

section Tokens

variable {z : Zephyr}

/-- The bytes start with a header that says that the token is a full one. -/
def FullHeader (data : List UInt8) : Prop :=
  Zephyr.headerLen ≤ data.length ∧ (data.getD 0 0).toNat % 16 = tokenMaxLen

theorem FullHeader.extended {before after : List UInt8} (h : FullHeader before)
    (hstarts : before.take Zephyr.headerLen <+: after) : FullHeader after := by
  obtain ⟨rest, rfl⟩ := hstarts
  obtain ⟨hlen, htkl⟩ := h
  cases before with
  | nil => exact absurd hlen (by decide)
  | cons first before =>
    refine ⟨?_, htkl⟩
    rw [List.length_append, List.length_take_of_le hlen]
    exact Nat.le_add_right _ _

theorem fullHeader_setId {packet : CoapPacket} (h : FullHeader packet.data)
    (id : UInt16) : FullHeader (coapPacketSetId packet id).data := by
  obtain ⟨hlen, htkl⟩ := h
  refine ⟨by simpa [coapPacketSetId] using hlen, ?_⟩
  rw [coapPacketSetId]
  simpa [List.getD_eq_getElem?_getD, List.getElem?_set] using htkl

theorem fullHeader_of_assembled (hheader : z.HeaderContract) {payload : Bool}
    {packet : CoapPacket} (h : Assembled z payload packet) : FullHeader packet.data := by
  induction h with
  | @init maxLen type token method id htoken hok =>
    have hbits : type.bits ≤ 3 := by cases type <;> decide
    have hdata := hheader.init maxLen type token method.code id hok
    rw [hdata, Zephyr.headerBytes, htoken]
    refine ⟨?_, ?_⟩
    · rw [List.length_append, htoken]
      exact le_rfl
    · rw [List.cons_append, List.getD_cons_zero, UInt8.toNat_ofNat', tokenMaxLen]
      omega
  | appendOption _ _ _ ih => exact ih.extended (hheader.appendOption _ _ _)
  | appendOptionInt _ _ _ ih => exact ih.extended (hheader.appendOptionInt _ _ _)
  | appendPayloadMarker _ _ ih => exact ih.extended (hheader.appendPayloadMarker _)
  | appendPayload _ _ ih => exact ih.extended (hheader.appendPayload _ _)
  | setId id _ ih => exact fullHeader_setId ih id

theorem FullHeader.length_token {data : List UInt8} (h : FullHeader data) :
    (requestToken data).length = tokenMaxLen := by
  obtain ⟨hlen, htkl⟩ := h
  rw [requestToken, htkl, List.length_take, List.length_drop]
  rw [Zephyr.headerLen] at hlen
  omega

/-- A request with a full token is answered by what has its token. -/
theorem answers_of_token (h : FullHeader req.request.data)
    (htoken : rx.token.1 = requestToken req.request.data) : answers e rx req = true := by
  have hlength := h.length_token
  have hself : coapHeaderGetToken req.request = requestToken req.request.data := rfl
  have htkl : coapHeaderGetTkl req.request = tokenMaxLen := h.2
  have hpos : tokenMaxLen ≠ 0 := by decide
  simp only [answers, hself, htkl, htoken, hlength, hpos, and_false, not_false_eq_true, true_and,
    decide_eq_true_eq, not_and, not_not]
  intro _
  rw [← hlength]
  exact List.take_left

end Tokens

/-! ## Polling one request -/

section Poll

variable {now : ℤ} {visits : ℕ} {ret : ℤ} {data : List UInt8}

/-- A poll that sends the packet of the only request leaves that request with its timer set. -/
theorem poll_of_sent (hwf : WellFormed c) (hone : c.coapReqs = [req])
    (hpoll : coapReqsPollPrepare e now visits c = some (ret, c'))
    (hsent : c'.history req.ref = c.history req.ref ++ [.sent req.ref data]) :
    data = req.request.data ∧ WellFormed c' ∧
      ∃ pending, c'.coapReqs = [{ req with pending := pending }] := by
  have hrefs : c.refs = [req.ref] := by rw [Client.refs, hone]; rfl
  have hfind : c.find req.ref = some req := Client.find_of_mem hwf.nodup (by simp [hone])
  have hself : c.history req.ref ≠ c.history req.ref ++ [.sent req.ref data] := by simp
  cases visits with
  | zero =>
    simp [coapReqsPollPrepare, SafeIteration.forEachSafe, SafeIteration.visit, hrefs] at hpoll
  | succ visits =>
    simp only [coapReqsPollPrepare, SafeIteration.forEachSafe, hrefs, List.head?_cons,
      Option.bind_some, SafeIteration.successor, if_true, List.head?_nil, SafeIteration.visit,
      pollVisit, hfind] at hpoll
    split at hpoll
    · cases hpoll
    · next s' hvisit =>
      have hend : s' = (ret, c') := by cases visits <;> exact Option.some_inj.mp hpoll
      subst hend
      split at hvisit
      · obtain ⟨-, rfl⟩ := Prod.mk.inj (Option.some_inj.mp hvisit)
        exact absurd hsent hself
      · obtain ⟨polled, hprepared, hpolled⟩ := Option.map_eq_some_iff.mp hvisit
        obtain ⟨-, rfl⟩ := Prod.mk.inj hpolled
        obtain ⟨outcome, -, hcarried⟩ := Option.map_eq_some_iff.mp hprepared
        cases outcome with
        | waits timeout send pending readings =>
          obtain ⟨-, hwf', -, hhistory⟩ := carryOut_waits hwf hfind timeout send pending readings
            hcarried
          refine ⟨?_, hwf', pending, ?_⟩
          · rw [hhistory, List.append_cancel_left_eq] at hsent
            split at hsent
            · exact (Event.sent.inj (List.singleton_inj.mp hsent)).2.symm
            · cases hsent
          · rw [← hcarried, PollOutcome.carryOut]
            split <;> simp [Client.modify, Client.emit, Client.tick, hone]
        | expires pending readings =>
          obtain ⟨-, -, -, events, hhistory, userData, ret', rfl⟩ :=
            carryOut_expires hwf hfind pending readings hcarried
          rw [hhistory, List.append_cancel_left_eq] at hsent
          cases hsent

/-- At the time a timer was set a poll sends the packet. -/
theorem poll_at_start (hclock : ∀ reading,
      FitsClock (initAckTimeout e.config (e.sysRand32Get reading)).toNat)
    (hwf : WellFormed c) (hone : c.coapReqs = [req]) (hobserve : req.isObserve = false) {t0 : ℤ}
    (hpending : req.pending = coapPendingInit t0 3) :
    ∃ ret c', coapReqsPollPrepare e t0 1 c = some (ret, c') ∧
      c'.history req.ref = c.history req.ref ++ [.sent req.ref req.request.data] := by
  have hrefs : c.refs = [req.ref] := by rw [Client.refs, hone]; rfl
  have hfind : c.find req.ref = some req := Client.find_of_mem hwf.nodup (by simp [hone])
  have hfits := hclock c.readings
  generalize htimeout : (initAckTimeout e.config (e.sysRand32Get c.readings)).toNat = timeout
    at hfits
  have hpos := hfits.pos
  have hsmall := hfits.small
  have hlast : Backoff.deadline t0 timeout 4 = t0 + 15 * timeout := by
    rw [Backoff.deadline]
    norm_num
  have hnear : NearSchedule t0 timeout t0 := fun k hk => by
    have hfirst : Backoff.deadline t0 timeout 0 ≤ Backoff.deadline t0 timeout k :=
      Backoff.deadline_mono (Nat.zero_le k)
    have hthen : Backoff.deadline t0 timeout k ≤ Backoff.deadline t0 timeout 4 :=
      Backoff.deadline_mono hk
    rw [Backoff.deadline_zero] at hfirst
    omega
  obtain ⟨-, polled, c', hpoll, -, hpolled⟩ := polled_of_pendingAt (k := 0) hfits (Nat.zero_le 4)
    hnear (fun j hj => absurd hj (Nat.not_lt_zero j)) hwf hfind hpending (fun _ _ => htimeout)
  refine ⟨min int64Max polled, c', ?_, ?_⟩
  · simp only [coapReqsPollPrepare, SafeIteration.forEachSafe, hrefs, List.head?_cons,
      Option.bind_some, SafeIteration.successor, if_true, List.head?_nil, SafeIteration.visit,
      pollVisit, hfind, hobserve, Bool.false_eq_true, false_and, if_false, hpoll, Option.map_some]
  · cases hpolled with
    | waits j hkj hj hlt hbefore hfind' hhistory =>
      have hnext : 0 < j := by
        refine Nat.pos_of_ne_zero fun hzero => ?_
        rw [hzero, Backoff.deadline_zero] at hlt
        exact lt_irrefl _ hlt
      rw [hhistory, if_pos hnext]
    | expires hover _ _ _ => omega

end Poll

/-! ## Asking -/

section Asking

variable {named : List UInt8 → Option (ℕ × ℕ)} {value : BlockContext → List UInt8}
  {cb : Option κ} {context : BlockContext} {log : List Event} {asked : Bool}
  {calls : List (UInt16 × BlockContext)}

/-- The only request while its callback is handed a block, and what has been asked for. -/
structure Offering (e : Env κ σ) (scheduled : CoapReq κ) (ref : ℕ) (cb : Option κ)
    (context : BlockContext) (log : List Event) (asked : Bool) (c : Client κ σ) : Prop where
  log : c.log = log
  request : ∃ req calls, c.coapReqs = [req] ∧ req.ref = ref ∧ req.cb = cb ∧
    req.blockCtx = context ∧ Asked e.zephyr scheduled calls req ∧
    (asked = true → (∃ before id, calls = before ++ [(id, context)]) ∧
      ∃ t0, req.pending = coapPendingInit t0 3)

theorem find_of_only (hone : c.coapReqs = [req]) : c.find req.ref = some req := by
  rw [Client.find, hone]
  exact List.find?_cons_of_pos (decide_eq_true rfl)

theorem pending_of_prepared {z : Zephyr} {id : UInt16} {uptime : ℤ}
    (hok : (coapReqPrepareNextBlock z id uptime req).1 = 0) :
    (coapReqPrepareNextBlock z id uptime req).2.pending = coapPendingInit uptime 3 := by
  unfold coapReqPrepareNextBlock at hok ⊢
  dsimp only at hok ⊢
  split at hok
  · next hne => exact absurd hok hne
  · next hzero => rw [if_neg hzero]

/-- What is known of a packet that was scheduled, for the next block to be asked for. -/
structure Extensible (e : Env κ σ) (scheduled : CoapReq κ) : Prop where
  assembled : Assembled e.zephyr false scheduled.request
  delta_le : scheduled.request.delta ≤ OptionNum.block2.value
  offset_ne : scheduled.request.offset ≠ 0
  room : RoomForBlock2 e.zephyr scheduled.request
    (goliothEstimatedCoapBlockSize e.config.rxBufferLen)

/-- **Command.** Asking for the next block succeeds, and sets the timer. -/
theorem offering_getNext (hz : TransferContract e.zephyr named value)
    (hext : Extensible e scheduled)
    (hsize : context.blockSize = goliothEstimatedCoapBlockSize e.config.rxBufferLen)
    (hnum : context.current / coapBlockSizeToBytes
      (goliothEstimatedCoapBlockSize e.config.rxBufferLen) < 2 ^ 20)
    (h : Offering e scheduled ref cb context log asked c) (status : ℤ) :
    (coapReqNextBlock e ref status c).1 = 0 ∧
      Offering e scheduled ref cb context log true (coapReqNextBlock e ref status c).2 := by
  obtain ⟨hlog, req, calls, hone, rfl, hcb, rfl, hasked, -⟩ := h
  have hfind : c.tick.find req.ref = some req := find_of_only hone
  obtain ⟨hstatus, hrequest, hcopy, hobserve⟩ := hasked.prepare_eq hz.writing hz.block2
    hext.assembled hext.delta_le hext.offset_ne ⟨rfl, rfl, rfl⟩ (e.coapNextId c.readings)
    (e.kUptimeGet c.tick.readings)
  have happended := hext.room (e.coapNextId c.readings) req.blockCtx hsize hnum
  rw [happended] at hstatus
  have hsame := sameRequest_prepareNextBlock e.zephyr (e.coapNextId c.readings)
    (e.kUptimeGet c.tick.readings) req
  simp only [coapReqNextBlock, hfind, hasked.isObserve, Bool.false_eq_true, if_false]
  refine ⟨hstatus, hlog, _, calls ++ [(e.coapNextId c.readings, req.blockCtx)], ?_, hsame.ref_eq,
    hsame.cb.trans hcb, hsame.blockCtx, ⟨hobserve, fun hnil => absurd hnil (by simp), ?_⟩,
    fun _ => ⟨⟨calls, _, rfl⟩, _, pending_of_prepared hstatus⟩⟩
  · simp [Client.modify, Client.tick, hone]
  · intro before id context hsplit
    obtain ⟨-, hlast⟩ := List.append_inj' hsplit rfl
    obtain ⟨rfl, rfl⟩ := Prod.mk.inj (List.singleton_inj.mp hlast)
    exact ⟨hcopy, happended, hrequest⟩

/-- **Callback.** A callback that asks for the next block has asked for it when it returns. -/
theorem Asks.run (hz : TransferContract e.zephyr named value)
    (hext : Extensible e scheduled)
    (hsize : context.blockSize = goliothEstimatedCoapBlockSize e.config.rxBufferLen)
    (hnum : context.current / coapBlockSizeToBytes
      (goliothEstimatedCoapBlockSize e.config.rxBufferLen) < 2 ^ 20)
    {program : CbProg κ σ} (hasks : Asks asked program)
    (h : Offering e scheduled ref cb context log asked c) :
    (program.run (answerWith e (coapReqNextBlock e ref)) c).1 = 0 ∧
      Offering e scheduled ref cb context log true
        (program.run (answerWith e (coapReqNextBlock e ref)) c).2 := by
  induction hasks generalizing c with
  | ret => exact ⟨rfl, h⟩
  | getNext status _ ih =>
    obtain ⟨hok, hnext⟩ := offering_getNext hz hext hsize hnum h status
    rw [Prog.run_call, answerWith, hok]
    exact ih hnext
  | get _ ih => exact ih c.app h
  | set app _ ih => exact ih (c := { c with app := app }) ⟨h.log, h.request⟩

end Asking

end Golioth.Requests
