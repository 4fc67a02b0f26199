/-
# Creating and scheduling requests

The functions of `coap_req.c` that build a request, put it on the list, and
prepare the request for the next block, and `golioth_fw_download`, the other
caller that builds a request of its own. Invoking a callback is here as well,
since asking for the next block of an observation invokes the callback again.
-/
import Golioth.Requests.State

namespace Golioth.Requests

open Golioth.Coap

variable {κ σ : Type} (e : Env κ σ)

/-- `COAP_OBSERVE_TS_DIFF_NEWER`, in milliseconds. -/
def coapObserveTsDiffNewer : ℤ := 128 * 1000

/-- `GOLIOTH_COAP_MAX_NON_PAYLOAD_LEN`. -/
def goliothCoapMaxNonPayloadLen : ℕ := 128

/-! ## Building a request -/

/-- `golioth_coap_req_init`; the buffer length has 16 bits. `calloc` has zeroed
the members that are not assigned here. -/
def coapReqInit (ref : ℕ) (method : Method) (type : MsgType) (bufferLen : ℕ)
    (token : FullToken) (id : UInt16) (cb : Option κ) (userData : ℕ) :
    Except ℤ (CoapReq κ) :=
  let init := e.zephyr.coapPacketInit (bufferLen % 2 ^ 16) type ⟨token.1, token.2.le⟩
    method.code id
  if init.1 ≠ 0 then .error init.1
  else .ok
    { ref := ref
      request := init.2
      requestWoBlock2 := ⟨0, 0, 0, 0, 0⟩
      blockCtx := coapBlockTransferInit (goliothEstimatedCoapBlockSize e.config.rxBufferLen) 0
      reply := { seq := 0, ts := -coapObserveTsDiffNewer }
      pending := { t0 := 0, timeout := 0, retries := 0 }
      isObserve := false
      isPending := false
      cb := cb
      userData := userData }

/-- `golioth_coap_req_new`. -/
def coapReqNew (method : Method) (type : MsgType) (bufferLen : ℕ) (cb : Option κ)
    (userData : ℕ) (c : Client κ σ) : Except ℤ (CoapReq κ) × Client κ σ :=
  let ref := c.nextRef
  let c := { c with nextRef := ref + 1 }
  let callocOk := e.allocates c.readings
  let c := c.tick
  if ¬ callocOk then (.error (-Errno.enomem), c)
  else
    -- the buffer of the packet; the request is freed when there is none
    let mallocOk := e.allocates c.readings
    let c := c.tick
    if ¬ mallocOk then (.error (-Errno.enomem), c)
    else
      let token := e.coapNextToken c.readings
      let id := e.coapNextId (c.readings + 1)
      (coapReqInit e ref method type bufferLen token id cb userData, c.tick.tick)

/-- `golioth_coap_pending_init`. -/
def coapPendingInit (uptime : ℤ) (retries : UInt8) : Pending where
  t0 := uint32OfInt uptime
  timeout := 0
  retries := retries

/-- `golioth_coap_req_submit`. -/
def coapReqSubmit (req : CoapReq κ) (c : Client κ σ) : ℤ × Client κ σ :=
  if ¬ c.coapReqsConnected then (-Errno.enetdown, c)
  else (0, { c with coapReqs := c.coapReqs ++ [req] })

/-- `golioth_coap_req_schedule`. -/
def coapReqSchedule (req : CoapReq κ) (c : Client κ σ) : ℤ × Client κ σ :=
  coapReqSubmit { req with pending := coapPendingInit (e.kUptimeGet c.readings) 3 } c.tick

/-- A new request whose packet `prepare` completes, then scheduled; it is freed
when either fails. -/
def newPreparedSchedule (method : Method) (bufferLen : ℕ) (cb : Option κ) (userData : ℕ)
    (prepare : CoapReq κ → ℤ × CoapReq κ) (c : Client κ σ) : ℤ × Client κ σ :=
  match coapReqNew e method .con bufferLen cb userData c with
  | (.error err, c) => (err, c)
  | (.ok req, c) =>
    let prepared := prepare req
    if prepared.1 ≠ 0 then (prepared.1, c.emit (.freed req.ref))
    else
      let scheduled := coapReqSchedule e prepared.2 c
      if scheduled.1 ≠ 0 then (scheduled.1, scheduled.2.emit (.freed req.ref))
      else (0, scheduled.2)

/-- What `golioth_coap_req_cb` appends to the packet of a new request. -/
def appendRequestOptions (z : Zephyr) (args : ReqArgs κ) (packet : CoapPacket) :
    ℤ × CoapPacket :=
  orReturn
    (if args.method = .get ∧ args.flagObserve then
      z.coapAppendOptionInt packet .observe 0
    else (0, packet)) fun packet =>
  orReturn (coapPacketAppendUriPathFromPathv z packet args.pathv) fun packet =>
  orReturn
    (if args.method ≠ .get ∧ args.method ≠ .delete then
      z.coapAppendOptionInt packet .contentFormat args.format
    else (0, packet)) fun packet =>
  orReturn
    (if ¬ args.flagNoRespBody then z.coapAppendOptionInt packet .accept args.format
    else (0, packet)) fun packet =>
  match args.data with
  | none => (0, packet)
  | some data =>
    if args.dataLen = 0 then (0, packet)
    else
      orReturn (z.coapPacketAppendPayloadMarker packet) fun packet =>
        -- the payload length has 16 bits
        z.coapPacketAppendPayload packet (data.take (args.dataLen % 2 ^ 16))

/-- `golioth_coap_req_cb`. -/
def coapReqCb (args : ReqArgs κ) (c : Client κ σ) : ℤ × Client κ σ :=
  let pathLen := coapPathvEstimateAllocLen args.pathv
  newPreparedSchedule e args.method (goliothCoapMaxNonPayloadLen + pathLen + args.dataLen)
    args.cb args.userData
    (fun req =>
      let req :=
        if args.method = .get ∧ args.flagObserve then
          { req with isObserve := true, isPending := true }
        else req
      let filled := appendRequestOptions e.zephyr args req.request
      (filled.1, { req with request := filled.2 })) c

/-- `golioth_fw_download`. -/
def fwDownload (args : DownloadArgs κ) (c : Client κ σ) : ℤ × Client κ σ :=
  newPreparedSchedule e .get goliothCoapMaxNonPayloadLen args.cb args.userData
    (fun req =>
      let filled := coapPacketAppendUriPathFromStringRange e.zephyr req.request args.uri
        (some args.uriLen)
      (filled.1, { req with request := filled.2 })) c

/-- Run a submission and record what it returned. -/
def submit (submission : Submission κ) (c : Client κ σ) : ℤ × Client κ σ :=
  let ref := c.nextRef
  let result :=
    match submission with
    | .reqCb args => coapReqCb e args c
    | .fwDownload args => fwDownload e args c
  (result.1, result.2.emit (.scheduled ref submission.observe result.1))

/-! ## Invoking a callback -/

/-- Invoke a callback, given how the commands it issues are answered. -/
def invokeWith (answer : (command : CbCmd κ σ) → Client κ σ → command.Ans × Client κ σ)
    (ref : ℕ) (cb : Option κ) (rsp : Rsp) (c : Client κ σ) : ℤ × Client κ σ :=
  let result := (e.callback cb rsp).run answer (c.emit (.called ref rsp))
  (result.1, result.2.emit (.returned ref rsp result.1))

/-- Answer a command of a callback; `getNext` is what `get_next` does. -/
def answerWith (getNext : ℤ → Client κ σ → ℤ × Client κ σ) :
    (command : CbCmd κ σ) → Client κ σ → command.Ans × Client κ σ
  | .getNext status, c => getNext status c
  | .submit submission, c => submit e submission c
  | .get, c => (c.app, c)
  | .set app, c => ((), { c with app := app })

/-- Invoke a callback with a response whose `get_next` is `NULL`. Calling it
would be undefined; here it has no effect. -/
def invokeLast (ref : ℕ) (cb : Option κ) (rsp : Rsp) (c : Client κ σ) : ℤ × Client κ σ :=
  invokeWith e (answerWith e fun _ c => (0, c)) ref cb rsp c

/-! ## The next block -/

/-- `golioth_coap_req_append_block2_option`. -/
def coapReqAppendBlock2Option (z : Zephyr) (req : CoapReq κ) : ℤ × CoapReq κ :=
  let req :=
    if req.requestWoBlock2.offset ≠ 0 then
      { req with request := req.request.restore req.requestWoBlock2 }
    else
      { req with requestWoBlock2 := req.request.fields }
  let appended := z.coapAppendBlock2Option req.request req.blockCtx
  (appended.1, { req with request := appended.2 })

/-- The part of `golioth_coap_req_next_block` that works on the request. -/
def coapReqPrepareNextBlock (z : Zephyr) (nextId : UInt16) (uptime : ℤ) (req : CoapReq κ) :
    ℤ × CoapReq κ :=
  let appended := coapReqAppendBlock2Option z
    { req with request := coapPacketSetId req.request nextId }
  if appended.1 ≠ 0 then appended
  else (0, { appended.2 with pending := coapPendingInit uptime 3 })

/-- `golioth_coap_req_next_block`. -/
def coapReqNextBlock (ref : ℕ) (_status : ℤ) (c : Client κ σ) : ℤ × Client κ σ :=
  let nextId := e.coapNextId c.readings
  let c := c.tick
  match c.find ref with
  | none => (0, c) -- the request outlives the callback that holds it
  | some req =>
    if req.isObserve then
      (0, (invokeLast e ref req.cb { userData := req.userData, err := -Errno.enotsup } c).2)
    else
      let prepared := coapReqPrepareNextBlock e.zephyr nextId (e.kUptimeGet c.readings) req
      (prepared.1, c.tick.modify ref fun _ => prepared.2)

/-- Invoke the callback of a request. -/
def invoke (ref : ℕ) (cb : Option κ) (rsp : Rsp) (c : Client κ σ) : ℤ × Client κ σ :=
  if rsp.getNext then invokeWith e (answerWith e (coapReqNextBlock e ref)) ref cb rsp c
  else invokeLast e ref cb rsp c

end Golioth.Requests
