/-
# Responses, timeouts and disconnection

The functions of `coap_req.c` that take a request off the list: the handler of a
response, the loop that finds the request a received packet answers, the poll
that transmits requests and gives up on them, and the pass that cancels them all
on a disconnect.

An operation of the module is one call of one of its entry points. A call that
does not return, because a loop of it never ends, is not a step.
-/
import Golioth.CS.Transition
import Golioth.Coap.Reference
import Golioth.Requests.Submit

namespace Golioth.Requests

open Golioth.Coap

variable {κ σ : Type} (e : Env κ σ)

/-! ## Handling a response -/

/-- `golioth_coap_code_to_posix`. -/
def coapCodeToPosix (code : UInt8) : ℤ :=
  if responseCodeClass code = 2 then 0
  else if responseCodeClass code = 4 then
    match code.toNat % 32 with
    | 0 => -Errno.efault    -- COAP_RESPONSE_CODE_BAD_REQUEST
    | 1 => -Errno.eacces    -- COAP_RESPONSE_CODE_UNAUTHORIZED
    | 2 => -Errno.einval    -- COAP_RESPONSE_CODE_BAD_OPTION
    | 3 => -Errno.eacces    -- COAP_RESPONSE_CODE_FORBIDDEN
    | 4 => -Errno.enoent    -- COAP_RESPONSE_CODE_NOT_FOUND
    | 5 => -Errno.eacces    -- COAP_RESPONSE_CODE_NOT_ALLOWED
    | 6 => -Errno.eacces    -- COAP_RESPONSE_CODE_NOT_ACCEPTABLE
    | 8 => -Errno.einval    -- COAP_RESPONSE_CODE_INCOMPLETE
    | 9 => -Errno.ebusy     -- COAP_RESPONSE_CODE_CONFLICT
    | 12 => -Errno.eacces   -- COAP_RESPONSE_CODE_PRECONDITION_FAILED
    | 13 => -Errno.e2big    -- COAP_RESPONSE_CODE_REQUEST_TOO_LARGE
    | 15 => -Errno.enotsup  -- COAP_RESPONSE_CODE_UNSUPPORTED_CONTENT_FORMAT
    | 22 => -Errno.ebadmsg  -- COAP_RESPONSE_CODE_UNPROCESSABLE_ENTITY
    | 29 => -Errno.ebusy    -- COAP_RESPONSE_CODE_TOO_MANY_REQUESTS
    | _ => -Errno.ebadmsg
  else -Errno.ebadmsg

/-- What succeeds is a response. -/
theorem responseCode_of_success {code : UInt8} (h : coapCodeToPosix code = 0) :
    Zephyr.ResponseCode code := by
  intro hclass
  rw [coapCodeToPosix, hclass, if_neg (by decide), if_neg (by decide)] at h
  exact absurd h (by decide)

/-- `golioth_coap_req_cancel_and_free`. -/
def coapReqCancelAndFree (ref : ℕ) (c : Client κ σ) : Client κ σ :=
  { c with coapReqs := c.coapReqs.filter fun req => req.ref ≠ ref }.emit (.freed ref)

/-- The label `cancel_and_free` of the response handler. -/
def labelCancelAndFree (ref : ℕ) (err : ℤ) (c : Client κ σ) : Client κ σ :=
  match c.find ref with
  | none => c
  | some req =>
    if req.isObserve ∧ err = 0 then c.modify ref fun req => { req with isPending := false }
    else coapReqCancelAndFree ref c

/-- `golioth_coap_req_reply_handler` on a response that carries a Block2 option. -/
def coapReqBlockHandler (req : CoapReq κ) (response : RxPacket) (c : Client κ σ) :
    Client κ σ :=
  let ref := req.ref
  let wantOffset := req.blockCtx.current
  let update := e.zephyr.coapUpdateFromBlock response req.blockCtx
  let c := c.modify ref fun req => { req with blockCtx := update.2 }
  if update.1 ≠ 0 then
    let c := (invoke e ref req.cb { userData := req.userData, err := -Errno.ebadmsg } c).2
    labelCancelAndFree ref (-Errno.ebadmsg) c
  else
    let curOffset := update.2.current
    if curOffset < wantOffset then
      -- already received
      c.modify ref fun req => { req with blockCtx := { req.blockCtx with current := wantOffset } }
    else
      let next := e.zephyr.coapNextBlockForOption response update.2 .block2
      let c := c.modify ref fun req => { req with blockCtx := next.2 }
      -- the `int` that was returned, in a variable of type `size_t`
      let newOffset := sizeOfInt next.1
      if newOffset < 0 then
        let c := (invoke e ref req.cb { userData := req.userData, err := -Errno.ebadmsg } c).2
        labelCancelAndFree ref (-Errno.ebadmsg) c
      else if newOffset = 0 then
        -- the last block
        let rsp : Rsp :=
          { data := response.payload, off := curOffset, total := next.2.totalSize
            userData := req.userData }
        labelCancelAndFree ref update.1 (invoke e ref req.cb rsp c).2
      else
        let rsp : Rsp :=
          { data := response.payload, off := curOffset, total := next.2.totalSize
            getNext := true, userData := req.userData
            err := if req.isObserve then -Errno.emsgsize else 0 }
        let called := invoke e ref req.cb rsp c
        -- notifications in blocks are not supported: an observation ends here in any case
        if called.1 ≠ 0 then labelCancelAndFree ref called.1 called.2
        else if req.isObserve then labelCancelAndFree ref (-Errno.enotsup) called.2
        else called.2

/-- `golioth_coap_req_reply_handler`. -/
def coapReqReplyHandler (ref : ℕ) (response : RxPacket) (c : Client κ σ) : Client κ σ :=
  match c.find ref with
  | none => c
  | some req =>
    let err := coapCodeToPosix response.code
    if err ≠ 0 then
      let c := (invoke e ref req.cb { userData := req.userData, err := err } c).2
      labelCancelAndFree ref err c
    else if coapGetOptionInt response .block2 ≠ -Errno.enoent then
      coapReqBlockHandler e req response c
    else
      -- without a Block2 option the payload is whole
      let rsp : Rsp :=
        { data := response.payload, off := 0, total := response.payload.length
          userData := req.userData }
      labelCancelAndFree ref err (invoke e ref req.cb rsp c).2

/-! ## Finding the request a packet answers -/

/-- `sequence_number_is_newer`. -/
def sequenceNumberIsNewer (v1 v2 : ℤ) : Bool :=
  (v1 < v2 ∧ v2 - v1 < 2 ^ 23) ∨ (v1 > v2 ∧ v1 - v2 > 2 ^ 23)

/-- `golioth_coap_reply_is_newer`. -/
def coapReplyIsNewer (reply : Reply) (seq uptime : ℤ) : Bool :=
  uptime > reply.ts + coapObserveTsDiffNewer ∨ sequenceNumberIsNewer reply.seq seq

/-- The tests of the receive loop: whether the loop body goes on with a request.
The token array of a request is compared over the length of the received token. -/
def answers (rx : RxPacket) (req : CoapReq κ) : Bool :=
  let reqId := coapHeaderGetId req.request
  let reqToken := coapHeaderGetToken req.request
  let rxTkl := rx.token.1.length
  ¬ (reqId = 0 ∧ coapHeaderGetTkl req.request = 0) ∧
  ¬ (reqId ≠ rx.id ∧ rxTkl = 0) ∧
  ¬ (rxTkl > 0 ∧ (reqToken ++ e.stack).take rxTkl ≠ rx.token.1)

/-- The request the receive loop stops at. -/
def answered (rx : RxPacket) (c : Client κ σ) : Option (CoapReq κ) :=
  c.coapReqs.find? (answers e rx)

/-- `golioth_coap_req_process_rx`. -/
def coapReqProcessRx (rx : RxPacket) (c : Client κ σ) : Client κ σ :=
  match answered e rx c with
  | none => c
  | some req =>
    let observeSeq := coapGetOptionInt rx .observe
    if observeSeq = -Errno.enoent then coapReqReplyHandler e req.ref rx c
    else
      let uptime := e.kUptimeGet c.readings
      let c := c.tick
      -- observed requests are handled only if received in order
      if coapReplyIsNewer req.reply observeSeq uptime then
        coapReqReplyHandler e req.ref rx
          (c.modify req.ref fun req => { req with reply := { seq := observeSeq, ts := uptime } })
      else c

/-! ## Transmission and timeouts -/

/-- `init_ack_timeout`, given the random number it may draw. -/
def initAckTimeout (config : Config) (rand : UInt32) : UInt32 :=
  if config.randomizeAckTimeout then
    let maxAck := UInt32.ofNat (config.initAckTimeoutMs * config.ackRandomPercent / 100)
    let minAck := UInt32.ofNat config.initAckTimeoutMs
    minAck + rand % (maxAck - minAck)
  else UInt32.ofNat config.initAckTimeoutMs

/-- `golioth_coap_pending_cycle`. -/
def coapPendingCycle (ackTimeout : UInt32) (pending : Pending) : Bool × Pending :=
  if pending.timeout = 0 then
    -- initial transmission
    (true, { pending with timeout := ackTimeout })
  else if pending.retries = 0 then (false, pending)
  else
    (true,
      { t0 := pending.t0 + pending.timeout
        timeout := pending.timeout <<< 1
        retries := pending.retries - 1 })

/-- The time left until the deadline of a request. -/
def timeLeft (pending : Pending) (now : UInt32) : ℤ :=
  int32Sub (int32OfUInt32 (pending.t0 + pending.timeout)) (int32OfUInt32 now)

/-- How the loop of `golioth_coap_req_poll_prepare` ends: with time left, after
at least one cycle or none, or with no retransmission left. -/
inductive PollOutcome
  | waits (timeout : ℤ) (send : Bool) (pending : Pending) (readings : ℕ)
  | expires (pending : Pending) (readings : ℕ)

/-- The loop of `golioth_coap_req_poll_prepare`. -/
def pollCycles (now : UInt32) : (cycles : ℕ) → Pending → (readings : ℕ) → (send : Bool) →
    Option PollOutcome
  | 0, _, _, _ => none
  | cycles + 1, pending, readings, send =>
    if timeLeft pending now > 0 then
      some (.waits (timeLeft pending now) send pending readings)
    else
      let cycle := coapPendingCycle (initAckTimeout e.config (e.sysRand32Get readings)) pending
      -- the random number is drawn for the initial transmission only
      let readings := if pending.timeout = 0 then readings + 1 else readings
      if cycle.1 then pollCycles now cycles cycle.2 readings true
      else some (.expires cycle.2 readings)

/-- What `golioth_coap_req_poll_prepare` does when its loop has ended, and the
timeout it returns. -/
def PollOutcome.carryOut (req : CoapReq κ) : PollOutcome → Client κ σ → ℤ × Client κ σ
  | .expires pending readings, c =>
    let c := { c.modify req.ref fun req => { req with pending := pending } with
      readings := readings }
    let c := (invoke e req.ref req.cb { userData := req.userData, err := -Errno.etimedout } c).2
    (int64Max, coapReqCancelAndFree req.ref c)
  | .waits timeout send pending readings, c =>
    let c := { c.modify req.ref fun req => { req with pending := pending } with
      readings := readings }
    -- the result of the transmission is only logged
    (timeout, if send then c.tick.emit (.sent req.ref req.request.data) else c)

/-- `golioth_coap_req_poll_prepare`. Each cycle uses up a retransmission or sets
a timeout that was zero, which bounds their number. -/
def coapReqPollPrepare (req : CoapReq κ) (now : UInt32) (c : Client κ σ) :
    Option (ℤ × Client κ σ) :=
  (pollCycles e now (2 * req.pending.retries.toNat + 2) req.pending c.readings false).map
    fun outcome => outcome.carryOut e req c

/-- One visit of the loop of `__golioth_coap_reqs_poll_prepare`; the first
component is the least timeout so far. -/
def pollVisit (now : UInt32) (ref : ℕ) (s : ℤ × Client κ σ) : Option (ℤ × Client κ σ) :=
  match s.2.find ref with
  | none => none
  | some req =>
    if req.isObserve ∧ ¬ req.isPending then some s
    else
      (coapReqPollPrepare e req now s.2).map fun polled => (min s.1 polled.1, polled.2)

/-- `golioth_coap_reqs_poll_prepare`, with at most the given number of visits. -/
def coapReqsPollPrepare (now : ℤ) (visits : ℕ) (c : Client κ σ) : Option (ℤ × Client κ σ) :=
  CS.SafeIteration.forEachSafe (fun s => s.2.refs) (pollVisit e (uint32OfInt now)) visits
    (int64Max, c)

/-! ## Connection and disconnection -/

/-- One visit of the loop of `golioth_coap_reqs_cancel_all_with_reason`. -/
def cancelVisit (reason : ℤ) (ref : ℕ) (c : Client κ σ) : Option (Client κ σ) :=
  match c.find ref with
  | none => none
  | some req =>
    let c := (invoke e ref req.cb { userData := req.userData, err := reason } c).2
    some (coapReqCancelAndFree ref c)

/-- `golioth_coap_reqs_cancel_all_with_reason`. -/
def coapReqsCancelAllWithReason (reason : ℤ) (c : Client κ σ) : Option (Client κ σ) :=
  CS.SafeIteration.forEachSafe Client.refs (cancelVisit e reason) c.coapReqs.length c

/-- `golioth_coap_reqs_on_connect`. -/
def coapReqsOnConnect (c : Client κ σ) : Client κ σ := { c with coapReqsConnected := true }

/-- `golioth_coap_reqs_on_disconnect`. -/
def coapReqsOnDisconnect (c : Client κ σ) : Option (Client κ σ) :=
  coapReqsCancelAllWithReason e (-Errno.eshutdown) { c with coapReqsConnected := false }

/-! ## Operations -/

/-- The entry points of the module. -/
inductive Op (κ : Type)
  | submit (submission : Submission κ)
  | processRx (rx : RxPacket)
  | pollPrepare (now : ℤ) (visits : ℕ)
  | onConnect
  | onDisconnect

/-- One operation, if it returns. -/
def perform : Op κ → Client κ σ → Option (Client κ σ)
  | .submit submission, c => some (submit e submission c).2
  | .processRx rx, c => some (coapReqProcessRx e rx c)
  | .pollPrepare now visits, c => (coapReqsPollPrepare e now visits c).map Prod.snd
  | .onConnect, c => some (coapReqsOnConnect c)
  | .onDisconnect, c => coapReqsOnDisconnect e c

/-- The steps of a client: the operations that return. -/
def Step (op : Op κ) (c c' : Client κ σ) : Prop := perform e op c = some c'

/-- The states of a client some sequence of operations leads to. -/
def Reachable (app : σ) (c : Client κ σ) : Prop :=
  CS.Reachable (Step e) (Client.init app) c

/-- The state a sequence of operations leads to, if they return. -/
def execute (ops : List (Op κ)) (app : σ) : Option (Client κ σ) :=
  CS.Run.execute (perform e) ops (Client.init app)

theorem reachable_of_execute {ops : List (Op κ)} {app : σ} {c : Client κ σ}
    (h : execute e ops app = some c) : Reachable e app c :=
  ⟨ops, CS.Run.of_execute h⟩

/-- An environment in which nothing fails and no time passes; identifiers and
tokens are counted. -/
def Env.calm (code : κ → Rsp → CbProg κ σ) : Env κ σ where
  zephyr := Reference.zephyr
  config :=
    { rxBufferLen := 1280, initAckTimeoutMs := 2000, ackRandomPercent := 150
      randomizeAckTimeout := false }
  code := code
  coapNextId reading := UInt16.ofNat (reading + 1)
  coapNextToken reading := ⟨[UInt8.ofNat reading, 0, 0, 0, 0, 0, 0, 0], rfl⟩
  kUptimeGet _ := 0
  sysRand32Get _ := 0
  allocates _ := true
  goliothSendCoap _ := 0
  stack := []

/-- The token of the first request in the calm environment. -/
def firstToken : Token := ⟨[2, 0, 0, 0, 0, 0, 0, 0], by decide⟩

/-- The calm environment whose callbacks return zero. -/
def Env.quiet : Env Unit Unit := .calm fun _ _ => .ret 0

/-- A GET request for `/a`. -/
def Submission.getA (cb : κ) (observe : Bool) : Submission κ :=
  .reqCb
    { method := .get, pathv := [[97]], format := 60, data := none, dataLen := 0, cb := some cb
      userData := 7, flagObserve := observe, flagNoRespBody := false }

end Golioth.Requests
