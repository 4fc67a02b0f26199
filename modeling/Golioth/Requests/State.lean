/-
# Requests, responses and the state of a client

The data of the request module: `struct golioth_coap_req`, the response handed
to a callback, and the part of `struct golioth_client` the module works on,
together with everything around it that its behaviour depends on.

Client code appears as programs. A callback is an arbitrary program that may,
while it runs, ask for the next block, submit further requests, and read and
write a state of its own; its result is the `int` it returns. The readings of
the clock, the random numbers, the tokens and message ids, and whether an
allocation or a transmission succeeds come from an environment, one fresh
reading at a time, so that a statement about every environment is a statement
about every schedule.

The log records what a client can observe of the module. It is written and never
read.
-/
import Golioth.CS.Prog
import Golioth.CS.SafeIteration
import Golioth.Coap.Utils

namespace Golioth.Requests

open Golioth.Coap

/-! ## Requests and responses -/

/-- `struct golioth_coap_pending`. -/
structure Pending where
  t0 : UInt32
  timeout : UInt32
  retries : UInt8
  deriving DecidableEq, Repr

/-- `struct golioth_coap_reply`. -/
structure Reply where
  seq : ℤ
  ts : ℤ
  deriving DecidableEq, Repr

/-- `struct golioth_coap_req`. `ref` is the address of the structure; a callback
is a function pointer of type `κ`, `none` for the default handler. -/
structure CoapReq (κ : Type) where
  ref : ℕ
  request : CoapPacket
  requestWoBlock2 : PacketFields
  blockCtx : BlockContext
  reply : Reply
  pending : Pending
  isObserve : Bool
  isPending : Bool
  cb : Option κ
  userData : ℕ
  deriving DecidableEq

/-- `struct golioth_req_rsp`. `getNext` says whether `get_next` is set, to
`golioth_coap_req_next_block` on the request the response belongs to; the length
is that of `data`. -/
structure Rsp where
  data : List UInt8 := []
  off : ℕ := 0
  total : ℕ := 0
  getNext : Bool := false
  userData : ℕ
  err : ℤ := 0
  deriving DecidableEq, Repr

/-- The length of the data. -/
def Rsp.len (rsp : Rsp) : ℕ := rsp.data.length

/-- The arguments of `golioth_coap_req_cb`. -/
structure ReqArgs (κ : Type) where
  method : Method
  pathv : List (List UInt8)
  format : ℕ
  data : Option (List UInt8)
  dataLen : ℕ
  cb : Option κ
  userData : ℕ
  /-- `GOLIOTH_COAP_REQ_OBSERVE`. -/
  flagObserve : Bool
  /-- `GOLIOTH_COAP_REQ_NO_RESP_BODY`. -/
  flagNoRespBody : Bool

/-- The arguments of `golioth_fw_download`; `uri` is the memory from the first
byte of the URI on. -/
structure DownloadArgs (κ : Type) where
  uri : List UInt8
  uriLen : ℕ
  cb : Option κ
  userData : ℕ

/-- The two ways a request comes to be scheduled. -/
inductive Submission (κ : Type)
  | reqCb (args : ReqArgs κ)
  | fwDownload (args : DownloadArgs κ)

/-- Whether a submission asks for an observation. -/
def Submission.observe {κ : Type} : Submission κ → Bool
  | .reqCb args => args.method = .get ∧ args.flagObserve
  | .fwDownload _ => false

/-! ## Callbacks -/

/-- What a callback may do while it runs. -/
inductive CbCmd (κ σ : Type)
  /-- `rsp->get_next(rsp->get_next_data, status)` -/
  | getNext (status : ℤ)
  | submit (submission : Submission κ)
  | get
  | set (app : σ)

/-- What the command returns to the callback. -/
abbrev CbCmd.Ans {κ σ : Type} : CbCmd κ σ → Type
  | .getNext _ => ℤ
  | .submit _ => ℤ
  | .get => σ
  | .set _ => Unit

/-- The code of a callback, applied to its response. -/
abbrev CbProg (κ σ : Type) := CS.Prog (CbCmd κ σ) CbCmd.Ans ℤ

/-! ## The environment -/

/-- The configuration the module is built with, and the size of the client's
receive buffer. -/
structure Config where
  rxBufferLen : ℕ
  /-- `CONFIG_COAP_INIT_ACK_TIMEOUT_MS` -/
  initAckTimeoutMs : ℕ
  /-- `CONFIG_COAP_ACK_RANDOM_PERCENT` -/
  ackRandomPercent : ℕ
  /-- `CONFIG_COAP_RANDOMIZE_ACK_TIMEOUT` -/
  randomizeAckTimeout : Bool

/-- Everything the module calls or reads. A function of a number gives the
outcome of the reading with that number. -/
structure Env (κ σ : Type) where
  zephyr : Zephyr
  config : Config
  /-- The code behind a function pointer. -/
  code : κ → Rsp → CbProg κ σ
  /-- `coap_next_id` -/
  coapNextId : ℕ → UInt16
  /-- `coap_next_token` -/
  coapNextToken : ℕ → FullToken
  /-- `k_uptime_get` -/
  kUptimeGet : ℕ → ℤ
  /-- `sys_rand32_get` -/
  sysRand32Get : ℕ → UInt32
  /-- Whether `calloc` and `malloc` return memory. -/
  allocates : ℕ → Bool
  /-- `golioth_send_coap` -/
  goliothSendCoap : ℕ → ℤ
  /-- What an uninitialised token array holds. -/
  stack : List UInt8

/-- `cb ? cb : golioth_req_rsp_default_handler`, applied to a response. -/
def Env.callback {κ σ : Type} (e : Env κ σ) : Option κ → Rsp → CbProg κ σ
  | none, _ => .ret 0
  | some cb, rsp => e.code cb rsp

/-! ## The state of a client -/

/-- What can be observed of the module. -/
inductive Event
  /-- A submission returned. -/
  | scheduled (ref : ℕ) (observe : Bool) (err : ℤ)
  /-- The callback of a request is invoked. -/
  | called (ref : ℕ) (rsp : Rsp)
  /-- The callback of a request returns. -/
  | returned (ref : ℕ) (rsp : Rsp) (ret : ℤ)
  /-- A request packet is passed to `golioth_send_coap`. -/
  | sent (ref : ℕ) (data : List UInt8)
  /-- A request is freed. -/
  | freed (ref : ℕ)
  deriving DecidableEq

/-- The request an event is about. -/
def Event.ref : Event → ℕ
  | .scheduled ref _ _ => ref
  | .called ref _ => ref
  | .returned ref _ _ => ref
  | .sent ref _ => ref
  | .freed ref => ref

/-- The request list and connection flag of `struct golioth_client`, with the
next free address, the number of readings taken, the state of the client code
and the log. -/
structure Client (κ σ : Type) where
  coapReqs : List (CoapReq κ)
  coapReqsConnected : Bool
  nextRef : ℕ
  readings : ℕ
  app : σ
  log : List Event

namespace Client

variable {κ σ : Type}

/-- `golioth_coap_reqs_init`. -/
def init (app : σ) : Client κ σ where
  coapReqs := []
  coapReqsConnected := false
  nextRef := 0
  readings := 0
  app := app
  log := []

/-- The addresses of the listed requests, in order. -/
def refs (c : Client κ σ) : List ℕ := c.coapReqs.map (·.ref)

/-- The listed request at an address. -/
def find (c : Client κ σ) (ref : ℕ) : Option (CoapReq κ) := c.coapReqs.find? (·.ref = ref)

/-- Write to the request at an address. -/
def modify (c : Client κ σ) (ref : ℕ) (f : CoapReq κ → CoapReq κ) : Client κ σ :=
  { c with coapReqs := c.coapReqs.map fun req => if req.ref = ref then f req else req }

/-- Append an event to the log. -/
def emit (c : Client κ σ) (event : Event) : Client κ σ := { c with log := c.log ++ [event] }

/-- Take one reading of the environment. -/
def tick (c : Client κ σ) : Client κ σ := { c with readings := c.readings + 1 }

end Client

end Golioth.Requests
