/-
# Remote procedure calls

`rpc.c`: a request is a map with an id, the name of a method and a list of
parameters. The method is called with a decoding state inside the list of its
parameters and an encoding state inside the details of the response.
-/
import Golioth.Zcbor.Utils
import Golioth.Requests.State

namespace Golioth.Rpc

open Golioth.Zcbor Golioth.Requests

variable {S E σ : Type}

/-- `GOLIOTH_RPC_UNKNOWN`. -/
def statusUnknown : ℕ := 2

/-- `struct golioth_rpc_method`, with the argument of the callback inside the callback. -/
structure RpcMethod (S E : Type) where
  name : List UInt8
  callback : (params : S) → (zse : E) → ℕ × E

/-- The variables of `on_rpc` that the entries of its table decode into. -/
structure RpcVars (S : Type) where
  id : Local ZcborString
  method : Local ZcborString
  params : Local S

/-- The loop of `params_decode`, and what follows it. -/
def skipParams (lib : ZcborDecode S) : (fuel : ℕ) → Cursor S σ → Walked S σ
  | 0, w => (none, w)
  | fuel + 1, w =>
    match zcborListOrMapEnd lib (w.record (.element w.zsd)) with
    | (true, w) =>
      okOrReturn (-Errno.ebadmsg) w (lib.listEndDecode w.zsd) fun w => (some 0, w)
    | (false, w) =>
      okOrReturn (-Errno.ebadmsg) w (lib.anySkip w.zsd) fun w => skipParams lib fuel w

/-- `params_decode` into the state that `assign` writes. -/
def paramsDecode (lib : ZcborDecode S) (fuel : ℕ) (assign : S → σ → σ) (w : Cursor S σ) :
    Walked S σ :=
  okOrReturn (-Errno.ebadmsg) w (lib.listStartDecode w.zsd) fun w =>
    skipParams lib fuel { w with out := assign w.zsd w.out }

/-- The table of `on_rpc`. -/
def rpcEntries (lib : ZcborDecode S) (fuel : ℕ) : List (ZcborMapEntry S (RpcVars S)) :=
  [{ key := .tstr (ascii "id")
     decode := zcborMapTstrDecode lib fun str vars =>
      { vars with id := { value := str, decoded := true } } },
    { key := .tstr (ascii "method")
      decode := zcborMapTstrDecode lib fun str vars =>
        { vars with method := { value := str, decoded := true } } },
    { key := .tstr (ascii "params")
      decode := paramsDecode lib fuel fun zsd vars =>
        { vars with params := { value := zsd, decoded := true } } }]

/-- The request of `on_rpc` is decoded, from variables that have not been assigned to. -/
def decodeRpc (lib : ZcborDecode S) (fuel : ℕ) (data : List UInt8) (vars : RpcVars S) :
    List (Visit S) × Walked S (RpcVars S) :=
  zcborMapDecodeVisits lib fuel (rpcEntries lib fuel)
    { zsd := lib.newDecodeState data 1 2, out := vars }

/-- `rpc_find_and_call`: the status of the call and the encoding state it leaves. -/
def rpcFindAndCall (enc : ZcborEncode E) (methods : List (RpcMethod S E)) (params : S)
    (method : List UInt8) (zse : E) : Except ℤ (ℕ × E) :=
  match methods.find? fun rpcMethod => rpcMethod.name = method with
  | none => .ok (statusUnknown, zse)
  | some rpcMethod => do
    let zse ← encoding (enc.tstrEncode (ascii "detail") zse)
    let zse ← encoding (enc.mapStartEncode sizeMax zse)
    let (status, zse) := rpcMethod.callback params zse
    let zse ← encoding (enc.mapEndEncode sizeMax zse)
    return (status, zse)

/-- The response to a request, or the error of encoding it. -/
def rpcResponse (lib : ZcborDecode S) (enc : ZcborEncode E) (methods : List (RpcMethod S E))
    (maxResponseLen : ℕ) (w : Cursor S (RpcVars S)) : Except ℤ (List UInt8) := do
  let zse ← encoding (enc.mapStartEncode 1 (enc.newEncodeState maxResponseLen 1))
  let zse ← encoding (enc.tstrEncode (ascii "id") zse)
  let zse ← encoding (enc.tstrEncode (lib.text w.zsd w.out.id.value) zse)
  let (status, zse) ← rpcFindAndCall enc methods w.out.params.value
    (lib.text w.zsd w.out.method.value) zse
  let zse ← encoding (enc.tstrEncode (ascii "statusCode") zse)
  let zse ← encoding (enc.uint64Put status zse)
  let zse ← encoding (enc.mapEndEncode 1 zse)
  return enc.encoded zse

/-- The payload of the response the server sends after an observation has been set up. -/
def isOk (data : List UInt8) : Bool :=
  data.length = 3 && (data.drop 1 = ascii "OK")

/-- What a callback of an observation does last: it returns, or it sends a response and returns
what that returns. -/
inductive Replied
  | returned (err : ℤ)
  | sent (payload : List UInt8)
  deriving DecidableEq, Repr

def Replied.ofResponse : Except ℤ (List UInt8) → Replied
  | .error err => .returned err
  | .ok payload => .sent payload

/-- `on_rpc`, whose response goes to `.rpc/status`. -/
def onRpc (lib : ZcborDecode S) (enc : ZcborEncode E) (methods : List (RpcMethod S E))
    (maxResponseLen fuel : ℕ) (vars : RpcVars S) (rsp : Rsp) : Option Replied :=
  if rsp.err ≠ 0 then some (.returned rsp.err)
  else if isOk rsp.data then some (.returned 0)
  else
    match (decodeRpc lib fuel rsp.data vars).2 with
    | (none, _) => none
    | (some err, w) =>
      if err ≠ 0 then some (.returned err)
      else some (.ofResponse (rpcResponse lib enc methods maxResponseLen w))

end Golioth.Rpc
