/-
# The log backend

`log_msg_process` of `log_backend_golioth.c` encodes a log message as CBOR where
the payload of a CoAP packet will be, and sends the packet. The formatted text is
first written at a distance in front of the encoder, in the same buffer, and then
encoded in place; where the level has a function prefix the text is split at its
first colon. Text and data that are too long are cut.

Zephyr and zcbor enter as parameters. A message has the bytes of its cbprintf
package, and `format` says which text they print.
-/
import Golioth.Coap.Paths
import Golioth.Zcbor.InPlace

namespace Golioth.Logging

open CS Golioth.Coap Golioth.Zcbor

/-! ## Data -/

/-- `struct golioth_pdu_ctx`; pointers are offsets in the packet buffer. -/
structure PduCtx where
  begin : ℕ
  ptr : ℕ
  endPtr : ℕ
  deriving DecidableEq, Repr

/-- What `zcbor_tstr_encode_ptr` or `zcbor_bstr_encode_ptr` is given: the length, and the two
pointers whose difference it is. -/
structure StringCall where
  first : ℕ
  last : ℕ
  len : ℕ
  deriving DecidableEq, Repr

/-- The length is the distance from the first pointer to the last. -/
def StringCall.IsDistance (call : StringCall) : Prop := (call.len : ℤ) = call.last - call.first

instance (call : StringCall) : Decidable call.IsDistance :=
  inferInstanceAs (Decidable ((call.len : ℤ) = call.last - call.first))

/-- `struct golioth_log_ctx`. The bytes of `packet_buf` below the offset of the CoAP packet are
those of the packet, and the others are in the memory of the encoder. What string encoders are
given and what is sent is recorded. -/
structure LogCtx where
  msgIndex : UInt32
  coapPacket : CoapPacket
  zse : EncodeState
  pdu : PduCtx
  calls : List StringCall
  sent : List CoapPacket

/-- What the backend asks of a `struct log_msg`: the level, the timestamp, the name of the source
if there is one, the package and the data. -/
structure LogMsg where
  level : ℕ
  timestamp : ℕ
  source : Option (List UInt8)
  package : List UInt8
  data : List UInt8
  deriving DecidableEq, Repr

/-- The configuration, and functions of Zephyr's logging. The buffer has a size that
`coap_packet_init` takes as 16 bits. -/
structure LogConfig where
  /-- `CONFIG_LOG_BACKEND_GOLIOTH_MAX_PACKET_SIZE`. -/
  maxPacketSize : ℕ
  maxPacketSize_lt : maxPacketSize < 2 ^ 16
  /-- `LOG_FUNCTION_PREFIX_MASK`. -/
  functionPrefixMask : ℕ
  /-- `log_output_timestamp_to_us`. -/
  timestampToUs : ℕ → UInt64
  /-- The characters that `cbpprintf` puts out for a package. -/
  format : List UInt8 → List UInt8

/-- The level has a function prefix. -/
def LogConfig.hasFunc (config : LogConfig) (msg : LogMsg) : Bool :=
  config.functionPrefixMask.testBit msg.level

/-- `CBOR_SPACE_RESERVED`. -/
def cborSpaceReserved : ℕ := 8

/-- `LOG_LEVEL_INTERNAL_RAW_STRING`. -/
def logLevelInternalRawString : ℕ := 0

/-- `COAP_CONTENT_FORMAT_APP_CBOR`. -/
def contentFormatAppCbor : ℕ := 60

/-- `level_str`. -/
def levelStr (level : ℕ) : List UInt8 :=
  match level with
  | 1 => ascii "error"
  | 2 => ascii "warn"
  | 3 => ascii "info"
  | _ => ascii "debug"

def colon : UInt8 := 58

/-! ## Control flow -/

/-- Go on after a part that returned zero, and finish otherwise. -/
def orFinish (result : ℤ × LogCtx) (next : LogCtx → ℤ × LogCtx) : ℤ × LogCtx :=
  if result.1 = 0 then next result.2 else result

/-- `&&` of two calls of the encoder. -/
def andThen (result : Bool × LogCtx) (next : LogCtx → Bool × LogCtx) : Bool × LogCtx :=
  if result.1 then next result.2 else result

/-- Zero after a call of the encoder that succeeded, and an error otherwise. -/
def okOr (err : ℤ) (result : Bool × LogCtx) : ℤ × LogCtx := (if result.1 then 0 else err, result.2)

/-- A call of the encoder. -/
def encodes (encode : EncodeState → Bool × EncodeState) (ctx : LogCtx) : Bool × LogCtx :=
  ((encode ctx.zse).1, { ctx with zse := (encode ctx.zse).2 })

/-- A call of a string encoder for the bytes between two pointers: their difference is converted
to `size_t`. -/
def encodesBetween (encode : (ptr len : ℕ) → EncodeState → Bool × EncodeState) (first last : ℕ)
    (ctx : LogCtx) : Bool × LogCtx :=
  let len := sizeOfInt ((last : ℤ) - first)
  encodes (encode first len) { ctx with calls := ctx.calls ++ [⟨first, last, len⟩] }

/-! ## The functions -/

variable (z : Zephyr) (lib : ZcborInPlace) (config : LogConfig)

theorem length_fullToken_le (token : FullToken) : token.1.length ≤ tokenMaxLen := token.2.le

/-- `coap_packet_prepare`. -/
def coapPacketPrepare (bufLen : ℕ) (token : FullToken) (id : UInt16) : ℤ × CoapPacket :=
  orReturn (z.coapPacketInit (bufLen % 2 ^ 16) .nonCon ⟨token.1, length_fullToken_le token⟩
    Method.post.code id) fun packet =>
  orReturn (z.coapPacketAppendOption packet .uriPath (ascii "logs")) fun packet =>
  orReturn (z.coapAppendOptionInt packet .contentFormat contentFormatAppCbor) fun packet =>
  z.coapPacketAppendPayloadMarker packet

/-- `log_packet_prepare`, with `log_cbor_prepare`. -/
def logPacketPrepare (token : FullToken) (id : UInt16) (ctx : LogCtx) : ℤ × LogCtx :=
  let (err, packet) := coapPacketPrepare z config.maxPacketSize token id
  let ctx := { ctx with coapPacket := packet }
  if err ≠ 0 then (err, ctx)
  else
    (0, { ctx with
      zse := lib.newEncodeState ctx.zse.mem packet.offset (config.maxPacketSize - packet.offset) 1 })

/-- `log_packet_finish`. -/
def logPacketFinish (ctx : LogCtx) : ℤ × LogCtx :=
  let begin := ctx.coapPacket.offset
  let (err, packet) := z.coapPacketAppendPayload ctx.coapPacket
    (ctx.zse.mem.read begin ((ctx.zse.payload - begin) % 2 ^ 16))
  (err, { ctx with coapPacket := packet })

/-- `log_cbor_create_map`. -/
def logCborCreateMap (ctx : LogCtx) : ℤ × LogCtx :=
  okOr (-Errno.enomem) (encodes (lib.mapStartEncode 1) ctx)

/-- `log_cbor_close_map`. -/
def logCborCloseMap (ctx : LogCtx) : ℤ × LogCtx :=
  okOr (-Errno.enomem) (encodes (lib.mapEndEncode 1) ctx)

/-- A label and a text are put one after the other, whatever the encoder returns. -/
def putText (label text : List UInt8) (ctx : LogCtx) : LogCtx :=
  (encodes (lib.tstrPutTerm text) (encodes (lib.tstrPutLit label) ctx).2).2

/-- `log_cbor_append_headers`. -/
def logCborAppendHeaders (msg : LogMsg) (ctx : LogCtx) : LogCtx :=
  let ctx :=
    match msg.source with
    | some name => putText lib (ascii "module") name ctx
    | none => ctx
  putText lib (ascii "level") (levelStr msg.level) ctx

/-- `log_pdu_prepare_ext`. -/
def logPduPrepareExt (elements additionalReserved : ℕ) (ctx : LogCtx) : ℤ × LogCtx :=
  let begin := ctx.zse.payload + cborSpaceReserved * elements + additionalReserved
  let ctx := { ctx with pdu := { begin := begin, ptr := begin, endPtr := ctx.zse.payloadEnd } }
  if ctx.pdu.endPtr < ctx.pdu.begin then (-Errno.enomem, ctx) else (0, ctx)

/-- `log_pdu_prepare`. -/
def logPduPrepare (ctx : LogCtx) : ℤ × LogCtx := logPduPrepareExt 1 0 ctx

/-- `log_pdu_text_finish`. -/
def logPduTextFinish (ctx : LogCtx) : ℤ × LogCtx :=
  okOr (-Errno.ebadmsg) (encodesBetween lib.tstrEncodePtr ctx.pdu.begin ctx.pdu.ptr ctx)

/-- `log_pdu_bytes_finish`. -/
def logPduBytesFinish (ctx : LogCtx) : ℤ × LogCtx :=
  okOr (-Errno.ebadmsg) (encodesBetween lib.bstrEncodePtr ctx.pdu.begin ctx.pdu.ptr ctx)

/-- Write bytes at the pointer of the PDU, which goes behind them. -/
def LogCtx.append (ctx : LogCtx) (bytes : List UInt8) : LogCtx :=
  { ctx with
    zse := { ctx.zse with mem := ctx.zse.mem.write ctx.pdu.ptr bytes }
    pdu := { ctx.pdu with ptr := ctx.pdu.ptr + bytes.length } }

/-- `cbprintf_out_func`. -/
def cbprintfOutFunc (ctx : LogCtx) (c : UInt8) : LogCtx :=
  if ctx.pdu.endPtr ≤ ctx.pdu.ptr then ctx else ctx.append [c]

/-- `cbpprintf` with `cbprintf_out_func`: the characters of the text are put out in turn. -/
def cbpprintf (text : List UInt8) (ctx : LogCtx) : LogCtx := text.foldl cbprintfOutFunc ctx

/-- `find_colon`, where some bytes are left before the end. -/
def findColon (mem : Memory) (p : ℕ) : ℕ → Option ℕ
  | 0 => none
  | left + 1 => if mem p = colon then some p else findColon mem (p + 1) left

/-- The part of `log_msg_process` that puts the time. -/
def putUptime (msg : LogMsg) (ctx : LogCtx) : ℤ × LogCtx :=
  okOr (-Errno.enomem) <|
    andThen (encodes (lib.tstrPutLit (ascii "uptime")) ctx)
      (encodes (lib.uint64Put (config.timestampToUs msg.timestamp)))

/-- The part of `log_msg_process` that puts the index of the message. -/
def putIndex (ctx : LogCtx) : ℤ × LogCtx :=
  okOr (-Errno.enomem) <|
    andThen (encodes (lib.tstrPutLit (ascii "index")) ctx) (encodes (lib.uint32Put ctx.msgIndex))

/-- The part of `log_msg_process` that puts the fields before the text. -/
def putHeaders (msg : LogMsg) (ctx : LogCtx) : ℤ × LogCtx :=
  orFinish (logCborCreateMap lib ctx) fun ctx =>
  orFinish (putUptime lib config msg ctx) fun ctx =>
  let ctx := if msg.level ≠ logLevelInternalRawString then logCborAppendHeaders lib msg ctx else ctx
  putIndex lib ctx

/-- The part of `log_msg_process` that splits the text at a colon. -/
def encodeSplit (funcColon : ℕ) (ctx : LogCtx) : ℤ × LogCtx :=
  -- `sizeof(": ") - 1`
  let postColon := funcColon + 2
  orFinish
    (okOr (-Errno.enomem) <|
      andThen (encodes (lib.tstrPutLit (ascii "func")) ctx)
        (encodesBetween lib.tstrEncodePtr ctx.pdu.begin funcColon)) fun ctx =>
  okOr (-Errno.enomem) <|
    andThen (encodes (lib.tstrPutLit (ascii "msg")) ctx)
      (encodesBetween lib.tstrEncodePtr postColon ctx.pdu.ptr)

/-- The part of `log_msg_process` that encodes the text as a whole. -/
def encodeWhole (ctx : LogCtx) : ℤ × LogCtx :=
  logPduTextFinish lib (encodes (lib.tstrPutLit (ascii "msg")) ctx).2

/-- The part of `log_msg_process` that encodes the text when it has been printed. -/
def encodePrinted (hasFunc : Bool) (ctx : LogCtx) : ℤ × LogCtx :=
  let funcColon :=
    if hasFunc then findColon ctx.zse.mem ctx.pdu.begin (ctx.pdu.ptr - ctx.pdu.begin) else none
  match funcColon with
  | some funcColon => encodeSplit lib funcColon ctx
  | none => encodeWhole lib ctx

/-- The part of `log_msg_process` that prints the package and encodes the text. -/
def encodePackage (msg : LogMsg) (ctx : LogCtx) : ℤ × LogCtx :=
  if msg.package = [] then (0, ctx)
  else
    -- `sizeof("func") + 1`
    orFinish (if config.hasFunc msg then logPduPrepareExt 2 6 ctx else logPduPrepare ctx) fun ctx =>
    encodePrinted lib (config.hasFunc msg) (cbpprintf (config.format msg.package) ctx)

/-- The part of `log_msg_process` that encodes the data. -/
def encodeData (msg : LogMsg) (ctx : LogCtx) : ℤ × LogCtx :=
  if msg.data = [] then (0, ctx)
  else
    let ctx := (encodes (lib.tstrPutLit (ascii "hexdump")) ctx).2
    orFinish (logPduPrepare ctx) fun ctx =>
    logPduBytesFinish lib (ctx.append (msg.data.take (ctx.pdu.endPtr - ctx.pdu.begin)))

/-- `log_msg_process` up to where it finishes. -/
def logMsgEncode (token : FullToken) (id : UInt16) (msg : LogMsg) (ctx : LogCtx) : ℤ × LogCtx :=
  orFinish (logPacketPrepare z lib config token id ctx) fun ctx =>
  orFinish (putHeaders lib config msg ctx) fun ctx =>
  orFinish (encodePackage lib config msg ctx) fun ctx =>
  orFinish (encodeData lib msg ctx) fun ctx =>
  orFinish (logCborCloseMap lib ctx) fun ctx =>
  orFinish (logPacketFinish z ctx) fun ctx =>
  (0, { ctx with sent := ctx.sent ++ [ctx.coapPacket] })

/-- `log_msg_process`; the record starts anew. -/
def logMsgProcess (token : FullToken) (id : UInt16) (msg : LogMsg) (ctx : LogCtx) : ℤ × LogCtx :=
  let (err, ctx) := logMsgEncode z lib config token id msg { ctx with calls := [], sent := [] }
  (err, { ctx with msgIndex := ctx.msgIndex + 1 })

end Golioth.Logging
