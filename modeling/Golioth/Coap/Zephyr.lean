/-
# Zephyr's CoAP functions

The functions of `zephyr/net/coap.h` that the client calls, as parameters. Those
that append to a packet return an `int`, zero for success, and the packet as they
leave it; those that read a block option return an `int` and the block context
as they leave it.

The contracts below are what Zephyr documents for these functions. A result
names the contracts it needs; most results about the request module need none.
-/
import Golioth.Coap.Packet

namespace Golioth.Coap

/-- The functions of Zephyr's CoAP library that the client uses. -/
structure Zephyr where
  coapPacketInit : (maxLen : ℕ) → MsgType → Token → (code : UInt8) → (id : UInt16) →
    ℤ × CoapPacket
  coapPacketAppendOption : CoapPacket → OptionNum → (value : List UInt8) → ℤ × CoapPacket
  coapAppendOptionInt : CoapPacket → OptionNum → (value : ℕ) → ℤ × CoapPacket
  coapAppendBlock2Option : CoapPacket → BlockContext → ℤ × CoapPacket
  coapPacketAppendPayloadMarker : CoapPacket → ℤ × CoapPacket
  coapPacketAppendPayload : CoapPacket → (payload : List UInt8) → ℤ × CoapPacket
  coapUpdateFromBlock : RxPacket → BlockContext → ℤ × BlockContext
  coapNextBlockForOption : RxPacket → BlockContext → OptionNum → ℤ × BlockContext

namespace Zephyr

variable (z : Zephyr)

/-- The length of a header with a full token. -/
def headerLen : ℕ := 4 + tokenMaxLen

/-- The header of a request, RFC 7252 section 3: version one, the type and the
token length, the code, the message id and the token. -/
def headerBytes (type : MsgType) (token : Token) (code : UInt8) (id : UInt16) : List UInt8 :=
  [UInt8.ofNat (64 + 16 * type.bits + token.1.length), code,
    UInt8.ofNat (id.toNat / 256), UInt8.ofNat (id.toNat % 256)] ++ token.1

/-- The header of a packet is still there after something was appended to it. -/
def KeepsHeader (before after : CoapPacket) : Prop :=
  before.data.take headerLen <+: after.data

/-- Headers: `coap_packet_init` writes the header, and what appends to a packet
leaves it in place. -/
structure HeaderContract : Prop where
  init : ∀ maxLen type token code id,
    (z.coapPacketInit maxLen type token code id).1 = 0 →
      (z.coapPacketInit maxLen type token code id).2.data = headerBytes type token code id
  appendOption : ∀ packet option value,
    KeepsHeader packet (z.coapPacketAppendOption packet option value).2
  appendOptionInt : ∀ packet option value,
    KeepsHeader packet (z.coapAppendOptionInt packet option value).2
  appendBlock2 : ∀ packet context,
    KeepsHeader packet (z.coapAppendBlock2Option packet context).2
  appendPayloadMarker : ∀ packet,
    KeepsHeader packet (z.coapPacketAppendPayloadMarker packet).2
  appendPayload : ∀ packet payload,
    KeepsHeader packet (z.coapPacketAppendPayload packet payload).2

/-- A Block2 value of at most three bytes whose size exponent is not reserved,
in a packet without a Block1 option. -/
structure WellFormedBlock2 (rx : RxPacket) : Prop where
  nonneg : 0 ≤ coapGetOptionInt rx .block2
  three_bytes : coapGetOptionInt rx .block2 < 2 ^ 24
  szx_lt : blockSzx (coapGetOptionInt rx .block2) < 7
  no_block1 : coapGetOptionInt rx .block1 = -Errno.enoent

/-- The total a response announces in its Size2 option, zero for none; the `int`
is converted to `size_t`. -/
def announcedTotal (rx : RxPacket) : ℕ :=
  if coapGetOptionInt rx .size2 = -Errno.enoent then 0
  else sizeOfInt (coapGetOptionInt rx .size2)

/-- The code is that of a response: its class is not the one of the requests. -/
def ResponseCode (code : UInt8) : Prop := responseCodeClass code ≠ 0

/-- `coap_update_from_block`, when it succeeds on a response, sets the offset to the one
the Block2 option names, takes the smaller block size, and records an announced
total. -/
def UpdateContract : Prop :=
  ∀ rx context, ResponseCode rx.code → WellFormedBlock2 rx → (z.coapUpdateFromBlock rx context).1 = 0 →
    (z.coapUpdateFromBlock rx context).2 =
      { totalSize := if announcedTotal rx ≠ 0 then announcedTotal rx else context.totalSize
        current := blockNum (coapGetOptionInt rx .block2) *
          coapBlockSizeToBytes (blockSzx (coapGetOptionInt rx .block2))
        blockSize := min (blockSzx (coapGetOptionInt rx .block2)) context.blockSize }

/-- `coap_update_from_block`, when it succeeds on the first block of a response, sets
the offset to zero. -/
def FirstBlockContract : Prop :=
  ∀ rx context, ResponseCode rx.code → 0 ≤ coapGetOptionInt rx .block2 →
    blockNum (coapGetOptionInt rx .block2) = 0 → (z.coapUpdateFromBlock rx context).1 = 0 →
      (z.coapUpdateFromBlock rx context).2.current = 0

/-- `coap_update_from_block` refuses a block of a response that is larger than the size
negotiated once there is an offset, and no other. -/
def NegotiationContract : Prop :=
  ∀ rx context, ResponseCode rx.code → WellFormedBlock2 rx →
    ((z.coapUpdateFromBlock rx context).1 = 0 ↔
      (0 < context.current → blockSzx (coapGetOptionInt rx .block2) ≤ context.blockSize))

/-- `coap_update_from_block` accepts a block of a response that is no larger than the size
negotiated once there is an offset, and does not contradict a total that is
known. -/
def AcceptContract : Prop :=
  ∀ rx context, ResponseCode rx.code → WellFormedBlock2 rx →
    (0 < context.current → blockSzx (coapGetOptionInt rx .block2) ≤ context.blockSize) →
    (context.totalSize = 0 ∨ announcedTotal rx = 0 ∨ announcedTotal rx = context.totalSize) →
    (context.totalSize = 0 ∨ blockStart (coapGetOptionInt rx .block2) ≤ context.totalSize) →
      (z.coapUpdateFromBlock rx context).1 = 0

/-- `coap_update_from_block` never enlarges the block size, and
`coap_next_block_for_option` never moves back. -/
structure MonotoneContract : Prop where
  blockSize_le : ∀ rx context,
    (z.coapUpdateFromBlock rx context).2.blockSize ≤ context.blockSize
  advances : ∀ rx context,
    context.current ≤ (z.coapNextBlockForOption rx context .block2).2.current ∧
      (z.coapNextBlockForOption rx context .block2).2.blockSize = context.blockSize

/-- The payload of a block ends past the announced total. -/
def Overruns (rx : RxPacket) (context : BlockContext) : Prop :=
  0 < context.totalSize ∧ context.totalSize < context.current + rx.payload.length

/-- `coap_next_block_for_option` on a Block2 option: a negative error, without
advancing, when the block ends past the announced total; otherwise it adds the
payload length to the offset and returns zero for the last block and the new
offset for any other. -/
structure NextBlockContract : Prop where
  overrun : ∀ rx context, 0 ≤ coapGetOptionInt rx .block2 → Overruns rx context →
    (z.coapNextBlockForOption rx context .block2).1 < 0 ∧
      (z.coapNextBlockForOption rx context .block2).2 = context
  advance : ∀ rx context, 0 ≤ coapGetOptionInt rx .block2 → ¬ Overruns rx context →
    (z.coapNextBlockForOption rx context .block2).2 =
      { context with current := context.current + rx.payload.length }
  last : ∀ rx context, 0 ≤ coapGetOptionInt rx .block2 → ¬ Overruns rx context →
    blockMore (coapGetOptionInt rx .block2) = false →
      (z.coapNextBlockForOption rx context .block2).1 = 0
  more : ∀ rx context, 0 ≤ coapGetOptionInt rx .block2 → ¬ Overruns rx context →
    blockMore (coapGetOptionInt rx .block2) = true →
      (z.coapNextBlockForOption rx context .block2).1 =
        ((context.current + rx.payload.length : ℕ) : ℤ)

end Zephyr

end Golioth.Coap
