/-
# CoAP packets as the client sees them

A received packet is what `coap_packet_parse` leaves behind: header fields, the
values `coap_get_option_int` returns for its options, and the payload. A packet
under construction is a buffer together with the bookkeeping of
`struct coap_packet`; its bytes so far are the buffer up to the offset. Header
fields of such a packet are read back from its bytes.

Zephyr's CoAP functions are not part of this repository. They enter as the
fields of `Zephyr`, and what a result needs of them is stated as a contract of
its own.
-/
import Golioth.Platform

namespace Golioth.Coap

/-! ## Header fields -/

/-- `enum coap_msgtype`. -/
inductive MsgType | con | nonCon | ack | reset
  deriving DecidableEq, Repr

/-- The value of a message type in the header. -/
def MsgType.bits : MsgType → ℕ
  | .con => 0
  | .nonCon => 1
  | .ack => 2
  | .reset => 3

/-- `enum coap_method`. -/
inductive Method | get | post | put | delete | fetch | patch | ipatch
  deriving DecidableEq, Repr

/-- The code byte of a request with the given method. -/
def Method.code : Method → UInt8
  | .get => 1
  | .post => 2
  | .put => 3
  | .delete => 4
  | .fetch => 5
  | .patch => 6
  | .ipatch => 7

/-- `COAP_TOKEN_MAX_LEN`. -/
def tokenMaxLen : ℕ := 8

/-- A token: Zephyr refuses a packet whose token is longer than eight bytes. -/
abbrev Token := { bytes : List UInt8 // bytes.length ≤ tokenMaxLen }

/-- What `coap_next_token` returns: eight bytes. -/
abbrev FullToken := { bytes : List UInt8 // bytes.length = tokenMaxLen }

/-- `COAP_CODE_EMPTY`. -/
def codeEmpty : UInt8 := 0

/-- The option numbers the client names. -/
inductive OptionNum | observe | uriPath | contentFormat | accept | block2 | block1 | size2
  deriving DecidableEq, Repr

/-- The number an option is registered under. -/
def OptionNum.value : OptionNum → ℕ
  | .observe => 6
  | .uriPath => 11
  | .contentFormat => 12
  | .accept => 17
  | .block2 => 23
  | .block1 => 27
  | .size2 => 28

/-! ## Received packets -/

/-- A received packet after parsing. `options` holds, for each option the client
may ask for, the `int` that `coap_get_option_int` returns. -/
structure RxPacket where
  type : MsgType
  code : UInt8
  id : UInt16
  token : Token
  options : List (OptionNum × ℤ)
  payload : List UInt8
  deriving DecidableEq

/-- `coap_get_option_int`: the value of an option, or `-ENOENT`. -/
def coapGetOptionInt (packet : RxPacket) (option : OptionNum) : ℤ :=
  (packet.options.lookup option).getD (-Errno.enoent)

/-- `COAP_RESPONSE_CODE_CLASS`. -/
def responseCodeClass (code : UInt8) : UInt8 := code >>> 5

/-! ## Block options

A Block1 or Block2 value holds a block number, a flag that more blocks follow,
and a size exponent; the block is `2 ^ (exponent + 4)` bytes long. -/

/-- The block number of a block option value. -/
def blockNum (value : ℤ) : ℕ := value.toNat / 16

/-- The flag that more blocks follow. -/
def blockMore (value : ℤ) : Bool := value.toNat / 8 % 2 = 1

/-- The size exponent of a block option value. -/
def blockSzx (value : ℤ) : ℕ := value.toNat % 8

/-- `coap_block_size_to_bytes`. -/
def coapBlockSizeToBytes (szx : ℕ) : ℕ := 2 ^ (szx + 4)

/-- The offset in the whole representation at which a block starts. -/
def blockStart (value : ℤ) : ℕ := blockNum value * coapBlockSizeToBytes (blockSzx value)

/-- The value of a block option. -/
def blockValue (num : ℕ) (more : Bool) (szx : ℕ) : ℕ :=
  num * 16 + (if more then 8 else 0) + szx

@[simp] theorem blockNum_blockValue {num szx : ℕ} {more : Bool} (h : szx < 8) :
    blockNum (blockValue num more szx) = num := by
  cases more <;> simp only [blockNum, blockValue, Int.toNat_natCast] <;> simp <;> omega

@[simp] theorem blockMore_blockValue {num szx : ℕ} {more : Bool} (h : szx < 8) :
    blockMore (blockValue num more szx) = more := by
  cases more <;> simp only [blockMore, blockValue, Int.toNat_natCast] <;> simp <;> omega

@[simp] theorem blockSzx_blockValue {num szx : ℕ} {more : Bool} (h : szx < 8) :
    blockSzx (blockValue num more szx) = szx := by
  cases more <;> simp only [blockSzx, blockValue, Int.toNat_natCast] <;> simp <;> omega

/-- `struct coap_block_context`. -/
structure BlockContext where
  totalSize : ℕ
  current : ℕ
  blockSize : ℕ
  deriving DecidableEq, Repr

/-- `coap_block_transfer_init`. -/
def coapBlockTransferInit (blockSize totalSize : ℕ) : BlockContext where
  totalSize := totalSize
  current := 0
  blockSize := blockSize

/-! ## Packets under construction -/

/-- The members of `struct coap_packet` other than the pointer to the buffer. -/
structure PacketFields where
  offset : ℕ
  maxLen : ℕ
  hdrLen : ℕ
  optLen : ℕ
  delta : ℕ
  deriving DecidableEq, Repr

/-- `struct coap_packet` with the bytes of its buffer below the offset. -/
structure CoapPacket where
  data : List UInt8
  maxLen : ℕ
  hdrLen : ℕ
  optLen : ℕ
  delta : ℕ
  deriving DecidableEq, Repr

namespace CoapPacket

/-- The offset at which the next byte is appended. -/
def offset (packet : CoapPacket) : ℕ := packet.data.length

/-- A copy of the structure, which shares the buffer. -/
def fields (packet : CoapPacket) : PacketFields where
  offset := packet.offset
  maxLen := packet.maxLen
  hdrLen := packet.hdrLen
  optLen := packet.optLen
  delta := packet.delta

/-- Assign an earlier copy of the structure: the bytes stay those of the shared
buffer, up to the offset of the copy. -/
def restore (packet : CoapPacket) (copy : PacketFields) : CoapPacket where
  data := packet.data.take copy.offset
  maxLen := copy.maxLen
  hdrLen := copy.hdrLen
  optLen := copy.optLen
  delta := copy.delta

end CoapPacket

/-- `coap_header_get_id` of a packet under construction. -/
def coapHeaderGetId (packet : CoapPacket) : UInt16 :=
  UInt16.ofNat ((packet.data.getD 2 0).toNat * 256 + (packet.data.getD 3 0).toNat)

/-- The token length `coap_header_get_token` returns. -/
def coapHeaderGetTkl (packet : CoapPacket) : ℕ := (packet.data.getD 0 0).toNat % 16

/-- The token `coap_header_get_token` copies out. -/
def coapHeaderGetToken (packet : CoapPacket) : List UInt8 :=
  (packet.data.drop 4).take (coapHeaderGetTkl packet)

end Golioth.Coap
