/-
# Packet helpers

`coap_utils.c`, `coap_utils.h` and the block size estimate of
`golioth_utils.c`. A path handed over as a C string is the memory from its first
byte on; memory past the end of the list reads as the terminating zero.
-/
import Golioth.Coap.Zephyr
import Mathlib.Data.Nat.Log

namespace Golioth.Coap

/-- `coap_packet_set_id`: patch the message id in the buffer. -/
def coapPacketSetId (packet : CoapPacket) (id : UInt16) : CoapPacket :=
  { packet with
    data := (packet.data.set 2 (UInt8.ofNat (id.toNat / 256))).set 3
      (UInt8.ofNat (id.toNat % 256)) }

/-- Go on with the packet if the last function that appended to it succeeded. -/
def orReturn (result : ℤ × CoapPacket) (next : CoapPacket → ℤ × CoapPacket) : ℤ × CoapPacket :=
  if result.1 = 0 then next result.2 else result

/-- What holds of the packet after a function that succeeds, and is established from that by the
next one. -/
theorem orReturn_rule {P Q : CoapPacket → Prop} {result : ℤ × CoapPacket}
    {next : CoapPacket → ℤ × CoapPacket} (hresult : result.1 = 0 → P result.2)
    (hnext : ∀ packet, P packet → (next packet).1 = 0 → Q (next packet).2) :
    (orReturn result next).1 = 0 → Q (orReturn result next).2 := by
  rw [orReturn]
  split
  · next hok => exact hnext _ (hresult hok)
  · next hne => exact fun hok => absurd hok hne

/-! ## Uri-Path options -/

/-- The byte `'/'`. -/
def slash : UInt8 := 47

/-- Append one Uri-Path option; the length argument has 16 bits. -/
def appendUriPath (z : Zephyr) (packet : CoapPacket) (segment : List UInt8) : ℤ × CoapPacket :=
  z.coapPacketAppendOption packet .uriPath (segment.take (segment.length % 2 ^ 16))

/-- The scanning loop: `segment` is what lies between `begin` and `p`, `memory`
what lies from `p` on, `room` the distance from `p` to `end`. -/
def scanUriPath (z : Zephyr) :
    (memory : List UInt8) → (room : Option ℕ) → (segment : List UInt8) → CoapPacket →
      ℤ × CoapPacket
  | [], _, segment, packet =>
    if segment = [] then (0, packet) else appendUriPath z packet segment
  | byte :: memory, room, segment, packet =>
    if room = some 0 ∨ byte = 0 then
      -- the last segment, unless it is empty
      if segment = [] then (0, packet) else appendUriPath z packet segment
    else if byte = slash then
      orReturn (appendUriPath z packet segment) fun packet =>
        scanUriPath z memory (room.map (· - 1)) [] packet
    else
      scanUriPath z memory (room.map (· - 1)) (segment ++ [byte]) packet

/-- `coap_packet_append_uri_path_from_string_range`: `memory` starts at `begin`,
`length` is the distance from `begin` to `end`, `none` for the unbounded end a
zero-terminated string is given. -/
def coapPacketAppendUriPathFromStringRange (z : Zephyr) (packet : CoapPacket)
    (memory : List UInt8) (length : Option ℕ) : ℤ × CoapPacket :=
  -- the leading slashes are skipped without a look at the end of the range
  let trimmed := memory.dropWhile (· = slash)
  scanUriPath z trimmed (length.map (· - (memory.length - trimmed.length))) [] packet

/-- `coap_packet_append_uri_path_from_pathv`. -/
def coapPacketAppendUriPathFromPathv (z : Zephyr) :
    CoapPacket → (pathv : List (List UInt8)) → ℤ × CoapPacket
  | packet, [] => (0, packet)
  | packet, path :: pathv =>
    orReturn (coapPacketAppendUriPathFromStringRange z packet path none) fun packet =>
      coapPacketAppendUriPathFromPathv z packet pathv

/-- `strlen`. -/
def strlen (memory : List UInt8) : ℕ := (memory.takeWhile (· ≠ 0)).length

/-- `coap_pathv_estimate_alloc_len`. -/
def coapPathvEstimateAllocLen (pathv : List (List UInt8)) : ℕ :=
  (pathv.map fun path => strlen path + strlen path / 13 + 1).sum

/-! ## What the helpers assemble -/

/-- The request packets a client assembles: `coap_packet_init` with a method and a full token
has succeeded, and so has everything appended since, options below Block2 and
then, if `payload` is set, a payload; the message id may have been patched. -/
inductive Assembled (z : Zephyr) : (payload : Bool) → CoapPacket → Prop
  | init {maxLen : ℕ} {type : MsgType} {token : Token} {method : Method} {id : UInt16} :
      token.1.length = tokenMaxLen →
      (z.coapPacketInit maxLen type token method.code id).1 = 0 →
      Assembled z false (z.coapPacketInit maxLen type token method.code id).2
  | appendOption {packet : CoapPacket} {option : OptionNum} {value : List UInt8} :
      Assembled z false packet → option.value < OptionNum.block2.value →
      (z.coapPacketAppendOption packet option value).1 = 0 →
      Assembled z false (z.coapPacketAppendOption packet option value).2
  | appendOptionInt {packet : CoapPacket} {option : OptionNum} {value : ℕ} :
      Assembled z false packet → option.value < OptionNum.block2.value →
      (z.coapAppendOptionInt packet option value).1 = 0 →
      Assembled z false (z.coapAppendOptionInt packet option value).2
  | appendPayloadMarker {packet : CoapPacket} :
      Assembled z false packet → (z.coapPacketAppendPayloadMarker packet).1 = 0 →
      Assembled z true (z.coapPacketAppendPayloadMarker packet).2
  | appendPayload {packet : CoapPacket} {payload : List UInt8} :
      Assembled z true packet → (z.coapPacketAppendPayload packet payload).1 = 0 →
      Assembled z true (z.coapPacketAppendPayload packet payload).2
  | setId {payload : Bool} {packet : CoapPacket} (id : UInt16) :
      Assembled z payload packet → Assembled z payload (coapPacketSetId packet id)

/-- An assembled packet has a header. -/
theorem Assembled.headerLen_le {z : Zephyr} (hheader : z.HeaderContract) {payload : Bool}
    {packet : CoapPacket} (h : Assembled z payload packet) :
    Zephyr.headerLen ≤ packet.data.length := by
  have hkept : ∀ before after : CoapPacket, Zephyr.headerLen ≤ before.data.length →
      Zephyr.KeepsHeader before after → Zephyr.headerLen ≤ after.data.length := by
    intro before after hle hkeeps
    have hprefix := hkeeps.length_le
    rwa [List.length_take_of_le hle] at hprefix
  induction h with
  | init htoken hok =>
    rw [hheader.init _ _ _ _ _ hok, Zephyr.headerBytes, List.length_append, htoken]
    exact le_rfl
  | appendOption _ _ _ ih => exact hkept _ _ ih (hheader.appendOption _ _ _)
  | appendOptionInt _ _ _ ih => exact hkept _ _ ih (hheader.appendOptionInt _ _ _)
  | appendPayloadMarker _ _ ih => exact hkept _ _ ih (hheader.appendPayloadMarker _)
  | appendPayload _ _ ih => exact hkept _ _ ih (hheader.appendPayload _ _)
  | setId _ _ ih =>
    rw [coapPacketSetId, List.length_set, List.length_set]
    exact ih

/-- How a server reads the block a request names: `named` gives the block number
and the size exponent of the Block2 option in the bytes of a packet. A packet
without payload names the block of the context that `coap_append_block2_option`
appended successfully, if its number has no more than twenty bits, and none
otherwise. -/
structure NamingContract (z : Zephyr) (named : List UInt8 → Option (ℕ × ℕ)) : Prop where
  plain : ∀ packet, Assembled z false packet → named packet.data = none
  keeps : ∀ packet context, Assembled z false packet →
    packet.data <+: (z.coapAppendBlock2Option packet context).2.data
  appended : ∀ packet context, Assembled z false packet → context.blockSize < 7 →
    context.current / coapBlockSizeToBytes context.blockSize < 2 ^ 20 →
    (z.coapAppendBlock2Option packet context).1 = 0 →
      named (z.coapAppendBlock2Option packet context).2.data =
        some (context.current / coapBlockSizeToBytes context.blockSize, context.blockSize)
  tooLong : ∀ packet context, Assembled z false packet →
    2 ^ 20 ≤ context.current / coapBlockSizeToBytes context.blockSize →
    (z.coapAppendBlock2Option packet context).1 = 0 →
      named (z.coapAppendBlock2Option packet context).2.data = none
  failed : ∀ packet context, Assembled z false packet →
    (z.coapAppendBlock2Option packet context).1 ≠ 0 →
      named (z.coapAppendBlock2Option packet context).2.data = none

/-- A function that appends to a packet leaves an assembled one if it succeeds. -/
def Assembles (z : Zephyr) (payload : Bool) (result : ℤ × CoapPacket) : Prop :=
  result.1 = 0 → Assembled z payload result.2

section Assembles

variable {z : Zephyr} {packet : CoapPacket}

theorem Assembles.orReturn {result : ℤ × CoapPacket} {next : CoapPacket → ℤ × CoapPacket}
    {payload : Bool} (hresult : Assembles z false result)
    (hnext : ∀ packet, Assembled z false packet → Assembles z payload (next packet)) :
    Assembles z payload (orReturn result next) :=
  orReturn_rule hresult hnext

theorem assembles_self (h : Assembled z false packet) : Assembles z false (0, packet) := fun _ => h

theorem assembles_appendUriPath (h : Assembled z false packet) (segment : List UInt8) :
    Assembles z false (appendUriPath z packet segment) :=
  fun hok => .appendOption h (by decide) hok

theorem assembles_scanUriPath (memory : List UInt8) (room : Option ℕ)
    (segment : List UInt8) (h : Assembled z false packet) :
    Assembles z false (scanUriPath z memory room segment packet) := by
  induction memory generalizing room segment packet with
  | nil =>
    rw [scanUriPath]
    split
    · exact assembles_self h
    · exact assembles_appendUriPath h segment
  | cons byte memory ih =>
    rw [scanUriPath]
    split
    · split
      · exact assembles_self h
      · exact assembles_appendUriPath h segment
    · split
      · exact (assembles_appendUriPath h segment).orReturn fun _ hpacket => ih _ _ hpacket
      · exact ih _ _ h

theorem assembles_stringRange (h : Assembled z false packet) (memory : List UInt8)
    (length : Option ℕ) :
    Assembles z false (coapPacketAppendUriPathFromStringRange z packet memory length) :=
  assembles_scanUriPath _ _ _ h

theorem assembles_pathv (h : Assembled z false packet) (pathv : List (List UInt8)) :
    Assembles z false (coapPacketAppendUriPathFromPathv z packet pathv) := by
  induction pathv generalizing packet with
  | nil => exact assembles_self h
  | cons path pathv ih =>
    rw [coapPacketAppendUriPathFromPathv]
    exact (assembles_stringRange h path none).orReturn fun _ hpacket => ih hpacket

end Assembles

/-! ## Block size estimate -/

/-- `COAP_BLOCK_1024`, the largest size exponent. -/
def coapBlock1024 : ℕ := 6

/-- The halving loop of `max_block_size_from_payload_len`; `room` counts the size
exponents still above `blockSize`. -/
def halvePayloadLen : (room : ℕ) → (payloadLen : ℕ) → (blockSize : ℕ) → ℕ
  | 0, _, blockSize => blockSize
  | room + 1, payloadLen, blockSize =>
    if 1 < payloadLen then halvePayloadLen room (payloadLen / 2) (blockSize + 1) else blockSize

/-- `max_block_size_from_payload_len`; the argument has 16 bits. -/
def maxBlockSizeFromPayloadLen (payloadLen : ℕ) : ℕ :=
  halvePayloadLen coapBlock1024 (payloadLen % 2 ^ 16 / 16) 0

/-- `golioth_estimated_coap_block_size`. -/
def goliothEstimatedCoapBlockSize (rxBufferLen : ℕ) : ℕ :=
  maxBlockSizeFromPayloadLen rxBufferLen

/-- The size exponent is the largest one whose blocks fit in the receive buffer. -/
def IsLargestBlockSize (rxBufferLen blockSize : ℕ) : Prop :=
  blockSize ≤ coapBlock1024 ∧ 16 * 2 ^ blockSize ≤ rxBufferLen ∧
    ∀ other ≤ coapBlock1024, 16 * 2 ^ other ≤ rxBufferLen → other ≤ blockSize

/-- The length of the receive buffer has 16 bits, or enough is left of it when it is narrowed for
the largest blocks. -/
def NarrowsWell (rxBufferLen : ℕ) : Prop :=
  rxBufferLen < 2 ^ 16 ∨ 16 * 2 ^ coapBlock1024 ≤ rxBufferLen % 2 ^ 16

section Estimate

variable {rxBufferLen blockSize : ℕ}

/-- **Run of the loop.** The length is halved as often as it can be. -/
theorem halvePayloadLen_eq (room payloadLen blockSize : ℕ) :
    halvePayloadLen room payloadLen blockSize = blockSize + min room (Nat.log 2 payloadLen) := by
  induction room generalizing payloadLen blockSize with
  | zero => rw [halvePayloadLen, Nat.zero_min, Nat.add_zero]
  | succ room ih =>
    rw [halvePayloadLen]
    split
    · next hlt =>
      have hlog : Nat.log 2 payloadLen = Nat.log 2 (payloadLen / 2) + 1 :=
        Nat.log_of_one_lt_of_le (by decide) hlt
      rw [ih, hlog]
      omega
    · next hle =>
      rw [Nat.log_of_lt (by omega), Nat.min_zero, Nat.add_zero]

theorem isLargestBlockSize_iff (hlen : 16 ≤ rxBufferLen) :
    IsLargestBlockSize rxBufferLen blockSize ↔
      blockSize = min coapBlock1024 (Nat.log 2 (rxBufferLen / 16)) := by
  have hfits (other : ℕ) : 16 * 2 ^ other ≤ rxBufferLen ↔ other ≤ Nat.log 2 (rxBufferLen / 16) := by
    rw [Nat.le_log_iff_pow_le (by decide) (by omega), Nat.le_div_iff_mul_le (by decide),
      Nat.mul_comm]
  rw [IsLargestBlockSize]
  simp only [hfits]
  constructor
  · rintro ⟨hle, hlog, hleast⟩
    exact le_antisymm (le_min hle hlog) (hleast _ (min_le_left _ _) (min_le_right _ _))
  · rintro rfl
    exact ⟨min_le_left _ _, min_le_right _ _, fun other hle hlog => le_min hle hlog⟩

theorem min_log_mono {m n : ℕ} (h : m ≤ n) (room : ℕ) :
    min room (Nat.log 2 (m / 16)) ≤ min room (Nat.log 2 (n / 16)) :=
  min_le_min le_rfl (Nat.log_mono_right (Nat.div_le_div_right h))

theorem goliothEstimatedCoapBlockSize_eq (rxBufferLen : ℕ) :
    goliothEstimatedCoapBlockSize rxBufferLen =
      min coapBlock1024 (Nat.log 2 (rxBufferLen % 2 ^ 16 / 16)) := by
  rw [goliothEstimatedCoapBlockSize, maxBlockSizeFromPayloadLen, halvePayloadLen_eq, Nat.zero_add]

/-- What is left of the length when it is narrowed has the same estimate. -/
theorem min_log_narrowed_iff (rxBufferLen : ℕ) :
    min coapBlock1024 (Nat.log 2 (rxBufferLen % 2 ^ 16 / 16)) =
      min coapBlock1024 (Nat.log 2 (rxBufferLen / 16)) ↔ NarrowsWell rxBufferLen := by
  by_cases hsmall : rxBufferLen < 2 ^ 16
  · rw [Nat.mod_eq_of_lt hsmall]
    exact iff_of_true rfl (.inl hsmall)
  · have hlarge : coapBlock1024 ≤ Nat.log 2 (rxBufferLen / 16) := by
      rw [Nat.le_log_iff_pow_le (by decide) (by omega), coapBlock1024]
      omega
    have hwell : NarrowsWell rxBufferLen ↔ 2 ^ coapBlock1024 ≤ rxBufferLen % 2 ^ 16 / 16 := by
      rw [NarrowsWell, or_iff_right hsmall, Nat.le_div_iff_mul_le (by decide), Nat.mul_comm]
    rw [min_eq_left hlarge, min_eq_left_iff, hwell]
    by_cases hzero : rxBufferLen % 2 ^ 16 / 16 = 0
    · rw [hzero]
      decide
    · exact Nat.le_log_iff_pow_le (by decide) hzero

/-- **Block size estimate.** The estimate is the largest block size that fits exactly for the
lengths that narrow well, and on them it is monotone. -/
theorem estimatedBlockSize_largest_iff (hlen : 16 ≤ rxBufferLen) :
    (IsLargestBlockSize rxBufferLen (goliothEstimatedCoapBlockSize rxBufferLen) ↔
      NarrowsWell rxBufferLen) ∧
    ∀ longer, rxBufferLen ≤ longer → NarrowsWell rxBufferLen → NarrowsWell longer →
      goliothEstimatedCoapBlockSize rxBufferLen ≤ goliothEstimatedCoapBlockSize longer := by
  constructor
  · rw [isLargestBlockSize_iff hlen, goliothEstimatedCoapBlockSize_eq,
      min_log_narrowed_iff rxBufferLen]
  · intro longer hle hwell hwell'
    rw [goliothEstimatedCoapBlockSize_eq, goliothEstimatedCoapBlockSize_eq,
      (min_log_narrowed_iff rxBufferLen).mpr hwell, (min_log_narrowed_iff longer).mpr hwell']
    exact min_log_mono hle coapBlock1024

theorem estimatedBlockSize_largest_iff_sample :
    (IsLargestBlockSize 640 (goliothEstimatedCoapBlockSize 640) ↔ NarrowsWell 640) ∧
      ∀ longer, 640 ≤ longer → NarrowsWell 640 → NarrowsWell longer →
        goliothEstimatedCoapBlockSize 640 ≤ goliothEstimatedCoapBlockSize longer :=
  estimatedBlockSize_largest_iff (by decide)

/-- A buffer of 65536 bytes is taken for an empty one. -/
theorem estimatedBlockSize_not_largest :
    ¬ IsLargestBlockSize 65536 (goliothEstimatedCoapBlockSize 65536) := by
  rintro ⟨-, -, hleast⟩
  exact absurd (hleast 1 (by decide) (by decide)) (by decide)

end Estimate

end Golioth.Coap
