/-
# Messages

What a packet that was assembled says to its receiver: the format of RFC 7252,
section 3. The options are delta-encoded after the token, and a payload follows
the byte `0xFF`, which may not be the last one.

The contract below is what Zephyr documents for the functions that write this
format: each either fails or appends what it is asked to.
-/
import Golioth.Coap.Reference

namespace Golioth.Coap

open CS
open CS.OptionFormat (Entry Encodable encodeAll lastNumber)

/-- A message: its header fields, its options in order and its payload. -/
structure Message where
  type : MsgType
  code : UInt8
  id : UInt16
  token : List UInt8
  options : List Entry
  payload : Option (List UInt8)
  deriving DecidableEq

/-- The type that two bits of the header stand for. -/
def MsgType.ofBits : ℕ → MsgType
  | 0 => .con
  | 1 => .nonCon
  | 2 => .ack
  | _ => .reset

@[simp] theorem MsgType.ofBits_bits (type : MsgType) : ofBits type.bits = type := by
  cases type <;> rfl

/-- The message in a sequence of bytes, `none` if it is malformed. -/
def decodeMessage : List UInt8 → Option Message
  | first :: code :: high :: low :: rest =>
    let tokenLen := first.toNat % 16
    if first.toNat / 64 ≠ 1 ∨ tokenMaxLen < tokenLen ∨ rest.length < tokenLen then none
    else
      (OptionFormat.decodeMarked rest.length 0 (rest.drop tokenLen)).bind fun (options, payload) =>
        if payload = some [] then none
        else some
          { type := .ofBits (first.toNat / 16 % 4)
            code := code
            id := UInt16.ofNat (high.toNat * 256 + low.toNat)
            token := rest.take tokenLen
            options := options
            payload := payload }
  | _ => none

/-! ## Writing a packet -/

/-- What a payload adds to a packet: a marker and the payload itself. -/
def payloadBytes : Option (List UInt8) → List UInt8
  | none => []
  | some payload => 255 :: payload

/-- A packet holds a header with a token, and options in ascending order. -/
structure Written (header : List UInt8) (entries : List Entry) (packet : CoapPacket) : Prop where
  data : packet.data = header ++ encodeAll 0 entries
  encodable : Encodable 0 entries
  delta : packet.delta = lastNumber 0 entries

/-- The functions that write a packet append to it if they succeed. The options come in
ascending order, with lengths of 16 bits. -/
structure Zephyr.WritingContract (z : Zephyr) : Prop where
  init : ∀ maxLen type token code id, (z.coapPacketInit maxLen type token code id).1 = 0 →
    (z.coapPacketInit maxLen type token code id).2.data = headerBytes type token code id ∧
      (z.coapPacketInit maxLen type token code id).2.delta = 0
  appendOption : ∀ packet option value, packet.delta ≤ option.value → value.length < 2 ^ 16 →
    (z.coapPacketAppendOption packet option value).1 = 0 →
      (z.coapPacketAppendOption packet option value).2.data =
          packet.data ++ OptionFormat.encode (option.value - packet.delta) value ∧
        (z.coapPacketAppendOption packet option value).2.delta = option.value
  appendOptionInt : ∀ packet option value,
    z.coapAppendOptionInt packet option value =
      z.coapPacketAppendOption packet option (Reference.intBytes value)
  appendPayloadMarker : ∀ packet, (z.coapPacketAppendPayloadMarker packet).1 = 0 →
    (z.coapPacketAppendPayloadMarker packet).2.data = packet.data ++ [255]
  appendPayload : ∀ packet payload, (z.coapPacketAppendPayload packet payload).1 = 0 →
    (z.coapPacketAppendPayload packet payload).2.data = packet.data ++ payload

theorem Reference.writingContract : zephyr.WritingContract where
  init maxLen type token code id hok := by
    refine ⟨headerContract.init maxLen type token code id hok, ?_⟩
    change (coapPacketInit maxLen type token code id).2.delta = 0
    unfold coapPacketInit append
    split <;> rfl
  appendOption packet option value hle hlen hok := by
    change (coapPacketAppendOption packet option value).1 = 0 at hok
    change (coapPacketAppendOption packet option value).2.data = _ ∧
      (coapPacketAppendOption packet option value).2.delta = _
    have hfits : ¬ (option.value < packet.delta ∨ OptionFormat.limit ≤ value.length) := by
      rw [not_or, not_lt, not_le]
      exact ⟨hle, hlen.trans (by decide)⟩
    rw [coapPacketAppendOption, if_neg hfits] at hok ⊢
    dsimp only at hok ⊢
    split at hok
    · next hne => exact absurd hok hne
    · next happended =>
      rw [if_neg happended]
      have happended := not_not.mp happended
      exact ⟨data_append happended, rfl⟩
  appendOptionInt _ _ _ := rfl
  appendPayloadMarker _ hok := data_append hok
  appendPayload _ _ hok := data_append hok

/-- The number of the last option does not go past the one that is appended. -/
structure Zephyr.OrderContract (z : Zephyr) : Prop where
  appendOption : ∀ packet option value, (z.coapPacketAppendOption packet option value).1 = 0 →
    (z.coapPacketAppendOption packet option value).2.delta ≤ max packet.delta option.value
  appendPayloadMarker : ∀ packet, (z.coapPacketAppendPayloadMarker packet).2.delta = packet.delta
  appendPayload : ∀ packet payload, (z.coapPacketAppendPayload packet payload).2.delta = packet.delta

/-- `coap_append_block2_option` appends to a request an option whose value is the block of the
context; it has three bytes at most, and as many from the block number 4096 on. -/
structure Zephyr.Block2Contract (z : Zephyr) (value : BlockContext → List UInt8) : Prop where
  option : ∀ payload packet context, Assembled z payload packet →
    z.coapAppendBlock2Option packet context =
      z.coapPacketAppendOption packet .block2 (value context)
  encodes : ∀ context, context.blockSize < 7 →
    context.current / coapBlockSizeToBytes context.blockSize < 2 ^ 20 →
      Reference.bytesInt (value context) =
        blockValue (context.current / coapBlockSizeToBytes context.blockSize) false
          context.blockSize
  length_le : ∀ context, context.blockSize < 7 →
    context.current / coapBlockSizeToBytes context.blockSize < 2 ^ 20 →
      (value context).length ≤ 3
  length_eq : ∀ context, context.blockSize < 7 →
    2 ^ 12 ≤ context.current / coapBlockSizeToBytes context.blockSize →
    context.current / coapBlockSizeToBytes context.blockSize < 2 ^ 20 →
      (value context).length = 3
  length_lt : ∀ context, (value context).length < 2 ^ 16

namespace Reference

theorem delta_append (packet : CoapPacket) (bytes : List UInt8) :
    (append packet bytes).2.delta = packet.delta := by
  unfold append
  split <;> rfl

theorem orderContract : zephyr.OrderContract where
  appendOption packet option value _ := by
    change (coapPacketAppendOption packet option value).2.delta ≤ _
    unfold coapPacketAppendOption
    split
    · exact le_max_left _ _
    · dsimp only
      split
      · rw [delta_append]
        exact le_max_left _ _
      · exact le_max_right _ _
  appendPayloadMarker packet := delta_append packet _
  appendPayload packet payload := delta_append packet payload

/-- The value of the Block2 option for a context. -/
def block2Value (context : BlockContext) : List UInt8 :=
  intBytes (blockValue (context.current / coapBlockSizeToBytes context.blockSize) false
    context.blockSize)

theorem block2Contract : zephyr.Block2Contract block2Value where
  option _ _ _ _ := rfl
  encodes context hsize hnum := by
    refine bytesInt_intBytes ?_
    simp only [blockValue, Bool.false_eq_true, if_false]
    omega
  length_le context hsize hnum := by
    rw [block2Value, length_intBytes_le_iff]
    simp only [blockValue, Bool.false_eq_true, if_false]
    omega
  length_eq context hsize hlow hnum := by
    have hvalue : 2 ^ 16 ≤ blockValue (context.current / coapBlockSizeToBytes context.blockSize)
        false context.blockSize := by
      simp only [blockValue, Bool.false_eq_true, if_false]
      omega
    have hsmall : blockValue (context.current / coapBlockSizeToBytes context.blockSize)
        false context.blockSize < 2 ^ 24 := by
      simp only [blockValue, Bool.false_eq_true, if_false]
      omega
    rw [block2Value, intBytes, if_neg (by omega), if_neg (by omega), if_neg (by omega),
      if_pos hsmall]
    rfl
  length_lt context := by
    unfold block2Value intBytes
    split_ifs <;> simp

end Reference

/-- A packet is written if the function that appends to it last succeeds. -/
def Writes (header : List UInt8) (entries : List Entry) (result : ℤ × CoapPacket) : Prop :=
  result.1 = 0 → Written header entries result.2

section Writing

variable {z : Zephyr} {header : List UInt8} {entries : List Entry} {packet : CoapPacket}

theorem Written.writes (h : Written header entries packet) : Writes header entries (0, packet) :=
  fun _ => h

theorem Writes.orReturn {entries' : List Entry} {result : ℤ × CoapPacket}
    {next : CoapPacket → ℤ × CoapPacket} (hresult : Writes header entries result)
    (hnext : ∀ packet, Written header entries packet → Writes header entries' (next packet)) :
    Writes header entries' (orReturn result next) :=
  orReturn_rule hresult hnext

theorem writes_appendOption (hz : z.WritingContract) (h : Written header entries packet)
    {option : OptionNum} {value : List UInt8} (hle : lastNumber 0 entries ≤ option.value)
    (hlen : value.length < 2 ^ 16) :
    Writes header (entries ++ [(option.value, value)])
      (z.coapPacketAppendOption packet option value) := by
  intro hok
  obtain ⟨hdata, hdelta⟩ := hz.appendOption packet option value (h.delta ▸ hle) hlen hok
  have hnumber : option.value < OptionFormat.limit := by cases option <;> decide
  refine ⟨?_, ?_, by rw [hdelta, OptionFormat.lastNumber_append_singleton]⟩
  · rw [hdata, h.data, h.delta, OptionFormat.encodeAll_append_singleton, List.append_assoc]
  · exact OptionFormat.encodable_append_singleton h.encodable hle hnumber
      (hlen.trans (by decide))

theorem writes_appendOptionInt (hz : z.WritingContract) (h : Written header entries packet)
    {option : OptionNum} (value : ℕ) (hle : lastNumber 0 entries ≤ option.value) :
    Writes header (entries ++ [(option.value, Reference.intBytes value)])
      (z.coapAppendOptionInt packet option value) := by
  have hlen : (Reference.intBytes value).length < 2 ^ 16 := by
    unfold Reference.intBytes
    split_ifs <;> simp
  rw [hz.appendOptionInt]
  exact writes_appendOption hz h hle hlen

end Writing

/-! ## Paths -/

/-- What is left of some bytes whose length is converted to 16 bits. -/
def narrowed (bytes : List UInt8) : List UInt8 := bytes.take (bytes.length % 2 ^ 16)

theorem length_narrowed_lt (bytes : List UInt8) : (narrowed bytes).length < 2 ^ 16 := by
  have hmod : bytes.length % 2 ^ 16 < 2 ^ 16 := Nat.mod_lt _ (by decide)
  rw [narrowed, List.length_take]
  omega

theorem narrowed_eq_iff {bytes : List UInt8} : narrowed bytes = bytes ↔ bytes.length < 2 ^ 16 := by
  refine ⟨fun h => h ▸ length_narrowed_lt bytes, fun h => ?_⟩
  rw [narrowed, Nat.mod_eq_of_lt h, List.take_length]

/-- Segments without the last one, if it is empty. -/
def dropLastEmpty (segments : List (List UInt8)) : List (List UInt8) :=
  if segments.getLast? = some [] then segments.dropLast else segments

/-- The segments of a path: what lies between its slashes, without those it starts with and
without the one it may end with. -/
def uriSegments (path : List UInt8) : List (List UInt8) :=
  dropLastEmpty (((cString path).dropWhile (· = slash)).splitOn slash)

/-- Append a Uri-Path option for each segment. -/
def appendSegments (z : Zephyr) : CoapPacket → List (List UInt8) → ℤ × CoapPacket
  | packet, [] => (0, packet)
  | packet, segment :: segments =>
    orReturn (appendUriPath z packet segment) fun packet => appendSegments z packet segments

section Paths

variable {z : Zephyr} {packet : CoapPacket}

theorem orReturn_assoc (result : ℤ × CoapPacket) (next next' : CoapPacket → ℤ × CoapPacket) :
    orReturn (orReturn result next) next' =
      orReturn result fun packet => orReturn (next packet) next' := by
  by_cases hok : result.1 = 0 <;> simp [orReturn, hok]

theorem appendSegments_append (segments segments' : List (List UInt8)) :
    appendSegments z packet (segments ++ segments') =
      orReturn (appendSegments z packet segments) fun packet =>
        appendSegments z packet segments' := by
  induction segments generalizing packet with
  | nil => simp [appendSegments, orReturn]
  | cons segment segments ih =>
    rw [List.cons_append, appendSegments, appendSegments, orReturn_assoc]
    simp only [ih]

theorem dropLastEmpty_cons {segment : List UInt8} {segments : List (List UInt8)}
    (hne : segments ≠ []) :
    dropLastEmpty (segment :: segments) = segment :: dropLastEmpty segments := by
  obtain ⟨first, rest, rfl⟩ := List.exists_cons_of_ne_nil hne
  rw [dropLastEmpty, dropLastEmpty, List.getLast?_cons_cons]
  split <;> rfl

theorem appendSegments_last (segment : List UInt8) :
    appendSegments z packet (dropLastEmpty [segment]) =
      if segment = [] then (0, packet) else appendUriPath z packet segment := by
  by_cases hempty : segment = []
  · simp [dropLastEmpty, hempty, appendSegments]
  · simp only [dropLastEmpty, List.getLast?_singleton, Option.some.injEq, hempty, if_false,
      appendSegments, orReturn]
    split
    · next hok => rw [← hok]
    · rfl

/-- The loop appends the segments of the rest of the path, the first of which has been scanned
in part. -/
theorem scanUriPath_eq (memory segment : List UInt8) :
    scanUriPath z memory none segment packet =
      appendSegments z packet
        (dropLastEmpty (((cString memory).splitOn slash).modifyHead (segment ++ ·))) := by
  induction memory generalizing segment packet with
  | nil => simp [scanUriPath, cString, appendSegments_last]
  | cons byte memory ih =>
    rw [scanUriPath]
    by_cases hzero : byte = 0
    · simp [hzero, cString, appendSegments_last]
    · have htext : cString (byte :: memory) = byte :: cString memory := by
        simp [cString, hzero]
      by_cases hslash : byte = slash
      · -- a segment ends, and another one begins
        have hsplit : ((byte :: cString memory).splitOn slash).modifyHead (segment ++ ·) =
            segment :: (cString memory).splitOn slash := by
          rw [List.splitOn_cons_eq_if_modifyHead, hslash, beq_self_eq_true, if_pos rfl]
          simp
        have hsame : ((cString memory).splitOn slash).modifyHead ([] ++ ·) =
            (cString memory).splitOn slash := by
          cases (cString memory).splitOn slash <;> simp
        rw [if_neg (by simp [hzero]), if_pos hslash, htext, hsplit,
          dropLastEmpty_cons (List.splitOn_ne_nil slash _), appendSegments, Option.map_none]
        congr 1
        funext packet
        rw [ih, hsame]
      · have hsplit : ((byte :: cString memory).splitOn slash).modifyHead (segment ++ ·) =
            ((cString memory).splitOn slash).modifyHead (segment ++ [byte] ++ ·) := by
          rw [List.splitOn_cons_eq_if_modifyHead, if_neg (by simp [hslash])]
          cases (cString memory).splitOn slash <;> simp
        rw [if_neg (by simp [hzero]), if_neg hslash, htext, hsplit, Option.map_none, ih]

/-- The slashes a path starts with are skipped before its end is looked for. -/
theorem cString_dropWhile (memory : List UInt8) :
    cString (memory.dropWhile (· = slash)) = (cString memory).dropWhile (· = slash) := by
  induction memory with
  | nil => rfl
  | cons byte memory ih =>
    by_cases hslash : byte = slash
    · have hnonzero : slash ≠ 0 := by decide
      simpa [cString, hslash, hnonzero] using ih
    · by_cases hzero : byte = 0
      · have hne : ¬ (0 : UInt8) = slash := by decide
        simp [cString, hzero, hne]
      · simp [cString, hzero, hslash]

theorem coapPacketAppendUriPathFromStringRange_eq (path : List UInt8) :
    coapPacketAppendUriPathFromStringRange z packet path none =
      appendSegments z packet (uriSegments path) := by
  have hsame (parts : List (List UInt8)) : parts.modifyHead ([] ++ ·) = parts := by
    cases parts <;> rfl
  rw [coapPacketAppendUriPathFromStringRange, Option.map_none, scanUriPath_eq, cString_dropWhile,
    hsame, uriSegments]

/-- **Paths.** The segments of the path vector are appended in order. -/
theorem coapPacketAppendUriPathFromPathv_eq (pathv : List (List UInt8)) :
    coapPacketAppendUriPathFromPathv z packet pathv =
      appendSegments z packet (pathv.flatMap uriSegments) := by
  induction pathv generalizing packet with
  | nil => rfl
  | cons path pathv ih =>
    rw [coapPacketAppendUriPathFromPathv, List.flatMap_cons, appendSegments_append,
      coapPacketAppendUriPathFromStringRange_eq]
    simp only [ih]

/-- The Uri-Path options that carry some segments, with lengths of 16 bits. -/
def pathOptions (segments : List (List UInt8)) : List Entry :=
  segments.map fun segment => (OptionNum.uriPath.value, narrowed segment)

theorem writes_appendSegments (hz : z.WritingContract) {header : List UInt8}
    {entries : List Entry} (segments : List (List UInt8)) (h : Written header entries packet)
    (hle : lastNumber 0 entries ≤ OptionNum.uriPath.value) :
    Writes header (entries ++ pathOptions segments) (appendSegments z packet segments) := by
  induction segments generalizing entries packet with
  | nil => simpa [pathOptions, appendSegments] using h.writes
  | cons segment segments ih =>
    have happended : Writes header (entries ++ [(OptionNum.uriPath.value, narrowed segment)])
        (appendUriPath z packet segment) :=
      writes_appendOption hz h hle (length_narrowed_lt segment)
    rw [appendSegments]
    refine happended.orReturn fun packet hpacket => ?_
    have hrest := ih hpacket (by rw [OptionFormat.lastNumber_append_singleton])
    rwa [List.append_assoc] at hrest

end Paths

/-! ## Reading what was written -/

/-- **Round trip.** A header, options and a payload are read back, unless the payload is empty. -/
theorem decodeMessage_bytes {type : MsgType} {token : Token} {code : UInt8} {id : UInt16}
    {entries : List Entry} (h : Encodable 0 entries) (payload : Option (List UInt8)) :
    decodeMessage (Zephyr.headerBytes type token code id ++
        (encodeAll 0 entries ++ payloadBytes payload)) =
      if payload = some [] then none
      else some
        { type := type
          code := code
          id := id
          token := token.1
          options := entries
          payload := payload } := by
  have htoken : token.1.length ≤ 8 := token.2
  have htype : type.bits < 4 := by cases type <;> decide
  have hfirst : (UInt8.ofNat (64 + 16 * type.bits + token.1.length)).toNat =
      64 + 16 * type.bits + token.1.length := by
    rw [UInt8.toNat_ofNat']
    omega
  -- version, type and token length share the first byte
  have hversion : (64 + 16 * type.bits + token.1.length) / 64 = 1 := by omega
  have hbits : (64 + 16 * type.bits + token.1.length) / 16 % 4 = type.bits := by omega
  have hlen : (64 + 16 * type.bits + token.1.length) % 16 = token.1.length := by omega
  have hid : UInt16.ofNat ((UInt8.ofNat (id.toNat / 256)).toNat * 256 +
      (UInt8.ofNat (id.toNat % 256)).toNat) = id := by
    have hlt := id.toNat_lt
    apply UInt16.toNat_inj.mp
    rw [UInt8.toNat_ofNat', UInt8.toNat_ofNat', UInt16.toNat_ofNat']
    omega
  -- the bytes that are left are fuel enough for the options
  have hentries := OptionFormat.length_le_length_encodeAll 0 entries
  have hdecode : OptionFormat.decodeMarked
      (token.1 ++ (encodeAll 0 entries ++ payloadBytes payload)).length 0
      (encodeAll 0 entries ++ payloadBytes payload) = some (entries, payload) := by
    cases payload with
    | none =>
      rw [payloadBytes, List.append_nil]
      exact OptionFormat.decodeMarked_encodeAll_nil h (by simp only [List.length_append]; omega)
    | some payload =>
      refine OptionFormat.decodeMarked_encodeAll_marker h ?_ payload
      simp only [payloadBytes, List.length_append, List.length_cons]
      omega
  have hwellFormed : ¬ (1 ≠ 1 ∨ tokenMaxLen < token.1.length ∨
      (token.1 ++ (encodeAll 0 entries ++ payloadBytes payload)).length < token.1.length) := by
    have hmax : token.1.length ≤ tokenMaxLen := htoken
    simp only [List.length_append]
    omega
  rw [Zephyr.headerBytes, List.append_assoc, List.cons_append, List.cons_append, List.cons_append,
    List.cons_append, List.nil_append, decodeMessage, hfirst, hversion, hbits, hlen, hid,
    List.drop_left, List.take_left, if_neg hwellFormed, hdecode, Option.bind_some]
  simp only [MsgType.ofBits_bits]

end Golioth.Coap
