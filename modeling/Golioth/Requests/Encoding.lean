/-
# Requests on the wire

`golioth_coap_req_cb` writes a request into a buffer whose length it computes
from an estimate of its parts, and all lengths it passes on are narrowed to 16
bits. What the scheduled packet says to the server is compared with what the
caller has asked for.
-/
import Golioth.Coap.Message
import Golioth.Requests.Frame
import Golioth.Requests.Dispatch

namespace Golioth.Requests

open Golioth.Coap
open CS.OptionFormat (Entry encodeAll lastNumber)
open Coap.Reference (intBytes)

variable {κ σ : Type}

/-! ## What is asked for -/

/-- The options before the path: an Observe option that registers. -/
def ReqArgs.observeOption (args : ReqArgs κ) : List Entry :=
  if args.method = .get ∧ args.flagObserve then [(OptionNum.observe.value, intBytes 0)] else []

/-- The format of the payload. -/
def ReqArgs.contentFormatOption (args : ReqArgs κ) : List Entry :=
  if args.method ≠ .get ∧ args.method ≠ .delete then
    [(OptionNum.contentFormat.value, intBytes args.format)]
  else []

/-- The format to answer in. -/
def ReqArgs.acceptOption (args : ReqArgs κ) : List Entry :=
  if ¬ args.flagNoRespBody then [(OptionNum.accept.value, intBytes args.format)] else []

/-- The segments of the path vector. -/
def ReqArgs.segments (args : ReqArgs κ) : List (List UInt8) := args.pathv.flatMap uriSegments

/-- The options of a request. -/
def ReqArgs.options (args : ReqArgs κ) : List Entry :=
  args.observeOption ++ args.segments.map (fun segment => (OptionNum.uriPath.value, segment)) ++
    args.contentFormatOption ++ args.acceptOption

/-- The payload of a request. -/
def ReqArgs.payload (args : ReqArgs κ) : Option (List UInt8) :=
  match args.data with
  | none => none
  | some data => if args.dataLen = 0 then none else some (data.take args.dataLen)

/-- The bytes of a packet are a message with the method, the options and the payload that the
arguments ask for. -/
def ReqArgs.EncodedBy (args : ReqArgs κ) (bytes : List UInt8) : Prop :=
  ∃ message, decodeMessage bytes = some message ∧ message.code = args.method.code ∧
    message.options = args.options ∧ message.payload = args.payload

/-- The data pointer, if it is not `NULL`, points to as many bytes as its length says. -/
def ReqArgs.DataThere (args : ReqArgs κ) : Prop :=
  ∀ data, args.data = some data → args.dataLen ≤ data.length

/-- Arguments that pass a list and its length. -/
theorem ReqArgs.dataThere_of_length_eq {args : ReqArgs κ} {payload : List UInt8}
    (hdata : args.data = some payload) (hlen : args.dataLen = payload.length) :
    args.DataThere := by
  intro data hsome
  rw [hdata] at hsome
  cases hsome
  exact hlen.le

/-- The lengths of the arguments have 16 bits. -/
structure ReqArgs.ShortLengths (args : ReqArgs κ) : Prop where
  segments : ∀ segment ∈ args.segments, segment.length < 2 ^ 16
  data : args.data ≠ none → args.dataLen < 2 ^ 16

/-! ## What is written -/

/-- The options as they are written, with lengths of 16 bits. -/
def ReqArgs.writtenOptions (args : ReqArgs κ) : List Entry :=
  args.observeOption ++ pathOptions args.segments ++ args.contentFormatOption ++ args.acceptOption

/-- The bytes of a packet with the options and the payload as they are written. -/
def ReqArgs.WrittenTo (args : ReqArgs κ) (header : List UInt8) (packet : CoapPacket) : Prop :=
  CS.OptionFormat.Encodable 0 args.writtenOptions ∧
    packet.data = header ++
      (encodeAll 0 args.writtenOptions ++ payloadBytes (args.payload.map narrowed))

section Writing

variable {z : Zephyr} {args : ReqArgs κ} {header : List UInt8} {packet : CoapPacket}

theorem writes_observeOption (hz : z.WritingContract) (h : Written header [] packet) :
    Writes header args.observeOption
      (if args.method = .get ∧ args.flagObserve then z.coapAppendOptionInt packet .observe 0
      else (0, packet)) := by
  rw [ReqArgs.observeOption]
  split
  · exact writes_appendOptionInt hz h 0 (Nat.zero_le _)
  · exact h.writes

theorem lastNumber_observeOption (args : ReqArgs κ) :
    lastNumber 0 args.observeOption ≤ OptionNum.uriPath.value := by
  rw [ReqArgs.observeOption]
  split <;> decide

theorem lastNumber_pathOptions {entries : List Entry} (segments : List (List UInt8))
    (hle : lastNumber 0 entries ≤ OptionNum.uriPath.value) :
    lastNumber 0 (entries ++ pathOptions segments) ≤ OptionNum.uriPath.value := by
  rcases List.eq_nil_or_concat segments with rfl | ⟨segments, segment, rfl⟩
  · simpa [pathOptions] using hle
  · rw [List.concat_eq_append, pathOptions, List.map_append, ← List.append_assoc,
      List.map_singleton, CS.OptionFormat.lastNumber_append_singleton]

theorem writes_contentFormat (hz : z.WritingContract) {entries : List Entry}
    (h : Written header entries packet) (hle : lastNumber 0 entries ≤ OptionNum.uriPath.value) :
    Writes header (entries ++ args.contentFormatOption)
      (if args.method ≠ .get ∧ args.method ≠ .delete then
        z.coapAppendOptionInt packet .contentFormat args.format
      else (0, packet)) := by
  rw [ReqArgs.contentFormatOption]
  split
  · exact writes_appendOptionInt hz h args.format (hle.trans (by decide))
  · simpa using h.writes

theorem writes_accept (hz : z.WritingContract) {entries : List Entry}
    (hle : lastNumber 0 entries ≤ OptionNum.uriPath.value)
    (h : Written header (entries ++ args.contentFormatOption) packet) :
    Writes header (entries ++ args.contentFormatOption ++ args.acceptOption)
      (if ¬ args.flagNoRespBody then z.coapAppendOptionInt packet .accept args.format
      else (0, packet)) := by
  have hlast : lastNumber 0 (entries ++ args.contentFormatOption) ≤ OptionNum.accept.value := by
    rw [ReqArgs.contentFormatOption]
    split
    · rw [CS.OptionFormat.lastNumber_append_singleton]
      exact show OptionNum.contentFormat.value ≤ OptionNum.accept.value by decide
    · simpa using hle.trans (by decide)
  rw [ReqArgs.acceptOption]
  split
  · exact writes_appendOptionInt hz h args.format hlast
  · simpa using h.writes

theorem writtenTo_of_payload_eq_none (h : Written header args.writtenOptions packet)
    (hpayload : args.payload = none) : args.WrittenTo header packet := by
  refine ⟨h.encodable, ?_⟩
  rw [h.data, hpayload]
  simp [payloadBytes]

/-- A payload follows the options. -/
theorem writtenTo_appendPayload (hz : z.WritingContract) {data : List UInt8}
    (hdata : args.data = some data) (hthere : args.dataLen ≤ data.length) (hlen : args.dataLen ≠ 0)
    (h : Written header args.writtenOptions packet) :
    (orReturn (z.coapPacketAppendPayloadMarker packet) fun packet =>
        z.coapPacketAppendPayload packet (data.take (args.dataLen % 2 ^ 16))).1 = 0 →
      args.WrittenTo header
        (orReturn (z.coapPacketAppendPayloadMarker packet) fun packet =>
          z.coapPacketAppendPayload packet (data.take (args.dataLen % 2 ^ 16))).2 := by
  have hpayload : args.payload = some (data.take args.dataLen) := by
    simp [ReqArgs.payload, hdata, hlen]
  have hnarrowed : narrowed (data.take args.dataLen) = data.take (args.dataLen % 2 ^ 16) := by
    have hle : args.dataLen % 2 ^ 16 ≤ args.dataLen := Nat.mod_le _ _
    rw [narrowed, List.length_take, min_eq_left hthere, List.take_take, min_eq_left hle]
  refine orReturn_rule (P := fun marked => marked.data = packet.data ++ [255])
    (hz.appendPayloadMarker packet) fun marked hmarked hok => ⟨h.encodable, ?_⟩
  rw [hz.appendPayload marked _ hok, hmarked, h.data, hpayload, Option.map_some, hnarrowed,
    payloadBytes]
  simp

/-- **Writing.** If everything has been appended, the packet holds the options and the payload,
with lengths of 16 bits. -/
theorem writtenTo_appendRequestOptions (hz : z.WritingContract) (hthere : args.DataThere)
    (h : Written header [] packet) :
    (appendRequestOptions z args packet).1 = 0 →
      args.WrittenTo header (appendRequestOptions z args packet).2 := by
  unfold appendRequestOptions
  refine orReturn_rule (writes_observeOption hz h) fun packet hobserve => ?_
  rw [coapPacketAppendUriPathFromPathv_eq]
  refine orReturn_rule
    (writes_appendSegments hz args.segments hobserve (lastNumber_observeOption args))
    fun packet hpath => ?_
  have hlast := lastNumber_pathOptions args.segments (lastNumber_observeOption args)
  refine orReturn_rule (writes_contentFormat hz hpath hlast) fun packet hcontent => ?_
  refine orReturn_rule (writes_accept hz hlast hcontent) fun packet hwritten => ?_
  cases hdata : args.data with
  | none =>
    have hpayload : args.payload = none := by simp [ReqArgs.payload, hdata]
    exact fun _ => writtenTo_of_payload_eq_none hwritten hpayload
  | some data =>
    dsimp only
    split
    · next hlen =>
      have hpayload : args.payload = none := by simp [ReqArgs.payload, hdata, hlen]
      exact fun _ => writtenTo_of_payload_eq_none hwritten hpayload
    · next hlen => exact writtenTo_appendPayload hz hdata (hthere data hdata) hlen hwritten

end Writing

/-! ## What arrives -/

section Faithful

variable {args : ReqArgs κ}

theorem pathOptions_eq_iff {segments : List (List UInt8)} :
    pathOptions segments = segments.map (fun segment => (OptionNum.uriPath.value, segment)) ↔
      ∀ segment ∈ segments, segment.length < 2 ^ 16 := by
  simp [pathOptions, narrowed_eq_iff]

theorem writtenOptions_eq_iff :
    args.writtenOptions = args.options ↔ ∀ segment ∈ args.segments, segment.length < 2 ^ 16 := by
  rw [ReqArgs.writtenOptions, ReqArgs.options, List.append_left_inj, List.append_left_inj,
    List.append_right_inj, pathOptions_eq_iff]

/-- The payload is cut unless its length has 16 bits. -/
theorem narrowed_payload_eq_iff (hthere : args.DataThere) :
    args.payload.map narrowed = args.payload ↔ (args.data ≠ none → args.dataLen < 2 ^ 16) := by
  cases hdata : args.data with
  | none => simp [ReqArgs.payload, hdata]
  | some data =>
    by_cases hlen : args.dataLen = 0
    · simp [ReqArgs.payload, hdata, hlen]
    · have hfull : (data.take args.dataLen).length = args.dataLen := by
        rw [List.length_take, min_eq_left (hthere data hdata)]
      simp [ReqArgs.payload, hdata, hlen, narrowed_eq_iff, hfull]

/-- A payload that is asked for is not empty. -/
theorem payload_ne_nil (hthere : args.DataThere) : args.payload ≠ some [] := by
  intro h
  cases hdata : args.data with
  | none => simp [ReqArgs.payload, hdata] at h
  | some data =>
    have hle := hthere data hdata
    by_cases hlen : args.dataLen = 0
    · simp [ReqArgs.payload, hdata, hlen] at h
    · simp only [ReqArgs.payload, hdata, hlen, if_false, Option.some.injEq] at h
      have hnil : (data.take args.dataLen).length = 0 := by rw [h]; rfl
      rw [List.length_take] at hnil
      omega

/-- What has been written reads as what is asked for exactly if no length has been cut. -/
theorem encodedBy_iff_of_writtenTo (hthere : args.DataThere) {type : MsgType} {token : Token}
    {id : UInt16} {packet : CoapPacket}
    (h : args.WrittenTo (Zephyr.headerBytes type token args.method.code id) packet) :
    args.EncodedBy packet.data ↔ args.ShortLengths := by
  have hlengths : args.ShortLengths ↔ args.writtenOptions = args.options ∧
      args.payload.map narrowed = args.payload := by
    rw [writtenOptions_eq_iff, narrowed_payload_eq_iff hthere]
    exact ⟨fun h => ⟨h.segments, h.data⟩, fun h => ⟨h.1, h.2⟩⟩
  obtain ⟨hencodable, hdata⟩ := h
  rw [ReqArgs.EncodedBy, hdata, decodeMessage_bytes hencodable, hlengths]
  constructor
  · rintro ⟨message, hmessage, -, hoptions, hpayload⟩
    split at hmessage
    · cases hmessage
    · cases hmessage
      exact ⟨hoptions, hpayload⟩
  · rintro ⟨hoptions, hpayload⟩
    rw [hpayload, if_neg (payload_ne_nil hthere)]
    exact ⟨_, rfl, rfl, hoptions, rfl⟩

end Faithful

section Schedule

variable (e : Env κ σ)

theorem request_of_coapReqInit {ref : ℕ} {method : Method} {type : MsgType} {bufferLen : ℕ}
    {token : FullToken} {id : UInt16} {cb : Option κ} {userData : ℕ} {req : CoapReq κ}
    (h : coapReqInit e ref method type bufferLen token id cb userData = .ok req) :
    ∃ maxLen, (e.zephyr.coapPacketInit maxLen type ⟨token.1, token.2.le⟩ method.code id).1 = 0 ∧
      req.request =
        (e.zephyr.coapPacketInit maxLen type ⟨token.1, token.2.le⟩ method.code id).2 := by
  unfold coapReqInit at h
  dsimp only at h
  split at h
  · cases h
  · next hok =>
    cases h
    exact ⟨_, not_not.mp hok, rfl⟩

theorem complete_reqCb (z : Zephyr) (args : ReqArgs κ) (req : CoapReq κ) :
    ((Submission.reqCb args).complete z req).1 = (appendRequestOptions z args req.request).1 ∧
      ((Submission.reqCb args).complete z req).2.request =
        (appendRequestOptions z args req.request).2 := by
  unfold Submission.complete
  dsimp only
  split <;> exact ⟨rfl, rfl⟩

/-- **Encoding.** If `golioth_coap_req_cb` returns zero, it has scheduled a request whose packet
is a message with the method, the options and the payload that have been asked for exactly if
every segment of the path and the payload have lengths of 16 bits. -/
theorem coapReqCb_encodedBy_iff (hz : e.zephyr.WritingContract) (args : ReqArgs κ)
    (hthere : args.DataThere) (c : Client κ σ) (hok : (coapReqCb e args c).1 = 0) :
    ∃ req, (coapReqCb e args c).2.coapReqs = c.coapReqs ++ [req] ∧
      (args.EncodedBy req.request.data ↔ args.ShortLengths) := by
  have hsubmit : (submit e (.reqCb args) c).1 = 0 := hok
  obtain ⟨token, id, initial, reading, hinit, hcomplete, hlisted⟩ := listed_of_submit_ok e hsubmit
  obtain ⟨maxLen, hpacket, hrequest⟩ := request_of_coapReqInit e hinit
  obtain ⟨hfst, hsnd⟩ := complete_reqCb e.zephyr args initial
  obtain ⟨hdata, hdelta⟩ := hz.init _ _ _ _ _ hpacket
  have hwritten : Written (Zephyr.headerBytes .con ⟨token.1, token.2.le⟩ args.method.code id) []
      initial.request := by
    rw [hrequest]
    exact ⟨hdata.trans (List.append_nil _).symm, trivial, hdelta⟩
  have hall := writtenTo_appendRequestOptions hz hthere hwritten (hfst ▸ hcomplete)
  refine ⟨_, hlisted, ?_⟩
  dsimp only
  rw [hsnd]
  exact encodedBy_iff_of_writtenTo hthere hall

end Schedule

/-- A client that is connected and has no requests. -/
def connectedClient : Client Unit Unit := { Client.init () with coapReqsConnected := true }

/-- A request to store `len` zeros under the path `.d/a`. -/
def storeZeros (len : ℕ) : ReqArgs Unit where
  method := .post
  pathv := [ascii ".d", ascii "a"]
  format := 60
  data := some (List.replicate len 0)
  dataLen := len
  cb := none
  userData := 0
  flagObserve := false
  flagNoRespBody := false

theorem dataThere_storeZeros (len : ℕ) : (storeZeros len).DataThere :=
  ReqArgs.dataThere_of_length_eq rfl List.length_replicate.symm

theorem length_payload_storeZeros {len : ℕ} (hne : len ≠ 0) :
    (storeZeros len).payload.map List.length = some len := by
  simp [ReqArgs.payload, storeZeros, hne]

theorem coapReqCb_encodedBy_iff_fiveZeros :
    ∃ req, (coapReqCb .quiet (storeZeros 5) connectedClient).2.coapReqs = [req] ∧
      ((storeZeros 5).EncodedBy req.request.data ↔ (storeZeros 5).ShortLengths) :=
  coapReqCb_encodedBy_iff .quiet Reference.writingContract (storeZeros 5) (dataThere_storeZeros 5)
    connectedClient (by decide)

theorem storeZeros_cut :
    (coapReqCb .quiet (storeZeros 65541) connectedClient).1 = 0 ∧
      ∃ req, (coapReqCb .quiet (storeZeros 65541) connectedClient).2.coapReqs = [req] ∧
        ¬ (storeZeros 65541).EncodedBy req.request.data := by
  have hpayloads : (coapReqCb .quiet (storeZeros 65541) connectedClient).2.coapReqs.map
      (fun req => (decodeMessage req.request.data).map Message.payload) =
        [some (some [0, 0, 0, 0, 0])] := by decide
  obtain ⟨req, hreqs, hpayload⟩ := List.map_eq_singleton_iff.mp hpayloads
  refine ⟨by decide, req, hreqs, ?_⟩
  rintro ⟨message, hmessage, -, -, hasked⟩
  rw [hmessage, Option.map_some, Option.some.injEq, hasked] at hpayload
  -- five bytes are not the 65541 that were asked for
  have hlen := congrArg (Option.map List.length) hpayload
  rw [length_payload_storeZeros (by decide)] at hlen
  exact absurd (Option.some.inj hlen) (by decide)

end Golioth.Requests
