/-
# Room in the buffer of a request

`golioth_coap_req_cb` gives a request a buffer of 128 bytes more than its data and the
estimate of its path. Everything that is written to it goes through the same two
questions, whether it fits and how much is left, so that what is known of a packet on the
way is a bound on its length, which each function that appends to it increases.
-/
import Golioth.Requests.Asking
import Golioth.Requests.Download

namespace Golioth.Requests

open Golioth.Coap
open CS.OptionFormat (encode)
open Coap.Reference (intBytes)

variable {κ σ : Type} {z : Zephyr} {packet : CoapPacket}

/-! ## Appending within bounds -/

/-- A payload marker is appended where there is room for it, and a payload takes nothing away from
the buffer. -/
structure BufferContract (z : Zephyr) : Prop where
  marker_iff : ∀ packet,
    (z.coapPacketAppendPayloadMarker packet).1 = 0 ↔ packet.offset + 1 ≤ packet.maxLen
  payload_maxLen : ∀ packet payload,
    (z.coapPacketAppendPayload packet payload).2.maxLen = packet.maxLen

theorem Reference.bufferContract : BufferContract Coap.Reference.zephyr where
  marker_iff _ := Coap.Reference.append_eq_zero_iff
  payload_maxLen packet payload := Coap.Reference.maxLen_append packet payload

/-- What making a request needs of the library. -/
structure BuildingContract (z : Zephyr) : Prop where
  header : z.HeaderContract
  writing : z.WritingContract
  room : z.RoomContract
  order : z.OrderContract
  payload : z.PayloadContract
  buffer : BufferContract z

theorem Reference.buildingContract : BuildingContract Coap.Reference.zephyr where
  header := Reference.headerContract
  writing := Reference.writingContract
  room := Reference.roomContract
  order := Reference.orderContract
  payload := Reference.payloadContract
  buffer := Reference.bufferContract

/-- A packet that takes up no more than `used` bytes of its buffer, and whose last option is no
later than `last`. -/
structure Within (maxLen used last : ℕ) (packet : CoapPacket) : Prop where
  maxLen : packet.maxLen = maxLen
  offset : packet.offset ≤ used
  delta : packet.delta ≤ last

/-- A function that writes a packet succeeds and leaves one with the property. -/
def Succeeds (P : CoapPacket → Prop) (result : ℤ × CoapPacket) : Prop := result.1 = 0 ∧ P result.2

section Within

variable {maxLen used last : ℕ}

theorem Within.mono {used' last' : ℕ} (h : Within maxLen used last packet) (hused : used ≤ used')
    (hlast : last ≤ last') : Within maxLen used' last' packet :=
  ⟨h.maxLen, h.offset.trans hused, h.delta.trans hlast⟩

theorem Succeeds.orReturn {P Q : CoapPacket → Prop} {result : ℤ × CoapPacket}
    {next : CoapPacket → ℤ × CoapPacket} (h : Succeeds P result)
    (hnext : ∀ packet, P packet → Succeeds Q (next packet)) :
    Succeeds Q (orReturn result next) := by
  rw [Coap.orReturn, if_pos h.1]
  exact hnext _ h.2

/-- An option with a value of four bytes takes six bytes: its number and its length have a byte
between them, and the number one more where it is far from the last one. -/
theorem length_encode_le (option : OptionNum) {value : List UInt8} (delta : ℕ)
    (hlen : value.length ≤ 4) : (encode (option.value - delta) value).length ≤ 2 + value.length := by
  have hvalue : option.value ≤ 28 := by cases option <;> decide
  have hnumber : extendedLen (option.value - delta) ≤ 1 := by
    unfold extendedLen
    split_ifs <;> omega
  have hlength : extendedLen value.length = 0 := by rw [extendedLen, if_pos (by omega)]
  rw [length_encode, hlength]
  omega

theorem within_appendOption (hz : BuildingContract z) {option : OptionNum}
    {value : List UInt8} (h : Within maxLen used last packet) (hlast : last ≤ option.value)
    (hlen : value.length ≤ 4) (hfits : used + 6 ≤ maxLen) :
    Succeeds (Within maxLen (used + 6) option.value)
      (z.coapPacketAppendOption packet option value) := by
  have hencoded := length_encode_le option packet.delta hlen
  have hdelta := h.delta.trans hlast
  have hoffset := h.offset
  have hok : (z.coapPacketAppendOption packet option value).1 = 0 := by
    rw [hz.room.option_iff packet option value hdelta (by omega), h.maxLen]
    omega
  obtain ⟨-, hafter⟩ := hz.writing.appendOption packet option value hdelta (by omega) hok
  have hadded := hz.room.option_added packet option value hdelta (by omega)
  exact ⟨hok, (hz.room.option_maxLen packet option value).trans h.maxLen, by omega, hafter.le⟩

theorem length_intBytes_le (value : ℕ) : (intBytes value).length ≤ 4 := by
  unfold intBytes
  split_ifs <;> simp

/-- An option that is there or not. -/
theorem within_optionInt (hz : BuildingContract z) {option : OptionNum} (value : ℕ)
    {p : Prop} [Decidable p] (h : Within maxLen used last packet)
    (hlast : last ≤ option.value) (hfits : used + 6 ≤ maxLen) :
    Succeeds (Within maxLen (used + 6) option.value)
      (if p then z.coapAppendOptionInt packet option value else (0, packet)) := by
  split
  · rw [hz.writing.appendOptionInt]
    exact within_appendOption hz h hlast (length_intBytes_le value) hfits
  · exact ⟨rfl, h.mono (Nat.le_add_right _ _) hlast⟩

theorem segmentsLen_narrowed_le (segments : List (List UInt8)) :
    segmentsLen (segments.map narrowed) ≤ segmentsLen segments := by
  induction segments with
  | nil => exact le_rfl
  | cons segment segments ih =>
    rw [List.map_cons, segmentsLen_cons, segmentsLen_cons]
    exact Nat.add_le_add (segmentLen_narrowed_le segment) ih

/-- The options for a path take no more than the estimate. -/
theorem within_path (hz : BuildingContract z) (pathv : List (List UInt8))
    (h : Within maxLen used last packet) (hlast : last ≤ OptionNum.uriPath.value)
    (hfits : used + coapPathvEstimateAllocLen pathv ≤ maxLen) :
    Succeeds (Within maxLen (used + coapPathvEstimateAllocLen pathv) OptionNum.uriPath.value)
      (coapPacketAppendUriPathFromPathv z packet pathv) := by
  have hdelta := h.delta.trans hlast
  have hoffset := h.offset
  have hlen := (segmentsLen_narrowed_le _).trans (segmentsLen_flatMap_le pathv)
  rw [coapPacketAppendUriPathFromPathv_eq]
  have hok : (appendSegments z packet (pathv.flatMap uriSegments)).1 = 0 := by
    rw [appendSegments_eq_zero_iff hz.writing hz.room _ hdelta (by rw [h.maxLen]; omega), h.maxLen]
    omega
  obtain ⟨hafter, hmax, hnumber⟩ := appended_appendSegments hz.writing hz.room _ hdelta hok
  refine ⟨hok, hmax.trans h.maxLen, by omega, ?_⟩
  rw [hnumber]
  split
  · exact hdelta
  · exact le_rfl

/-- A payload takes its length and a byte for its marker. -/
theorem within_payload (hz : BuildingContract z) {payload : List UInt8}
    (h : Within maxLen used last packet) (hfits : used + 1 + payload.length ≤ maxLen) :
    Succeeds (Within maxLen (used + 1 + payload.length) last)
      (orReturn (z.coapPacketAppendPayloadMarker packet) fun packet =>
        z.coapPacketAppendPayload packet payload) := by
  have hoffset := h.offset
  have hmarked : Succeeds (Within maxLen (used + 1) last)
      (z.coapPacketAppendPayloadMarker packet) := by
    have hok := (hz.buffer.marker_iff packet).mpr (by rw [h.maxLen]; omega)
    refine ⟨hok, (hz.payload.marker_maxLen packet).trans h.maxLen, ?_, ?_⟩
    · rw [CoapPacket.offset, hz.writing.appendPayloadMarker packet hok, List.length_append]
      exact Nat.add_le_add_right hoffset 1
    · rw [hz.order.appendPayloadMarker]
      exact h.delta
  refine hmarked.orReturn fun packet h => ?_
  have hoffset := h.offset
  have hok := (hz.payload.payload_iff packet payload).mpr (by rw [h.maxLen]; omega)
  refine ⟨hok, (hz.buffer.payload_maxLen packet payload).trans h.maxLen, ?_, ?_⟩
  · rw [CoapPacket.offset, hz.writing.appendPayload packet payload hok, List.length_append]
    exact Nat.add_le_add_right hoffset _
  · rw [hz.order.appendPayload]
    exact h.delta

/-- **Run.** Whatever a request asks for, its options and its payload take no more than 19 bytes in
addition to its data and the estimate of its path. -/
theorem within_appendRequestOptions (hz : BuildingContract z) (args : ReqArgs κ)
    (h : Within maxLen 12 0 packet)
    (hfits : 31 + coapPathvEstimateAllocLen args.pathv + args.dataLen ≤ maxLen) :
    Succeeds
      (Within maxLen (31 + coapPathvEstimateAllocLen args.pathv + args.dataLen)
        OptionNum.accept.value)
      (appendRequestOptions z args packet) := by
  unfold appendRequestOptions
  refine (within_optionInt hz 0 h (Nat.zero_le _) (by omega)).orReturn fun packet h => ?_
  refine (within_path hz args.pathv h (by decide) (by omega)).orReturn fun packet h => ?_
  refine (within_optionInt hz args.format h (by decide) (by omega)).orReturn fun packet h => ?_
  refine (within_optionInt hz args.format h (by decide) (by omega)).orReturn fun packet h => ?_
  cases args.data with
  | none => exact ⟨rfl, h.mono (by omega) le_rfl⟩
  | some data =>
    dsimp only
    split
    · exact ⟨rfl, h.mono (by omega) le_rfl⟩
    · have hlen : (data.take (args.dataLen % 2 ^ 16)).length ≤ args.dataLen :=
        (List.length_take_le _ _).trans (Nat.mod_le _ _)
      obtain ⟨hok, hafter⟩ := within_payload hz h ((Nat.add_le_add_left hlen _).trans (by omega))
      exact ⟨hok, hafter.mono (by omega) le_rfl⟩

end Within

/-! ## Taking a request -/

section Taking

variable {e : Env κ σ} {c : Client κ σ} {value : BlockContext → List UInt8}

instance : Decidable (Allocates e c) := inferInstanceAs (Decidable (_ ∧ _))

/-- What a request is answered that nothing is wrong with. -/
def admission (e : Env κ σ) (c : Client κ σ) : ℤ :=
  if ¬ Allocates e c then -Errno.enomem
  else if ¬ c.coapReqsConnected then -Errno.enetdown
  else 0

/-- A packet with nothing but a header. -/
structure Blank (method : Method) (bufferLen : ℕ) (packet : CoapPacket) : Prop where
  within : Within bufferLen 12 0 packet
  written : ∃ token id, Written (Zephyr.headerBytes .con token method.code id) [] packet

theorem blank_init (hz : BuildingContract e.zephyr) (method : Method) {bufferLen : ℕ}
    (hlen : 12 ≤ bufferLen) (token : FullToken) (id : UInt16) :
    Succeeds (Blank method bufferLen)
      (e.zephyr.coapPacketInit bufferLen .con ⟨token.1, token.2.le⟩ method.code id) := by
  have hheader :
      (Zephyr.headerBytes .con ⟨token.1, token.2.le⟩ method.code id).length = 12 := by
    rw [Zephyr.headerBytes, List.length_append, token.2]
    rfl
  have hok := (hz.room.init_iff bufferLen .con ⟨token.1, token.2.le⟩ method.code id).mpr
    (by rw [hheader]; exact hlen)
  obtain ⟨hdata, hdelta⟩ := hz.writing.init _ _ _ _ _ hok
  refine ⟨hok, ⟨hz.room.init_maxLen _ _ _ _ _, ?_, hdelta.le⟩, ⟨token.1, token.2.le⟩, id,
    hdata.trans (List.append_nil _).symm, trivial, hdelta⟩
  rw [CoapPacket.offset, hdata, hheader]

/-- A new request is turned away exactly where there is no memory for it. -/
theorem coapReqNew_memory (hz : BuildingContract e.zephyr) (method : Method) {bufferLen : ℕ}
    (hlong : 12 ≤ bufferLen) (hshort : bufferLen < 2 ^ 16) (cb : Option κ) (userData : ℕ)
    (c : Client κ σ) :
    (¬ Allocates e c ∧ ∃ c', coapReqNew e method .con bufferLen cb userData c =
        (.error (-Errno.enomem), c') ∧ c'.coapReqs = c.coapReqs) ∨
    (Allocates e c ∧ ∃ req c', coapReqNew e method .con bufferLen cb userData c = (.ok req, c') ∧
      Blank method bufferLen req.request ∧ c'.coapReqsConnected = c.coapReqsConnected ∧
        c'.coapReqs = c.coapReqs) := by
  unfold coapReqNew Allocates
  dsimp only [Client.tick]
  by_cases hcalloc : e.allocates c.readings = true
  · by_cases hmalloc : e.allocates (c.readings + 1) = true
    · simp only [hcalloc, hmalloc, not_true_eq_false, if_false]
      have hblank := blank_init hz method hlong (e.coapNextToken (c.readings + 1 + 1))
        (e.coapNextId (c.readings + 1 + 1 + 1))
      refine .inr ⟨⟨trivial, trivial⟩, ?_⟩
      unfold coapReqInit
      dsimp only
      rw [Nat.mod_eq_of_lt hshort, if_neg (not_not.mpr hblank.1)]
      exact ⟨_, _, rfl, hblank.2, rfl, rfl⟩
    · simp only [hcalloc, hmalloc, not_true_eq_false, if_false, Bool.false_eq_true,
        not_false_eq_true, if_true, and_false]
      exact .inl ⟨trivial, _, rfl, rfl⟩
  · simp only [hcalloc, Bool.false_eq_true, not_false_eq_true, if_true, false_and]
    exact .inl ⟨trivial, _, rfl, rfl⟩

/-- The lengths of a request whose buffer is not cut are not cut either. -/
theorem shortLengths_of_bufferLen {args : ReqArgs κ}
    (hshort : (Submission.reqCb args).bufferLen < 2 ^ 16) : args.ShortLengths := by
  rw [Submission.bufferLen] at hshort
  refine ⟨fun segment hmem => ?_, fun _ => by omega⟩
  have hone : segmentLen segment ≤ segmentsLen args.segments := segmentLen_le_of_mem hmem
  have hall : segmentsLen args.segments ≤ _ := segmentsLen_flatMap_le args.pathv
  rw [segmentLen] at hone
  omega

/-- A packet holds what has been asked for, and has room for one more option. -/
structure Holds (args : ReqArgs κ) (packet : CoapPacket) : Prop where
  encodedBy : args.EncodedBy packet.data
  room : ∃ maxLen used, Within maxLen used OptionNum.accept.value packet ∧ used + 6 ≤ maxLen

theorem holds_appendRequestOptions (hz : BuildingContract e.zephyr) {args : ReqArgs κ}
    (hthere : args.DataThere)
    (hshort : (Submission.reqCb args).bufferLen < 2 ^ 16)
    (h : Blank args.method (Submission.reqCb args).bufferLen packet) :
    Succeeds (Holds args) (appendRequestOptions e.zephyr args packet) := by
  have hbuffer : (Submission.reqCb args).bufferLen =
      128 + coapPathvEstimateAllocLen args.pathv + args.dataLen := rfl
  obtain ⟨token, id, hwritten⟩ := h.written
  obtain ⟨hok, hwithin⟩ := within_appendRequestOptions hz args h.within (by omega)
  have hall := writtenTo_appendRequestOptions hz.writing hthere hwritten hok
  exact ⟨hok, (encodedBy_iff_of_writtenTo hthere hall).mpr (shortLengths_of_bufferLen hshort),
    _, _, hwithin, by omega⟩

/-- What comes of a request: it is turned away and nothing is listed, or it is listed last. -/
structure Taken (e : Env κ σ) (args : ReqArgs κ) (c : Client κ σ) (result : ℤ × Client κ σ) :
    Prop where
  status : result.1 = admission e c
  refused : result.1 ≠ 0 → result.2.coapReqs = c.coapReqs
  listed : result.1 = 0 → ∃ req, result.2.coapReqs = c.coapReqs ++ [req] ∧
    Holds args req.request

theorem taken_coapReqCb (hz : BuildingContract e.zephyr) (args : ReqArgs κ)
    (hthere : args.DataThere) (hshort : (Submission.reqCb args).bufferLen < 2 ^ 16)
    (c : Client κ σ) : Taken e args c (coapReqCb e args c) := by
  have hbuffer : 12 ≤ (Submission.reqCb args).bufferLen := by
    rw [Submission.bufferLen, goliothCoapMaxNonPayloadLen]
    omega
  have hrun : coapReqCb e args c = newPreparedSchedule e args.method
      (Submission.reqCb args).bufferLen args.cb args.userData
      ((Submission.reqCb args).complete e.zephyr) c := rfl
  rw [hrun, newPreparedSchedule]
  rcases coapReqNew_memory hz args.method hbuffer hshort args.cb args.userData c with
    ⟨hmemory, c', hnew, hreqs⟩ | ⟨hmemory, req, c', hnew, hblank, hconnected, hreqs⟩
  · have hadmission : admission e c = -Errno.enomem := if_pos hmemory
    have hnomem : -Errno.enomem ≠ 0 := by decide
    rw [hnew]
    exact ⟨hadmission.symm, fun _ => hreqs, fun h => absurd h hnomem⟩
  · obtain ⟨hfst, hsnd⟩ := complete_reqCb e.zephyr args req
    obtain ⟨hok, hholds⟩ := holds_appendRequestOptions hz hthere hshort hblank
    rw [hnew]
    dsimp only
    rw [if_neg (not_not.mpr (hfst.trans hok)), coapReqSchedule, coapReqSubmit]
    have htick : c'.tick.coapReqsConnected = c.coapReqsConnected := hconnected
    rw [htick]
    have hadmission : admission e c = if ¬ c.coapReqsConnected then -Errno.enetdown else 0 :=
      if_neg (not_not.mpr hmemory)
    have hnetdown : -Errno.enetdown ≠ 0 := by decide
    cases hlive : c.coapReqsConnected with
    | false =>
      rw [hlive] at hadmission
      exact ⟨hadmission.symm, fun _ => hreqs, fun h => absurd h hnetdown⟩
    | true =>
      rw [hlive] at hadmission
      refine ⟨hadmission.symm, fun h => absurd rfl h, fun _ => ⟨_, congrArg (· ++ [_]) hreqs, ?_⟩⟩
      dsimp only
      rw [hsnd]
      exact hholds

/-- Whatever has been asked for before, a request that holds what it has to can ask for any block;
one for an observation is told that there is none. -/
theorem nextBlock_of_holds (hz : BuildingContract e.zephyr)
    (hblock2 : e.zephyr.Block2Contract value) {args : ReqArgs κ} {scheduled req req₁ : CoapReq κ}
    (hok : (submit e (.reqCb args) c).1 = 0)
    (hlisted : (submit e (.reqCb args) c).2.coapReqs = c.coapReqs ++ [scheduled])
    (hholds : Holds args scheduled.request) {calls : List (UInt16 × BlockContext)}
    (hcalls : NextBlocks e scheduled calls req) (hsame : SamePacket req req₁) {c₁ : Client κ σ}
    {ref : ℕ} (hfind : c₁.find ref = some req₁) (status : ℤ) (hsize : req₁.blockCtx.blockSize < 7)
    (hnum : req₁.blockCtx.current / coapBlockSizeToBytes req₁.blockCtx.blockSize < 2 ^ 20) :
    (coapReqNextBlock e ref status c₁).1 = 0 := by
  cases hobserve : (Submission.reqCb args).observe with
  | false =>
    rw [coapReqNextBlock_eq_zero_iff hz.header hz.writing hz.order hz.room hblock2 hok hlisted
      hobserve hcalls hsame hfind status]
    obtain ⟨maxLen, used, hwithin, hfits⟩ := hholds.room
    have hoffset := hwithin.offset
    have hlen := hblock2.length_le req₁.blockCtx hsize hnum
    have hencoded := @length_encode_le .block2 (value req₁.blockCtx)
      scheduled.request.delta (by omega)
    rw [hwithin.maxLen]
    omega
  | true =>
    have hbuilt := built_of_submit_ok hok hlisted
    have hobserved := hcalls.observed (hbuilt.isObserve.trans hobserve)
    have hobserve₁ : req₁.isObserve = true := hsame.isObserve.trans hobserved.1
    have hticked : c₁.tick.find ref = some req₁ := hfind
    simp only [coapReqNextBlock, hticked, hobserve₁, if_true]

/-- **Requests.** Whatever a request asks for, as long as its buffer has a length of 16 bits, it is
turned away for no other reason than that there is no memory for it or no connection. One that is
accepted says to the server what has been asked for, and never fails to ask for a block of the
answer, whichever blocks it has asked for before. -/
theorem coapReqCb_asks_for_every_block (hz : BuildingContract e.zephyr)
    (hblock2 : e.zephyr.Block2Contract value) (args : ReqArgs κ) (hthere : args.DataThere)
    (hshort : (Submission.reqCb args).bufferLen < 2 ^ 16) (c : Client κ σ) :
    (coapReqCb e args c).1 = admission e c ∧
    ((coapReqCb e args c).1 ≠ 0 → (coapReqCb e args c).2.coapReqs = c.coapReqs) ∧
    ((coapReqCb e args c).1 = 0 → ∃ scheduled,
      (coapReqCb e args c).2.coapReqs = c.coapReqs ++ [scheduled] ∧
      args.EncodedBy scheduled.request.data ∧
      ∀ calls req, NextBlocks e scheduled calls req →
        ∀ (req₁ : CoapReq κ) (c₁ : Client κ σ) (ref : ℕ) (status : ℤ), SamePacket req req₁ →
          c₁.find ref = some req₁ → req₁.blockCtx.blockSize < 7 →
            req₁.blockCtx.current / coapBlockSizeToBytes req₁.blockCtx.blockSize < 2 ^ 20 →
              (coapReqNextBlock e ref status c₁).1 = 0) := by
  have htaken := taken_coapReqCb hz args hthere hshort c
  refine ⟨htaken.status, htaken.refused, fun hok => ?_⟩
  obtain ⟨scheduled, hlisted, hholds⟩ := htaken.listed hok
  refine ⟨scheduled, hlisted, hholds.encodedBy, ?_⟩
  intro calls req hcalls req₁ c₁ ref status hsame hfind hsize hnum
  exact nextBlock_of_holds hz hblock2 hok hlisted hholds hcalls hsame hfind status hsize hnum

/-- Five bytes to store are accepted. -/
theorem coapReqCb_asks_for_every_block_fiveZeros :
    (coapReqCb .quiet (storeZeros 5) connectedClient).1 = 0 ∧
      ∃ scheduled, (coapReqCb .quiet (storeZeros 5) connectedClient).2.coapReqs = [scheduled] ∧
        (storeZeros 5).EncodedBy scheduled.request.data := by
  have hserved := coapReqCb_asks_for_every_block (e := .quiet) Reference.buildingContract
    Reference.block2Contract (storeZeros 5) (dataThere_storeZeros 5) (by decide) connectedClient
  have hok : (coapReqCb .quiet (storeZeros 5) connectedClient).1 = 0 := by decide
  obtain ⟨scheduled, hlisted, hencoded, -⟩ := hserved.2.2 hok
  exact ⟨hok, scheduled, hlisted, hencoded⟩

end Taking

end Golioth.Requests
