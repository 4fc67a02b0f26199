/-
# Asking for one block after the other

A request that asks for another block gets a fresh message id and a Block2 option. The
packet as it was before the first of these options is remembered as a copy of the
structure, which shares the bytes with it, so that every option is appended to the
same bytes and none is left from the call before.
-/
import Golioth.Coap.Paths
import Golioth.Requests.Blockwise
import Golioth.Requests.Encoding

namespace Golioth.Requests

open Golioth.Coap
open CS.OptionFormat (encode)

variable {κ σ : Type} {e : Env κ σ} {c c' : Client κ σ} {ref : ℕ}
  {req req' scheduled : CoapReq κ} {value : BlockContext → List UInt8}
  {calls : List (UInt16 × BlockContext)}

/-! ## Calls -/

/-- Two requests have the same packet, whatever else there is to them. -/
structure SamePacket (req req' : CoapReq κ) : Prop where
  request : req'.request = req.request
  requestWoBlock2 : req'.requestWoBlock2 = req.requestWoBlock2
  isObserve : req'.isObserve = req.isObserve

/-- What calls of `golioth_coap_req_next_block` that succeed make of a request, each with its fresh
message id and the block context it finds. Between two calls anything may happen that leaves the
packet alone. -/
inductive NextBlocks (e : Env κ σ) (scheduled : CoapReq κ) :
    List (UInt16 × BlockContext) → CoapReq κ → Prop
  | none : NextBlocks e scheduled [] scheduled
  | call {calls : List (UInt16 × BlockContext)} {req req₁ req₂ : CoapReq κ} {c c' : Client κ σ}
      {ref : ℕ} {status : ℤ} (before : NextBlocks e scheduled calls req)
      (hsame : SamePacket req req₁) (hwf : WellFormed c) (hfind : c.find ref = some req₁)
      (hcall : coapReqNextBlock e ref status c = (0, c')) (hfind' : c'.find ref = some req₂) :
      NextBlocks e scheduled (calls ++ [(e.coapNextId c.readings, req₁.blockCtx)]) req₂

/-- The packet of a request after some calls: it is the one that was scheduled, or a Block2 option
has been appended to it after its message id was replaced. -/
structure Asked (z : Zephyr) (scheduled : CoapReq κ) (calls : List (UInt16 × BlockContext))
    (req : CoapReq κ) : Prop where
  isObserve : req.isObserve = false
  unasked : calls = [] → req.request = scheduled.request ∧ req.requestWoBlock2.offset = 0
  last : ∀ before id context, calls = before ++ [(id, context)] →
    req.requestWoBlock2 = scheduled.request.fields ∧
    (z.coapAppendBlock2Option (coapPacketSetId scheduled.request id) context).1 = 0 ∧
    req.request = (z.coapAppendBlock2Option (coapPacketSetId scheduled.request id) context).2

section Packets

variable {z : Zephyr} {packet : CoapPacket}

theorem coapPacketSetId_setId (packet : CoapPacket) (id id' : UInt16) :
    coapPacketSetId (coapPacketSetId packet id) id' = coapPacketSetId packet id' := by
  have hcomm (bytes : List UInt8) (a b : UInt8) : (bytes.set 3 a).set 2 b = (bytes.set 2 b).set 3 a :=
    List.set_comm a b (by decide)
  simp only [coapPacketSetId, hcomm, List.set_set]

@[simp] theorem fields_setId (packet : CoapPacket) (id : UInt16) :
    (coapPacketSetId packet id).fields = packet.fields := by
  simp [coapPacketSetId, CoapPacket.fields, CoapPacket.offset]

@[simp] theorem offset_setId (packet : CoapPacket) (id : UInt16) :
    (coapPacketSetId packet id).offset = packet.offset :=
  congrArg PacketFields.offset (fields_setId packet id)

/-- The options of an assembled packet come before Block2. -/
theorem delta_le_of_assembled (hz : z.WritingContract) (horder : z.OrderContract) {payload : Bool}
    (h : Assembled z payload packet) : packet.delta ≤ OptionNum.block2.value := by
  induction h with
  | init _ hok =>
    rw [(hz.init _ _ _ _ _ hok).2]
    exact Nat.zero_le _
  | appendOption _ hlt hok ih => exact (horder.appendOption _ _ _ hok).trans (max_le ih hlt.le)
  | appendOptionInt _ hlt hok ih =>
    rw [hz.appendOptionInt] at hok ⊢
    exact (horder.appendOption _ _ _ hok).trans (max_le ih hlt.le)
  | appendPayloadMarker _ _ ih => exact (horder.appendPayloadMarker _).trans_le ih
  | appendPayload _ _ ih => exact (horder.appendPayload _ _).trans_le ih
  | setId _ _ ih => exact ih

/-- What a Block2 option adds to a packet. -/
theorem data_appendBlock2 (hz : z.WritingContract) (hblock2 : z.Block2Contract value)
    {payload : Bool} (hassembled : Assembled z payload packet)
    (hdelta : packet.delta ≤ OptionNum.block2.value) (context : BlockContext)
    (hok : (z.coapAppendBlock2Option packet context).1 = 0) :
    (z.coapAppendBlock2Option packet context).2.data =
      packet.data ++ encode (OptionNum.block2.value - packet.delta) (value context) := by
  rw [hblock2.option _ _ _ hassembled] at hok ⊢
  exact (hz.appendOption packet .block2 (value context) hdelta (hblock2.length_lt context) hok).1

end Packets

/-! ## What the calls make of the packet -/

/-- What the callback of an observation that asks for another block is told. -/
def notSupportedRsp (req : CoapReq κ) : Rsp :=
  { userData := req.userData, err := -Errno.enotsup }

/-- A call for an observation: it returns zero and calls the callback once, with `-ENOTSUP`, and
leaves this request and the others as they are. -/
structure NotSupported (e : Env κ σ) (ref : ℕ) (status : ℤ) (req : CoapReq κ)
    (c : Client κ σ) : Prop where
  returns : (coapReqNextBlock e ref status c).1 = 0
  history : ∃ ret, (coapReqNextBlock e ref status c).2.history ref = c.history ref ++
    [.called ref (notSupportedRsp req), .returned ref (notSupportedRsp req) ret]
  find : (coapReqNextBlock e ref status c).2.find ref = some req
  others : ∀ other < c.nextRef, other ≠ ref →
    (coapReqNextBlock e ref status c).2.find other = c.find other ∧
      (coapReqNextBlock e ref status c).2.history other = c.history other

section Invariant

/-- What a call works on: the packet that was scheduled, under a fresh message id. -/
theorem Asked.prepare_eq (hz : e.zephyr.WritingContract) (hblock2 : e.zephyr.Block2Contract value)
    {payload : Bool} (hassembled : Assembled e.zephyr payload scheduled.request)
    (hdelta : scheduled.request.delta ≤ OptionNum.block2.value)
    (hoffset : scheduled.request.offset ≠ 0) (h : Asked e.zephyr scheduled calls req)
    (hsame : SamePacket req req') (id : UInt16) (uptime : ℤ) :
    (coapReqPrepareNextBlock e.zephyr id uptime req').1 =
        (e.zephyr.coapAppendBlock2Option (coapPacketSetId scheduled.request id) req'.blockCtx).1 ∧
      (coapReqPrepareNextBlock e.zephyr id uptime req').2.request =
        (e.zephyr.coapAppendBlock2Option (coapPacketSetId scheduled.request id) req'.blockCtx).2 ∧
      (coapReqPrepareNextBlock e.zephyr id uptime req').2.requestWoBlock2 =
        scheduled.request.fields ∧
      (coapReqPrepareNextBlock e.zephyr id uptime req').2.isObserve = false := by
  -- the packet that the option is appended to, and the copy that is kept of it
  have hprepared :
      (if req'.requestWoBlock2.offset ≠ 0 then
          (coapPacketSetId req'.request id).restore req'.requestWoBlock2
        else coapPacketSetId req'.request id) = coapPacketSetId scheduled.request id ∧
      (if req'.requestWoBlock2.offset ≠ 0 then req'.requestWoBlock2
        else (coapPacketSetId req'.request id).fields) = scheduled.request.fields := by
    rw [hsame.request, hsame.requestWoBlock2]
    rcases List.eq_nil_or_concat calls with rfl | ⟨before, ⟨last, context⟩, rfl⟩
    · obtain ⟨hrequest, hzero⟩ := h.unasked rfl
      rw [if_neg (not_not.mpr hzero), if_neg (not_not.mpr hzero), hrequest]
      exact ⟨rfl, fields_setId _ _⟩
    · obtain ⟨hcopy, hok, hrequest⟩ := h.last before last context (List.concat_eq_append ..)
      have hne : req.requestWoBlock2.offset ≠ 0 := by
        rw [hcopy]
        exact hoffset
      have hdata := data_appendBlock2 hz hblock2 (.setId last hassembled)
        (show (coapPacketSetId scheduled.request last).delta ≤ _ from hdelta) context hok
      rw [← hrequest] at hdata
      have hstart : (coapPacketSetId scheduled.request last).data <+: req.request.data := by
        rw [hdata]
        exact List.prefix_append _ _
      have hrestored := restore_setId hstart id
      rw [fields_setId, coapPacketSetId_setId] at hrestored
      rw [if_pos hne, if_pos hne, hcopy]
      exact ⟨hrestored, rfl⟩
  obtain ⟨hbase, hfields⟩ := hprepared
  have hobserve : req'.isObserve = false := hsame.isObserve.trans h.isObserve
  unfold coapReqPrepareNextBlock coapReqAppendBlock2Option
  dsimp only
  split at hbase
  · next hne =>
    rw [if_pos hne] at hfields
    simp only [if_pos hne, hbase]
    split
    · exact ⟨rfl, rfl, hfields, hobserve⟩
    · next hok => exact ⟨(not_not.mp hok).symm, rfl, hfields, hobserve⟩
  · next hzero =>
    rw [if_neg hzero] at hfields
    simp only [if_neg hzero, hbase]
    rw [hbase] at hfields
    split
    · exact ⟨rfl, rfl, hfields, hobserve⟩
    · next hok => exact ⟨(not_not.mp hok).symm, rfl, hfields, hobserve⟩

/-- **Step.** A call that succeeds appends its option to the packet that was scheduled. -/
theorem Asked.call (hz : e.zephyr.WritingContract) (hblock2 : e.zephyr.Block2Contract value)
    {payload : Bool} (hassembled : Assembled e.zephyr payload scheduled.request)
    (hdelta : scheduled.request.delta ≤ OptionNum.block2.value)
    (hoffset : scheduled.request.offset ≠ 0) (h : Asked e.zephyr scheduled calls req)
    {req₁ req₂ : CoapReq κ} (hsame : SamePacket req req₁) (hfind : c.find ref = some req₁)
    {status : ℤ} (hcall : coapReqNextBlock e ref status c = (0, c'))
    (hfind' : c'.find ref = some req₂) :
    Asked e.zephyr scheduled (calls ++ [(e.coapNextId c.readings, req₁.blockCtx)]) req₂ := by
  have hobserve : req₁.isObserve = false := hsame.isObserve.trans h.isObserve
  have hticked : c.tick.find ref = some req₁ := hfind
  simp only [coapReqNextBlock, hticked, hobserve, Bool.false_eq_true, if_false] at hcall
  obtain ⟨hok, hrequest, hcopy, hkept⟩ := h.prepare_eq hz hblock2 hassembled hdelta hoffset
    hsame (e.coapNextId c.readings) (e.kUptimeGet c.tick.readings)
  obtain ⟨hzero, hclient⟩ := Prod.mk.inj hcall
  rw [hok] at hzero
  have href : (coapReqPrepareNextBlock e.zephyr (e.coapNextId c.readings)
      (e.kUptimeGet c.tick.readings) req₁).2.ref = ref :=
    (sameRequest_prepareNextBlock e.zephyr _ _ req₁).ref_eq.trans (Client.ref_of_find hfind)
  have hreq₂ : req₂ = (coapReqPrepareNextBlock e.zephyr (e.coapNextId c.readings)
      (e.kUptimeGet c.tick.readings) req₁).2 := by
    rw [← hclient, Client.find_modify_self _ fun _ _ => href, Client.find_tick, hticked] at hfind'
    exact (Option.some_inj.mp hfind').symm
  subst hreq₂
  refine ⟨hkept, fun hnil => absurd hnil (by simp), ?_⟩
  intro before id context hsplit
  obtain ⟨-, hlast⟩ := List.append_inj' hsplit rfl
  obtain ⟨rfl, rfl⟩ := Prod.mk.inj (List.singleton_inj.mp hlast)
  exact ⟨hcopy, hzero, hrequest⟩

/-- **Run.** Whatever was asked for before, only the last option is there. -/
theorem NextBlocks.asked (hz : e.zephyr.WritingContract)
    (hblock2 : e.zephyr.Block2Contract value)
    {payload : Bool} (hassembled : Assembled e.zephyr payload scheduled.request)
    (hdelta : scheduled.request.delta ≤ OptionNum.block2.value)
    (hoffset : scheduled.request.offset ≠ 0) (hwo : scheduled.requestWoBlock2.offset = 0)
    (hobserve : scheduled.isObserve = false) (h : NextBlocks e scheduled calls req) :
    Asked e.zephyr scheduled calls req := by
  induction h with
  | none =>
    refine ⟨hobserve, fun _ => ⟨rfl, hwo⟩, ?_⟩
    intro before id context hsplit
    exact absurd hsplit.symm (by simp)
  | call _ hsame _ hfind hcall hfind' ih =>
    exact ih.call hz hblock2 hassembled hdelta hoffset hsame hfind hcall hfind'

/-- For an observation the callback is told that there is no next block. -/
theorem notSupported_of_observe (hwf : WellFormed c) (hfind : c.find ref = some req)
    (hobserve : req.isObserve = true) (status : ℤ) : NotSupported e ref status req c := by
  have hticked : c.tick.find ref = some req := hfind
  have hwf₁ : WellFormed c.tick := ⟨hwf.nodup, hwf.refs_lt, hwf.log_lt⟩
  have hcall : coapReqNextBlock e ref status c =
      (0, (invoke e ref req.cb (notSupportedRsp req) c.tick).2) := by
    simp only [coapReqNextBlock, hticked, hobserve, if_true]
    rfl
  refine ⟨by rw [hcall], ?_, ?_, ?_⟩
  · obtain ⟨events, hhistory, hquiet, -⟩ :=
      history_invoke (e := e) hwf₁ hticked req.cb (notSupportedRsp req)
    rw [hquiet (.inr rfl), List.nil_append] at hhistory
    rw [hcall]
    exact ⟨_, hhistory⟩
  · rw [hcall]
    exact find_invoke_of_last hwf₁ hticked req.cb rfl
  · intro other hlt hne
    rw [hcall]
    exact frame_invoke hwf₁ hticked req.cb (notSupportedRsp req) hlt hne.symm

/-- **Run.** The packet of an observation stays as it is. -/
theorem NextBlocks.observed (hobserve : scheduled.isObserve = true)
    (h : NextBlocks e scheduled calls req) :
    req.isObserve = true ∧ req.request = scheduled.request := by
  induction h with
  | none => exact ⟨hobserve, rfl⟩
  | @call calls req req₁ req₂ c c' ref status before hsame hwf hfind hcall hfind' ih =>
    obtain ⟨hkept, hrequest⟩ := ih
    have hobserve₁ : req₁.isObserve = true := hsame.isObserve.trans hkept
    have hfound := (notSupported_of_observe (e := e) hwf hfind hobserve₁ status).find
    rw [hcall, hfind'] at hfound
    rw [Option.some_inj.mp hfound]
    exact ⟨hobserve₁, hsame.request.trans hrequest⟩

end Invariant

/-! ## The packet after any number of calls -/

/-- The packet is the one that was scheduled under another message id, with one Block2 option for
the context after it. -/
structure AsksFor (value : BlockContext → List UInt8) (scheduled : CoapPacket) (id : UInt16)
    (context : BlockContext) (packet : CoapPacket) : Prop where
  data : packet.data = (coapPacketSetId scheduled id).data ++
    encode (OptionNum.block2.value - scheduled.delta) (value context)
  offset : packet.offset = scheduled.offset +
    (encode (OptionNum.block2.value - scheduled.delta) (value context)).length
  delta : packet.delta = OptionNum.block2.value

section Scheduled

variable {submission : Submission κ} {c₀ : Client κ σ}

/-- A submission that succeeds lists a request that is completely built. -/
theorem built_of_submit_ok (hok : (submit e submission c₀).1 = 0)
    (hlisted : (submit e submission c₀).2.coapReqs = c₀.coapReqs ++ [scheduled]) :
    Built e submission c₀.nextRef scheduled := by
  have hsubmitted := submitted e submission c₀
  generalize submit e submission c₀ = result at hok hlisted hsubmitted
  cases hsubmitted with
  | rejected _ hne => exact absurd hok hne
  | listed _ hbuilt =>
    rw [List.singleton_inj.mp (List.append_cancel_left hlisted)] at hbuilt
    exact hbuilt

theorem offset_ne_zero (hheader : e.zephyr.HeaderContract)
    (hbuilt : Built e submission ref scheduled) : scheduled.request.offset ≠ 0 := by
  have hle := hbuilt.request.headerLen_le hheader
  intro hzero
  rw [CoapPacket.offset] at hzero
  rw [hzero] at hle
  exact absurd hle (by decide)

/-- A call succeeds exactly where the packet that was scheduled has room for the option. -/
theorem coapReqNextBlock_eq_zero_iff (hheader : e.zephyr.HeaderContract)
    (hz : e.zephyr.WritingContract) (horder : e.zephyr.OrderContract)
    (hroom : e.zephyr.RoomContract) (hblock2 : e.zephyr.Block2Contract value)
    (hok : (submit e submission c₀).1 = 0)
    (hlisted : (submit e submission c₀).2.coapReqs = c₀.coapReqs ++ [scheduled])
    (hobserve : submission.observe = false) (h : NextBlocks e scheduled calls req)
    {req₁ : CoapReq κ} (hsame : SamePacket req req₁) (hfind : c.find ref = some req₁)
    (status : ℤ) :
    (coapReqNextBlock e ref status c).1 = 0 ↔
      scheduled.request.offset +
          (encode (OptionNum.block2.value - scheduled.request.delta) (value req₁.blockCtx)).length ≤
        scheduled.request.maxLen := by
  have hbuilt := built_of_submit_ok hok hlisted
  have hdelta := delta_le_of_assembled hz horder hbuilt.request
  have hasked := h.asked hz hblock2 hbuilt.request hdelta (offset_ne_zero hheader hbuilt)
    hbuilt.requestWoBlock2 (hbuilt.isObserve.trans hobserve)
  have hobserve₁ : req₁.isObserve = false := hsame.isObserve.trans hasked.isObserve
  have hticked : c.tick.find ref = some req₁ := hfind
  obtain ⟨hprepared, -⟩ := hasked.prepare_eq hz hblock2 hbuilt.request hdelta
    (offset_ne_zero hheader hbuilt) hsame (e.coapNextId c.readings) (e.kUptimeGet c.tick.readings)
  simp only [coapReqNextBlock, hticked, hobserve₁, Bool.false_eq_true, if_false]
  rw [hprepared, hblock2.option _ _ _ (.setId (e.coapNextId c.readings) hbuilt.request)]
  have hle : (coapPacketSetId scheduled.request (e.coapNextId c.readings)).delta ≤
      OptionNum.block2.value := hdelta
  have hiff := hroom.option_iff _ .block2 _ hle (hblock2.length_lt req₁.blockCtx)
  rw [offset_setId] at hiff
  exact hiff

/-- However many blocks a request has asked for, its packet is the one that was scheduled, with one
Block2 option for the last of them. The packet of an observation stays as it is, and each further
call tells its callback `-ENOTSUP`. -/
theorem nextBlocks_packet (hheader : e.zephyr.HeaderContract) (hz : e.zephyr.WritingContract)
    (horder : e.zephyr.OrderContract) (hblock2 : e.zephyr.Block2Contract value)
    (hok : (submit e submission c₀).1 = 0)
    (hlisted : (submit e submission c₀).2.coapReqs = c₀.coapReqs ++ [scheduled])
    (h : NextBlocks e scheduled calls req) :
    (submission.observe = false → ∀ before id context, calls = before ++ [(id, context)] →
      AsksFor value scheduled.request id context req.request) ∧
    (submission.observe = true → req.request = scheduled.request ∧
      ∀ ref status (c : Client κ σ) (req₁ : CoapReq κ), SamePacket req req₁ → WellFormed c →
        c.find ref = some req₁ → NotSupported e ref status req₁ c) := by
  have hbuilt := built_of_submit_ok hok hlisted
  constructor
  · intro hobserve before id context hlast
    have hdelta := delta_le_of_assembled hz horder hbuilt.request
    obtain ⟨-, hzero, hrequest⟩ :=
      (h.asked hz hblock2 hbuilt.request hdelta (offset_ne_zero hheader hbuilt)
        hbuilt.requestWoBlock2 (hbuilt.isObserve.trans hobserve)).last before id context hlast
    have hle : (coapPacketSetId scheduled.request id).delta ≤ OptionNum.block2.value := hdelta
    have hdata := data_appendBlock2 hz hblock2 (.setId id hbuilt.request) hle context hzero
    have hafter : req.request.delta = OptionNum.block2.value := by
      rw [hrequest, hblock2.option _ _ _ (.setId id hbuilt.request)] at *
      exact (hz.appendOption _ .block2 (value context) hle (hblock2.length_lt context) hzero).2
    rw [← hrequest] at hdata
    refine ⟨hdata, ?_, hafter⟩
    rw [CoapPacket.offset, hdata, List.length_append]
    exact congrArg (· + _) (offset_setId scheduled.request id)
  · intro hobserve
    obtain ⟨hkept, hrequest⟩ := h.observed (hbuilt.isObserve.trans hobserve)
    refine ⟨hrequest, ?_⟩
    intro ref status c req₁ hsame hwf hfind
    exact notSupported_of_observe hwf hfind (hsame.isObserve.trans hkept) status

end Scheduled

/-- A client whose first request, for `/a`, is listed. -/
def listedClient (observe : Bool) : Client Unit Unit :=
  (submit .quiet (.getA () observe) connectedClient).2

theorem wellFormed_listedClient (observe : Bool) : WellFormed (listedClient observe) := by
  cases observe <;> exact ⟨by decide, by decide, by decide⟩

/-- The client after its request has asked for the next block. -/
def askedClient (observe : Bool) : Client Unit Unit :=
  (coapReqNextBlock .quiet 0 0 (listedClient observe)).2

theorem coapReqNextBlock_listedClient (observe : Bool) :
    coapReqNextBlock .quiet 0 0 (listedClient observe) = (0, askedClient observe) := by
  refine Prod.ext ?_ rfl
  cases observe <;> decide

/-- The request asks for its next block once. -/
theorem nextBlocks_askedClient (observe : Bool) : ∃ scheduled req,
    (listedClient observe).coapReqs = [scheduled] ∧ (askedClient observe).find 0 = some req ∧
      NextBlocks .quiet scheduled
        [(Env.quiet.coapNextId (listedClient observe).readings, scheduled.blockCtx)] req := by
  have hone : (listedClient observe).coapReqs.length = 1 := by cases observe <;> decide
  obtain ⟨scheduled, hlisted⟩ := List.length_eq_one_iff.mp hone
  have hasked : ((askedClient observe).find 0).isSome = true := by cases observe <;> decide
  obtain ⟨req, hreq⟩ := Option.isSome_iff_exists.mp hasked
  have hrefs : (listedClient observe).coapReqs.map CoapReq.ref = [0] := by
    cases observe <;> decide
  rw [hlisted] at hrefs
  have hfind : (listedClient observe).find 0 = some scheduled := by
    rw [Client.find, hlisted]
    simp [List.singleton_inj.mp hrefs]
  exact ⟨scheduled, req, hlisted, hreq, NextBlocks.none.call ⟨rfl, rfl, rfl⟩
    (wellFormed_listedClient observe) hfind (coapReqNextBlock_listedClient observe) hreq⟩

/-- The block that is due after four of 16 bytes. -/
def laterBlock : BlockContext := { totalSize := 100, current := 64, blockSize := 0 }

/-- The client when its request has got to a later block. -/
def laterClient (observe : Bool) : Client Unit Unit :=
  (askedClient observe).modify 0 fun req => { req with blockCtx := laterBlock }

/-- The client after its request has asked for that block too. -/
def askedTwiceClient (observe : Bool) : Client Unit Unit :=
  (coapReqNextBlock .quiet 0 0 (laterClient observe)).2

theorem coapReqNextBlock_laterClient (observe : Bool) :
    coapReqNextBlock .quiet 0 0 (laterClient observe) = (0, askedTwiceClient observe) := by
  refine Prod.ext ?_ rfl
  cases observe <;> decide

theorem wellFormed_laterClient (observe : Bool) : WellFormed (laterClient observe) := by
  have hlisted : 0 ∈ (listedClient observe).refs := by cases observe <;> decide
  exact (effect_coapReqNextBlock 0 0 (wellFormed_listedClient observe) hlisted).wellFormed.modify
    fun _ h => h

/-- The request asks twice, for different blocks. -/
theorem nextBlocks_askedTwiceClient (observe : Bool) : ∃ scheduled req,
    (listedClient observe).coapReqs = [scheduled] ∧
      (askedTwiceClient observe).find 0 = some req ∧
      NextBlocks .quiet scheduled
        [(Env.quiet.coapNextId (listedClient observe).readings, scheduled.blockCtx),
          (Env.quiet.coapNextId (laterClient observe).readings, laterBlock)] req := by
  obtain ⟨scheduled, req, hlisted, hreq, hcalls⟩ := nextBlocks_askedClient observe
  have hlater : (laterClient observe).find 0 = some { req with blockCtx := laterBlock } := by
    refine Eq.trans (Client.find_modify_self _ fun _ h => h) ?_
    rw [hreq]
    rfl
  have hasked : ((askedTwiceClient observe).find 0).isSome = true := by cases observe <;> decide
  obtain ⟨req', hreq'⟩ := Option.isSome_iff_exists.mp hasked
  have hsame : SamePacket req { req with blockCtx := laterBlock } := ⟨rfl, rfl, rfl⟩
  exact ⟨scheduled, req', hlisted, hreq', hcalls.call hsame (wellFormed_laterClient observe)
    hlater (coapReqNextBlock_laterClient observe) hreq'⟩

theorem wellFormed_askedTwiceClient (observe : Bool) : WellFormed (askedTwiceClient observe) := by
  have hlisted : 0 ∈ (laterClient observe).refs := by cases observe <;> decide
  exact (effect_coapReqNextBlock 0 0 (wellFormed_laterClient observe) hlisted).wellFormed

theorem nextBlocks_packet_sample :
    (∃ scheduled req : CoapReq Unit, (listedClient false).coapReqs = [scheduled] ∧
      (askedTwiceClient false).find 0 = some req ∧ scheduled.blockCtx ≠ laterBlock ∧
      AsksFor Reference.block2Value scheduled.request
        (Env.quiet.coapNextId (laterClient false).readings) laterBlock req.request) ∧
    ∃ scheduled req : CoapReq Unit, (listedClient true).coapReqs = [scheduled] ∧
      (askedTwiceClient true).find 0 = some req ∧ req.request = scheduled.request ∧
      NotSupported .quiet 0 0 req (askedTwiceClient true) := by
  have hsubmit (observe : Bool) : (submit .quiet (.getA () observe) connectedClient).1 = 0 := by
    cases observe <;> decide
  constructor
  · obtain ⟨scheduled, req, hlisted, hreq, hcalls⟩ := nextBlocks_askedTwiceClient false
    have hpacket := nextBlocks_packet Reference.headerContract Reference.writingContract
      Reference.orderContract Reference.block2Contract (hsubmit false) hlisted hcalls
    have hother : ((listedClient false).coapReqs.map CoapReq.blockCtx) ≠ [laterBlock] := by decide
    rw [hlisted] at hother
    exact ⟨scheduled, req, hlisted, hreq, fun h => hother (congrArg (fun ctx => [ctx]) h),
      hpacket.1 rfl [_] _ _ rfl⟩
  · obtain ⟨scheduled, req, hlisted, hreq, hcalls⟩ := nextBlocks_askedTwiceClient true
    have hpacket := nextBlocks_packet Reference.headerContract Reference.writingContract
      Reference.orderContract Reference.block2Contract (hsubmit true) hlisted hcalls
    obtain ⟨hsame, htold⟩ := hpacket.2 rfl
    exact ⟨scheduled, req, hlisted, hreq, hsame,
      htold 0 0 _ req ⟨rfl, rfl, rfl⟩ (wellFormed_askedTwiceClient true) hreq⟩

/-- An observation that asks for a next block is told that there is none, and its packet has no
Block2 option. -/
theorem nextBlock_of_observation : ∃ scheduled req : CoapReq Unit,
    (listedClient true).coapReqs = [scheduled] ∧
    coapReqNextBlock .quiet 0 0 (listedClient true) = (0, askedClient true) ∧
    (askedClient true).find 0 = some req ∧
    ¬ AsksFor Reference.block2Value scheduled.request
      (Env.quiet.coapNextId (listedClient true).readings) scheduled.blockCtx req.request := by
  obtain ⟨scheduled, req, hlisted, hreq, hcalls⟩ := nextBlocks_askedClient true
  refine ⟨scheduled, req, hlisted, coapReqNextBlock_listedClient true, hreq, ?_⟩
  intro hasks
  have hdelta : ((askedClient true).find 0).map (fun req => req.request.delta) ≠ some 23 := by
    decide
  rw [hreq] at hdelta
  exact hdelta (congrArg some hasks.delta)

end Golioth.Requests
