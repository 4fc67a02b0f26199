/-
# Reading a client after a write

Reading a client after it was written to: the effect of each kind of write on
the addresses in the list, on the request at an address, and on the log. Then
what a submission leaves behind.
-/
import Golioth.Requests.Dispatch

namespace Golioth.Requests

open Golioth.Coap

variable {κ σ : Type}

/-! ## Reading after a write -/

namespace Client

variable (c : Client κ σ) (event : Event) {ref other : ℕ} {f : CoapReq κ → CoapReq κ}

theorem mem_refs_iff : ref ∈ c.refs ↔ ∃ req, c.find ref = some req := by
  rw [refs, find, ← Option.isSome_iff_exists, List.find?_isSome]
  simp only [List.mem_map, decide_eq_true_eq]

theorem find_eq_none_iff : c.find ref = none ↔ ref ∉ c.refs := by
  rw [mem_refs_iff, ← Option.isSome_iff_exists, Option.not_isSome_iff_eq_none]

variable {c}

theorem ref_of_find {req : CoapReq κ} (hfind : c.find ref = some req) : req.ref = ref := by
  simpa using List.find?_some hfind

theorem mem_of_find {req : CoapReq κ} (hfind : c.find ref = some req) :
    req ∈ c.coapReqs :=
  List.mem_of_find?_eq_some hfind

/-- With one request to an address, every listed request is the one found there. -/
theorem find_of_mem (hnodup : c.refs.Nodup) {req : CoapReq κ} (hmem : req ∈ c.coapReqs) :
    c.find req.ref = some req := by
  have hlisted : req.ref ∈ c.refs := List.mem_map_of_mem hmem
  obtain ⟨found, hfound⟩ := c.mem_refs_iff.mp hlisted
  rw [hfound, Option.some_inj]
  exact List.inj_on_of_nodup_map hnodup (mem_of_find hfound) hmem (ref_of_find hfound)

variable (c)

@[simp] theorem refs_emit : (c.emit event).refs = c.refs := rfl
@[simp] theorem find_emit : (c.emit event).find ref = c.find ref := rfl
@[simp] theorem log_emit : (c.emit event).log = c.log ++ [event] := rfl
@[simp] theorem nextRef_emit : (c.emit event).nextRef = c.nextRef := rfl
@[simp] theorem app_emit : (c.emit event).app = c.app := rfl
@[simp] theorem coapReqs_emit : (c.emit event).coapReqs = c.coapReqs := rfl
@[simp] theorem connected_emit :
    (c.emit event).coapReqsConnected = c.coapReqsConnected := rfl

@[simp] theorem refs_tick : c.tick.refs = c.refs := rfl
@[simp] theorem find_tick : c.tick.find ref = c.find ref := rfl
@[simp] theorem log_tick : c.tick.log = c.log := rfl
@[simp] theorem nextRef_tick : c.tick.nextRef = c.nextRef := rfl
@[simp] theorem app_tick : c.tick.app = c.app := rfl
@[simp] theorem coapReqs_tick : c.tick.coapReqs = c.coapReqs := rfl
@[simp] theorem connected_tick : c.tick.coapReqsConnected = c.coapReqsConnected := rfl

@[simp] theorem log_modify : (c.modify ref f).log = c.log := rfl
@[simp] theorem nextRef_modify : (c.modify ref f).nextRef = c.nextRef := rfl
@[simp] theorem app_modify : (c.modify ref f).app = c.app := rfl
@[simp] theorem readings_modify : (c.modify ref f).readings = c.readings := rfl
@[simp] theorem connected_modify :
    (c.modify ref f).coapReqsConnected = c.coapReqsConnected := rfl

theorem refs_modify (hf : ∀ req, req.ref = ref → (f req).ref = ref) :
    (c.modify ref f).refs = c.refs := by
  simp only [refs, modify, List.map_map]
  refine List.map_congr_left fun req _ => ?_
  by_cases h : req.ref = ref
  · simp [h, hf req h]
  · simp [h]

private theorem find_modify (hf : ∀ req, req.ref = ref → (f req).ref = ref) (other : ℕ) :
    (c.modify ref f).find other =
      (c.find other).map fun req => if req.ref = ref then f req else req := by
  simp only [find, modify, List.find?_map]
  congr 2
  funext req
  by_cases h : req.ref = ref
  · simp [h, hf req h]
  · simp [h]

theorem find_modify_self (hf : ∀ req, req.ref = ref → (f req).ref = ref) :
    (c.modify ref f).find ref = (c.find ref).map f := by
  rw [c.find_modify hf]
  cases hfind : c.find ref with
  | none => rfl
  | some req => simp [ref_of_find hfind]

theorem find_modify_of_ne (hf : ∀ req, req.ref = ref → (f req).ref = ref)
    (hne : other ≠ ref) : (c.modify ref f).find other = c.find other := by
  rw [c.find_modify hf]
  cases hfind : c.find other with
  | none => rfl
  | some req => simp [ref_of_find hfind, hne]

end Client

section Cancel

variable (c : Client κ σ) {ref other : ℕ}

@[simp] theorem refs_coapReqCancelAndFree :
    (coapReqCancelAndFree ref c).refs = c.refs.filter (· ≠ ref) := by
  simp only [coapReqCancelAndFree, Client.refs_emit]
  simp only [Client.refs, List.filter_map]
  rfl

@[simp] theorem log_coapReqCancelAndFree :
    (coapReqCancelAndFree ref c).log = c.log ++ [.freed ref] := rfl

@[simp] theorem nextRef_coapReqCancelAndFree :
    (coapReqCancelAndFree ref c).nextRef = c.nextRef := rfl

@[simp] theorem app_coapReqCancelAndFree : (coapReqCancelAndFree ref c).app = c.app := rfl

@[simp] theorem connected_coapReqCancelAndFree :
    (coapReqCancelAndFree ref c).coapReqsConnected = c.coapReqsConnected := rfl

@[simp] theorem find_coapReqCancelAndFree_self :
    (coapReqCancelAndFree ref c).find ref = none := by
  rw [Client.find_eq_none_iff, refs_coapReqCancelAndFree]
  simp

theorem find_coapReqCancelAndFree_of_ne (hne : other ≠ ref) :
    (coapReqCancelAndFree ref c).find other = c.find other := by
  change (c.coapReqs.filter fun req => req.ref ≠ ref).find? (·.ref = other) = _
  rw [List.find?_filter, Client.find]
  congr 1
  funext req
  by_cases h : req.ref = other <;> simp [h, hne]

end Cancel

/-! ## Submissions -/

/-- The callback a submission names. -/
def Submission.cb : Submission κ → Option κ
  | .reqCb args => args.cb
  | .fwDownload args => args.cb

/-- The user data a submission names. -/
def Submission.userData : Submission κ → ℕ
  | .reqCb args => args.userData
  | .fwDownload args => args.userData

/-- Whether the packet of a submission ends in a payload. -/
def Submission.payload : Submission κ → Bool
  | .reqCb args => args.data.isSome ∧ args.dataLen ≠ 0
  | .fwDownload _ => false

/-- The method a submission asks for. -/
def Submission.method : Submission κ → Method
  | .reqCb args => args.method
  | .fwDownload _ => .get

/-- The length of the buffer a submission allocates. -/
def Submission.bufferLen : Submission κ → ℕ
  | .reqCb args =>
    goliothCoapMaxNonPayloadLen + coapPathvEstimateAllocLen args.pathv + args.dataLen
  | .fwDownload _ => goliothCoapMaxNonPayloadLen

/-- How a submission completes its new request before it schedules it. -/
def Submission.complete (z : Zephyr) : Submission κ → CoapReq κ → ℤ × CoapReq κ
  | .reqCb args, req =>
    let req :=
      if args.method = .get ∧ args.flagObserve then
        { req with isObserve := true, isPending := true }
      else req
    let filled := appendRequestOptions z args req.request
    (filled.1, { req with request := filled.2 })
  | .fwDownload args, req =>
    let filled := coapPacketAppendUriPathFromStringRange z req.request args.uri
      (some args.uriLen)
    (filled.1, { req with request := filled.2 })

/-- A request as a submission lists it. -/
structure Built (e : Env κ σ) (submission : Submission κ) (ref : ℕ) (req : CoapReq κ) :
    Prop where
  ref_eq : req.ref = ref
  isObserve : req.isObserve = submission.observe
  isPending : req.isPending = submission.observe
  cb : req.cb = submission.cb
  userData : req.userData = submission.userData
  request : Assembled e.zephyr submission.payload req.request
  requestWoBlock2 : req.requestWoBlock2.offset = 0
  blockCtx : req.blockCtx =
    coapBlockTransferInit (goliothEstimatedCoapBlockSize e.config.rxBufferLen) 0
  retries : req.pending.retries = 3

/-- What a submission returns and leaves behind. An address is used up; the
request is turned away, or it is listed last. -/
inductive Submitted (e : Env κ σ) (submission : Submission κ) (c : Client κ σ) :
    ℤ × Client κ σ → Prop
  | rejected {err : ℤ} {readings : ℕ} {log : List Event} (events : List Event) :
      err ≠ 0 → (∀ event ∈ events, event = .freed c.nextRef) →
      log = c.log ++ (events ++ [.scheduled c.nextRef submission.observe err]) →
      Submitted e submission c
        (err, { c with nextRef := c.nextRef + 1, readings := readings, log := log })
  | listed {req : CoapReq κ} {readings : ℕ} :
      c.coapReqsConnected = true → Built e submission c.nextRef req →
      Submitted e submission c
        (0, { c with
          coapReqs := c.coapReqs ++ [req]
          nextRef := c.nextRef + 1
          readings := readings
          log := c.log ++ [.scheduled c.nextRef submission.observe 0] })

section Submit

variable (e : Env κ σ)

private theorem coapReqInit_cases (ref : ℕ) (method : Method) (bufferLen : ℕ)
    (token : FullToken) (id : UInt16) (cb : Option κ) (userData : ℕ) :
    (∃ err, err ≠ 0 ∧
      coapReqInit e ref method .con bufferLen token id cb userData = .error err) ∨
    ∃ req, coapReqInit e ref method .con bufferLen token id cb userData = .ok req ∧
      Assembled e.zephyr false req.request ∧
      req =
        { ref := ref
          request := req.request
          requestWoBlock2 := ⟨0, 0, 0, 0, 0⟩
          blockCtx :=
            coapBlockTransferInit (goliothEstimatedCoapBlockSize e.config.rxBufferLen) 0
          reply := { seq := 0, ts := -coapObserveTsDiffNewer }
          pending := { t0 := 0, timeout := 0, retries := 0 }
          isObserve := false
          isPending := false
          cb := cb
          userData := userData } := by
  unfold coapReqInit
  dsimp only
  split
  · next hne => exact .inl ⟨_, hne, rfl⟩
  · next hok => exact .inr ⟨_, rfl, .init token.2 (not_not.mp hok), rfl⟩

private theorem coapReqNew_cases (method : Method) (bufferLen : ℕ) (cb : Option κ)
    (userData : ℕ) (c : Client κ σ) :
    ∃ readings made, coapReqNew e method .con bufferLen cb userData c =
        (made, { c with nextRef := c.nextRef + 1, readings := readings }) ∧
      ((∃ err, err ≠ 0 ∧ made = .error err) ∨
        ∃ token id, made = coapReqInit e c.nextRef method .con bufferLen token id cb userData) := by
  have hnomem : -Errno.enomem ≠ 0 := by decide
  unfold coapReqNew
  dsimp only
  split
  · exact ⟨c.readings + 1, _, rfl, .inl ⟨_, hnomem, rfl⟩⟩
  · split
    · exact ⟨c.readings + 2, _, rfl, .inl ⟨_, hnomem, rfl⟩⟩
    · exact ⟨c.readings + 4, _, rfl, .inr ⟨_, _, rfl⟩⟩

/-- What completing a new request may change in it. -/
private structure Completes (e : Env κ σ) (submission : Submission κ)
    (prepare : CoapReq κ → ℤ × CoapReq κ) : Prop where
  fields : ∀ req, req.isObserve = false → req.isPending = false →
    (prepare req).2 = { req with
      isObserve := submission.observe, isPending := submission.observe
      request := (prepare req).2.request }
  request : ∀ req, Assembled e.zephyr false req.request →
    (prepare req).1 = 0 → Assembled e.zephyr submission.payload (prepare req).2.request

private theorem coapReqSchedule_cases (req : CoapReq κ) (c : Client κ σ) :
    (∃ err, err ≠ 0 ∧ coapReqSchedule e req c = (err, c.tick)) ∨
    (c.coapReqsConnected = true ∧ ∃ uptime, coapReqSchedule e req c =
      (0, { c.tick with
        coapReqs := c.coapReqs ++ [{ req with pending := coapPendingInit uptime 3 }] })) := by
  unfold coapReqSchedule coapReqSubmit
  split
  · exact .inl ⟨_, by decide, rfl⟩
  · next hconnected => exact .inr ⟨not_not.mp hconnected, _, rfl⟩

private theorem newPreparedSchedule_cases (submission : Submission κ) (method : Method)
    {bufferLen : ℕ} {prepare : CoapReq κ → ℤ × CoapReq κ}
    (hcompletes : Completes e submission prepare) (c : Client κ σ)
    {result : ℤ × Client κ σ}
    (hresult : newPreparedSchedule e method bufferLen submission.cb submission.userData
      prepare c = result) :
    Submitted e submission c
      (result.1, result.2.emit (.scheduled c.nextRef submission.observe result.1)) := by
  obtain ⟨readings, made, hnew, hmade⟩ := coapReqNew_cases e method bufferLen submission.cb
    submission.userData c
  rw [newPreparedSchedule, hnew] at hresult
  rcases hmade with ⟨err, herr, rfl⟩ | ⟨token, id, rfl⟩
  · subst hresult
    exact .rejected [] herr (by simp) rfl
  · rcases coapReqInit_cases e c.nextRef method bufferLen token id submission.cb
      submission.userData with ⟨err, herr, hinit⟩ | ⟨req, hinit, hassembled, hreq⟩
    · rw [hinit] at hresult
      subst hresult
      exact .rejected [] herr (by simp) rfl
    · rw [hinit] at hresult
      have href : req.ref = c.nextRef := by rw [hreq]
      dsimp only at hresult
      split at hresult
      · next hne =>
        subst hresult
        exact .rejected [.freed req.ref] hne (by simp [href]) (by simp)
      · next hok =>
        have hrequest := hcompletes.request req hassembled (not_not.mp hok)
        have hfields := hcompletes.fields req (by rw [hreq]) (by rw [hreq])
        rcases coapReqSchedule_cases e (prepare req).2
            { c with nextRef := c.nextRef + 1, readings := readings } with
          ⟨err, herr, hschedule⟩ | ⟨hconnected, uptime, hschedule⟩
        · rw [hschedule, if_pos herr] at hresult
          subst hresult
          exact .rejected [.freed req.ref] herr (by simp [href]) (by simp)
        · rw [hschedule, if_neg (by simp)] at hresult
          subst hresult
          refine .listed hconnected ?_
          rw [hfields, hreq]
          rw [hreq] at hrequest
          exact ⟨rfl, rfl, rfl, rfl, rfl, hrequest, rfl, rfl, rfl⟩

private theorem assembles_appendRequestOptions (args : ReqArgs κ) {packet : CoapPacket}
    (h : Assembled e.zephyr false packet) :
    Assembles e.zephyr (Submission.reqCb args).payload
      (appendRequestOptions e.zephyr args packet) := by
  unfold appendRequestOptions
  refine Assembles.orReturn ?_ fun packet hpacket => ?_
  · split
    · exact fun hok => .appendOptionInt h (by decide) hok
    · exact assembles_self h
  refine (assembles_pathv hpacket args.pathv).orReturn fun packet hpacket => ?_
  refine Assembles.orReturn ?_ fun packet hpacket => ?_
  · split
    · exact fun hok => .appendOptionInt hpacket (by decide) hok
    · exact assembles_self hpacket
  refine Assembles.orReturn ?_ fun packet hpacket => ?_
  · split
    · exact fun hok => .appendOptionInt hpacket (by decide) hok
    · exact assembles_self hpacket
  cases hdata : args.data with
  | none =>
    have hpayload : (Submission.reqCb args).payload = false := by
      simp [Submission.payload, hdata]
    rw [hpayload]
    exact assembles_self hpacket
  | some data =>
    dsimp only
    split
    · next hlen =>
      have hpayload : (Submission.reqCb args).payload = false := by
        simp [Submission.payload, hlen]
      rw [hpayload]
      exact assembles_self hpacket
    · next hlen =>
      have hpayload : (Submission.reqCb args).payload = true := by
        simp [Submission.payload, hdata, hlen]
      rw [hpayload, orReturn]
      split
      · next hmarker =>
        exact fun hok => .appendPayload (.appendPayloadMarker hpacket hmarker) hok
      · next hmarker => exact fun hok => absurd hok hmarker

/-- Every submission ends in one of the two ways. -/
theorem submitted (submission : Submission κ) (c : Client κ σ) :
    Submitted e submission c (submit e submission c) := by
  cases submission with
  | reqCb args =>
    refine newPreparedSchedule_cases e (.reqCb args) args.method
      ⟨fun req hobserve hpending => ?_, fun req hrequest hok => ?_⟩ c rfl
    · by_cases h : args.method = .get ∧ args.flagObserve = true
      · simp [h, Submission.observe]
      · simp [h, Submission.observe, hobserve, hpending]
    · refine assembles_appendRequestOptions e args ?_ hok
      split <;> exact hrequest
  | fwDownload args =>
    refine newPreparedSchedule_cases e (.fwDownload args) .get
      ⟨fun req hobserve hpending => ?_, fun req hrequest hok => ?_⟩ c rfl
    · simp [Submission.observe, hobserve, hpending]
    · exact assembles_stringRange hrequest args.uri (some args.uriLen) hok

theorem submit_fst (submission : Submission κ) (c : Client κ σ) :
    (submit e submission c).1 =
      (newPreparedSchedule e submission.method submission.bufferLen submission.cb
        submission.userData (submission.complete e.zephyr) c).1 := by
  cases submission <;> rfl

theorem coapReqs_submit (submission : Submission κ) (c : Client κ σ) :
    (submit e submission c).2.coapReqs =
      (newPreparedSchedule e submission.method submission.bufferLen submission.cb
        submission.userData (submission.complete e.zephyr) c).2.coapReqs := by
  cases submission <;> rfl

theorem reply_complete (z : Zephyr) (submission : Submission κ) (req : CoapReq κ) :
    (submission.complete z req).2.reply = req.reply := by
  cases submission with
  | reqCb args =>
    unfold Submission.complete
    dsimp only
    split <;> rfl
  | fwDownload args => rfl

/-- What a submission that succeeds has listed: a new request, completed, with its timer just
set. -/
theorem listed_of_submit_ok {submission : Submission κ} {c : Client κ σ}
    (hok : (submit e submission c).1 = 0) :
    ∃ token id initial reading,
      coapReqInit e c.nextRef submission.method .con submission.bufferLen token id submission.cb
        submission.userData = .ok initial ∧
      (submission.complete e.zephyr initial).1 = 0 ∧
      (submit e submission c).2.coapReqs = c.coapReqs ++
        [{ (submission.complete e.zephyr initial).2 with
          pending := coapPendingInit (e.kUptimeGet reading) 3 }] := by
  rw [submit_fst] at hok
  rw [coapReqs_submit]
  obtain ⟨readings, made, hnew, hmade⟩ := coapReqNew_cases e submission.method
    submission.bufferLen submission.cb submission.userData c
  rw [newPreparedSchedule, hnew] at hok ⊢
  rcases hmade with ⟨err, herr, rfl⟩ | ⟨token, id, rfl⟩
  · exact absurd hok herr
  · rcases coapReqInit_cases e c.nextRef submission.method submission.bufferLen token id
      submission.cb submission.userData with ⟨err, herr, hinit⟩ | ⟨req, hinit, -, -⟩
    · rw [hinit] at hok
      exact absurd hok herr
    · refine ⟨token, id, req, readings, hinit, ?_⟩
      rw [hinit] at hok ⊢
      dsimp only at hok ⊢
      split at hok
      · next hne => exact absurd hok hne
      · next hcomplete =>
        rw [if_neg hcomplete]
        refine ⟨not_not.mp hcomplete, ?_⟩
        split at hok
        · next hne => exact absurd hok hne
        · next hscheduled =>
          rw [if_neg hscheduled]
          unfold coapReqSchedule coapReqSubmit at hscheduled ⊢
          split
          · next hclosed =>
            rw [if_pos hclosed] at hscheduled
            exact absurd (show -Errno.enetdown ≠ 0 by decide) hscheduled
          · rfl

/-- A request starts with no notification noted, and with its timer just set. -/
theorem coapReqs_of_submit_ok {submission : Submission κ} {c : Client κ σ}
    (hok : (submit e submission c).1 = 0) :
    ∃ req reading, (submit e submission c).2.coapReqs = c.coapReqs ++ [req] ∧
      req.reply = { seq := 0, ts := -coapObserveTsDiffNewer } ∧
      req.pending = coapPendingInit (e.kUptimeGet reading) 3 := by
  obtain ⟨token, id, initial, reading, hinit, -, hlisted⟩ := listed_of_submit_ok e hok
  refine ⟨_, reading, hlisted, ?_, rfl⟩
  rcases coapReqInit_cases e c.nextRef submission.method submission.bufferLen token id
    submission.cb submission.userData with ⟨err, -, hinit'⟩ | ⟨req, hinit', -, hreq⟩
  · rw [hinit] at hinit'
    cases hinit'
  · rw [hinit] at hinit'
    cases hinit'
    rw [reply_complete, hreq]

end Submit

end Golioth.Requests
