/-
# Operations as sequences of actions

The module's entry points share a small repertoire of actions: bookkeeping in a
request, a transmission, a submission, and a callback after which the request
stays or is removed. This file takes the response handler apart into a decision,
which is a function of the request and the packet alone, and the actions that
carry it out, and shows that every operation is a run of actions. What every
action preserves is then an invariant of the module.
-/
import Golioth.Requests.Effect

namespace Golioth.Requests

open Golioth.Coap

variable {κ σ : Type}

/-! ## The decision of the response handler -/

/-- What the response handler decides to do: leave the response alone, hand it
over as the last one, or hand it over together with `get_next`. The block
context is the one it leaves behind; `err` is the variable the label
`cancel_and_free` looks at. -/
inductive Verdict
  | ignore (blockCtx : BlockContext)
  | deliver (blockCtx : BlockContext) (rsp : Rsp) (err : ℤ)
  | offer (blockCtx : BlockContext) (rsp : Rsp)
  deriving DecidableEq

/-- The decision on a response that carries a Block2 option. The result of
`coap_next_block_for_option` is compared as a `size_t`, so that a negative one
counts as an offset. -/
def blockVerdict (z : Zephyr) (req : CoapReq κ) (response : RxPacket) : Verdict :=
  let update := z.coapUpdateFromBlock response req.blockCtx
  if update.1 ≠ 0 then
    .deliver update.2 { userData := req.userData, err := -Errno.ebadmsg } (-Errno.ebadmsg)
  else if update.2.current < req.blockCtx.current then
    -- already received
    .ignore { update.2 with current := req.blockCtx.current }
  else
    let next := z.coapNextBlockForOption response update.2 .block2
    if sizeOfInt next.1 = 0 then
      .deliver next.2
        { data := response.payload, off := update.2.current, total := next.2.totalSize
          userData := req.userData } 0
    else
      .offer next.2
        { data := response.payload, off := update.2.current, total := next.2.totalSize
          getNext := true, userData := req.userData
          err := if req.isObserve then -Errno.emsgsize else 0 }

/-- The decision of the response handler. -/
def verdict (z : Zephyr) (req : CoapReq κ) (response : RxPacket) : Verdict :=
  let err := coapCodeToPosix response.code
  if err ≠ 0 then .deliver req.blockCtx { userData := req.userData, err := err } err
  else if coapGetOptionInt response .block2 ≠ -Errno.enoent then blockVerdict z req response
  else
    .deliver req.blockCtx
      { data := response.payload, off := 0, total := response.payload.length
        userData := req.userData } 0

/-- Carry out a decision about a request. -/
def Verdict.carryOut (e : Env κ σ) (req : CoapReq κ) : Verdict → Client κ σ → Client κ σ
  | .ignore blockCtx, c => c.modify req.ref fun req => { req with blockCtx := blockCtx }
  | .deliver blockCtx rsp err, c =>
    labelCancelAndFree req.ref err
      (invoke e req.ref req.cb rsp
        (c.modify req.ref fun req => { req with blockCtx := blockCtx })).2
  | .offer blockCtx rsp, c =>
    let called := invoke e req.ref req.cb rsp
      (c.modify req.ref fun req => { req with blockCtx := blockCtx })
    if called.1 ≠ 0 then labelCancelAndFree req.ref called.1 called.2
    else if req.isObserve then labelCancelAndFree req.ref (-Errno.enotsup) called.2
    else called.2

namespace Client

variable {c : Client κ σ} {ref : ℕ} {f g : CoapReq κ → CoapReq κ}

theorem modify_modify (hf : ∀ req, req.ref = ref → (f req).ref = ref) :
    (c.modify ref f).modify ref g = c.modify ref (g ∘ f) := by
  simp only [modify, List.map_map]
  congr 1
  refine List.map_congr_left fun req _ => ?_
  by_cases h : req.ref = ref
  · simp [h, hf req h]
  · simp [h]

theorem modify_eq_self (hnodup : c.refs.Nodup) {req : CoapReq κ}
    (hfind : c.find ref = some req) (hf : f req = req) : c.modify ref f = c := by
  have hmap : c.coapReqs.map (fun req => if req.ref = ref then f req else req) =
      c.coapReqs.map id := by
    refine List.map_congr_left fun req' hmem => ?_
    split
    · next href =>
      have hfind' := find_of_mem hnodup hmem
      rw [href, hfind] at hfind'
      rw [← Option.some_inj.mp hfind', hf]
      rfl
    · rfl
  rw [modify, hmap, List.map_id]

end Client

section Verdict

private theorem modify_blockCtx_twice (c : Client κ σ) (ref : ℕ) (first : BlockContext)
    (second : BlockContext → BlockContext) :
    ((c.modify ref fun req => { req with blockCtx := first }).modify ref
        fun req => { req with blockCtx := second req.blockCtx }) =
      c.modify ref fun req => { req with blockCtx := second first } :=
  Client.modify_modify fun _ h => h

variable (e : Env κ σ) {c : Client κ σ} {ref : ℕ} {req : CoapReq κ}

private theorem coapReqBlockHandler_eq (req : CoapReq κ) (response : RxPacket)
    (c : Client κ σ) :
    coapReqBlockHandler e req response c =
      (blockVerdict e.zephyr req response).carryOut e req c := by
  unfold coapReqBlockHandler blockVerdict
  dsimp only
  split
  · rfl
  · next hupdate =>
    split
    · exact modify_blockCtx_twice c req.ref _ fun ctx =>
        { ctx with current := req.blockCtx.current }
    · have hmodify := modify_blockCtx_twice c req.ref
        (e.zephyr.coapUpdateFromBlock response req.blockCtx).2
        fun _ => (e.zephyr.coapNextBlockForOption response
          (e.zephyr.coapUpdateFromBlock response req.blockCtx).2 .block2).2
      rw [if_neg (Nat.not_lt_zero _), hmodify]
      split
      · rw [Verdict.carryOut, not_not.mp hupdate]
      · rfl

/-- **The handler decides, then acts.** The branch for a negative result of
`coap_next_block_for_option` is never taken. -/
theorem coapReqReplyHandler_eq (hwf : WellFormed c) (hfind : c.find ref = some req)
    (response : RxPacket) :
    coapReqReplyHandler e ref response c =
      (verdict e.zephyr req response).carryOut e req c := by
  obtain rfl := Client.ref_of_find hfind
  have hself : c.modify req.ref (fun req' => { req' with blockCtx := req.blockCtx }) = c :=
    Client.modify_eq_self hwf.nodup hfind rfl
  unfold coapReqReplyHandler verdict
  simp only [hfind]
  split
  · rw [Verdict.carryOut, hself]
  · next hcode =>
    split
    · exact coapReqBlockHandler_eq e req response c
    · rw [Verdict.carryOut, hself, not_not.mp hcode]

end Verdict

/-! ## Actions -/

/-- The actions operations are made of. `track` and `rearm` keep the books of a
request, for responses and for its timer; after `offer` and `notify` the request
stays on the list, after `finish` it is gone. -/
inductive Action (κ : Type)
  | internal
  | submit (submission : Submission κ)
  | track (ref : ℕ)
  | rearm (ref : ℕ)
  | send (ref : ℕ)
  | offer (ref : ℕ) (rsp : Rsp)
  | notify (ref : ℕ) (rsp : Rsp)
  | finish (ref : ℕ) (rsp : Rsp)

/-- The request an action is about. -/
def Action.about : Action κ → Option ℕ
  | .internal => none
  | .submit _ => none
  | .track ref => some ref
  | .rearm ref => some ref
  | .send ref => some ref
  | .offer ref _ => some ref
  | .notify ref _ => some ref
  | .finish ref _ => some ref

/-- The actions of the response handler for a request. -/
inductive Action.Answers (ref : ℕ) : Action κ → Prop
  | track : Answers ref (.track ref)
  | offer (rsp : Rsp) : Answers ref (.offer ref rsp)
  | notify (rsp : Rsp) : Answers ref (.notify ref rsp)
  | finish (rsp : Rsp) : Answers ref (.finish ref rsp)

theorem Action.Answers.about_eq {action : Action κ} {ref : ℕ} (h : action.Answers ref) :
    action.about = some ref := by
  cases h <;> rfl

/-- An invocation of a callback after which there is none: it carried an error,
or the last data, or it returned an error itself. -/
def Terminal (rsp : Rsp) (ret : ℤ) : Prop :=
  rsp.err ≠ 0 ∨ rsp.getNext = false ∨ ret ≠ 0

instance (rsp : Rsp) (ret : ℤ) : Decidable (Terminal rsp ret) := by
  unfold Terminal
  infer_instance

/-- What each action does. -/
inductive Acts (e : Env κ σ) : Action κ → Client κ σ → Client κ σ → Prop
  | internal {c : Client κ σ} (connected : Bool) (readings : ℕ) :
      Acts e .internal c { c with coapReqsConnected := connected, readings := readings }
  | submit {c : Client κ σ} (submission : Submission κ) :
      Acts e (.submit submission) c (submit e submission c).2
  | track {c : Client κ σ} (ref : ℕ) (reply : Reply → Reply)
      (blockCtx : BlockContext → BlockContext) :
      Acts e (.track ref) c
        (c.modify ref fun req =>
          { req with reply := reply req.reply, blockCtx := blockCtx req.blockCtx })
  | rearm {c : Client κ σ} (ref : ℕ) (pending : Pending) :
      Acts e (.rearm ref) c (c.modify ref fun req => { req with pending := pending })
  | send {c : Client κ σ} {ref : ℕ} {req : CoapReq κ} : c.find ref = some req →
      Acts e (.send ref) c (c.emit (.sent ref req.request.data))
  | offer {c : Client κ σ} {ref : ℕ} {req : CoapReq κ} {rsp : Rsp} :
      c.find ref = some req → req.isObserve = false →
      ¬ Terminal rsp (invoke e ref req.cb rsp c).1 →
      Acts e (.offer ref rsp) c (invoke e ref req.cb rsp c).2
  | notify {c : Client κ σ} {ref : ℕ} {req : CoapReq κ} {rsp : Rsp} :
      c.find ref = some req → req.isObserve = true → rsp.err = 0 → rsp.getNext = false →
      Acts e (.notify ref rsp) c
        ((invoke e ref req.cb rsp c).2.modify ref fun req => { req with isPending := false })
  | finish {c : Client κ σ} {ref : ℕ} {req : CoapReq κ} {rsp : Rsp} :
      c.find ref = some req → Terminal rsp (invoke e ref req.cb rsp c).1 →
      (req.isObserve = true → rsp.err ≠ 0) →
      Acts e (.finish ref rsp) c (coapReqCancelAndFree ref (invoke e ref req.cb rsp c).2)

section Acts

variable {e : Env κ σ} {c c' : Client κ σ} {ref : ℕ} {req : CoapReq κ}

/-- The request a callback was called for is still listed when it returns. -/
theorem find_invoke (hwf : WellFormed c) (hfind : c.find ref = some req) (cb : Option κ)
    (rsp : Rsp) :
    ∃ req', (invoke e ref cb rsp c).2.find ref = some req' ∧
      Prepared e.zephyr req req' := by
  have hlisted : ref ∈ c.refs := c.mem_refs_iff.mpr ⟨req, hfind⟩
  obtain ⟨ret, c₁, hinvoke, heffect⟩ := invoke_effect (e := e) ref cb rsp hwf hlisted
  rw [hinvoke]
  cases hnext : rsp.getNext with
  | true =>
    rw [hnext, if_pos rfl] at heffect
    exact heffect.find_busy ref rfl req hfind
  | false =>
    rw [hnext, if_neg (by simp)] at heffect
    exact ⟨req, (heffect.find_old ref (hwf.refs_lt ref hlisted) (by simp)).trans hfind, .refl⟩

/-- A callback without `get_next` leaves its request as it was. -/
theorem find_invoke_of_last (hwf : WellFormed c) (hfind : c.find ref = some req)
    (cb : Option κ) {rsp : Rsp} (hnext : rsp.getNext = false) :
    (invoke e ref cb rsp c).2.find ref = some req := by
  have hlisted : ref ∈ c.refs := c.mem_refs_iff.mpr ⟨req, hfind⟩
  obtain ⟨ret, c₁, hinvoke, heffect⟩ := invoke_effect (e := e) ref cb rsp hwf hlisted
  rw [hnext, if_neg (by simp)] at heffect
  rw [hinvoke]
  exact (heffect.find_old ref (hwf.refs_lt ref hlisted) (by simp)).trans hfind

theorem wellFormed_invoke (hwf : WellFormed c) (hfind : c.find ref = some req)
    (cb : Option κ) (rsp : Rsp) : WellFormed (invoke e ref cb rsp c).2 := by
  have hlisted : ref ∈ c.refs := c.mem_refs_iff.mpr ⟨req, hfind⟩
  obtain ⟨ret, c₁, hinvoke, heffect⟩ := invoke_effect (e := e) ref cb rsp hwf hlisted
  rw [hinvoke]
  exact heffect.wellFormed.emit
    ((hwf.refs_lt ref hlisted).trans_le heffect.nextRef_le)

theorem wellFormed_coapReqCancelAndFree (hwf : WellFormed c) (hlt : ref < c.nextRef) :
    WellFormed (coapReqCancelAndFree ref c) where
  nodup := by
    rw [refs_coapReqCancelAndFree]
    exact hwf.nodup.filter _
  refs_lt ref' hmem := by
    rw [refs_coapReqCancelAndFree] at hmem
    exact hwf.refs_lt ref' (List.mem_of_mem_filter hmem)
  log_lt event hmem := by
    rw [log_coapReqCancelAndFree, List.mem_append] at hmem
    rcases hmem with hmem | hmem
    · exact hwf.log_lt event hmem
    · exact List.mem_singleton.mp hmem ▸ hlt

theorem nextRef_invoke_le (hwf : WellFormed c) (hfind : c.find ref = some req)
    (cb : Option κ) (rsp : Rsp) : c.nextRef ≤ (invoke e ref cb rsp c).2.nextRef := by
  have hlisted : ref ∈ c.refs := c.mem_refs_iff.mpr ⟨req, hfind⟩
  obtain ⟨ret, c₁, hinvoke, heffect⟩ := invoke_effect (e := e) ref cb rsp hwf hlisted
  rw [hinvoke]
  exact heffect.nextRef_le

/-- Every action keeps the list a list. -/
theorem Acts.wellFormed {action : Action κ} (hacts : Acts e action c c')
    (hwf : WellFormed c) : WellFormed c' := by
  cases hacts with
  | internal connected readings => exact ⟨hwf.nodup, hwf.refs_lt, hwf.log_lt⟩
  | submit submission => exact (effect_submit none hwf submission).wellFormed
  | track ref reply blockCtx => exact hwf.modify fun _ h => h
  | rearm ref pending => exact hwf.modify fun _ h => h
  | send hfind => exact hwf.emit (hwf.refs_lt _ (c.mem_refs_iff.mpr ⟨_, hfind⟩))
  | offer hfind hobserve hterminal => exact wellFormed_invoke hwf hfind _ _
  | notify hfind hobserve herr hnext =>
    exact (wellFormed_invoke hwf hfind _ _).modify fun _ h => h
  | finish hfind hterminal hobserve =>
    refine wellFormed_coapReqCancelAndFree (wellFormed_invoke hwf hfind _ _) ?_
    exact (hwf.refs_lt _ (c.mem_refs_iff.mpr ⟨_, hfind⟩)).trans_le
      (nextRef_invoke_le hwf hfind _ _)

/-- An invocation adds its two events to the history of its request, and for an
observation perhaps more in between. -/
theorem history_invoke (hwf : WellFormed c) (hfind : c.find ref = some req) (cb : Option κ)
    (rsp : Rsp) :
    ∃ events, (invoke e ref cb rsp c).2.history ref =
        c.history ref ++ .called ref rsp :: (events ++ [.returned ref rsp
          (invoke e ref cb rsp c).1]) ∧
      (req.isObserve = false ∨ rsp.getNext = false → events = []) ∧
      ∀ event ∈ events, ∃ rsp ret, event = .called ref rsp ∨ event = .returned ref rsp ret := by
  have hlisted : ref ∈ c.refs := c.mem_refs_iff.mpr ⟨req, hfind⟩
  obtain ⟨ret, c₁, hinvoke, heffect⟩ := invoke_effect (e := e) ref cb rsp hwf hlisted
  rw [hinvoke]
  cases hnext : rsp.getNext with
  | true =>
    rw [hnext, if_pos rfl] at heffect
    obtain ⟨events, hhistory, hquiet, hkind⟩ := heffect.history_busy ref rfl req hfind
    refine ⟨events, ?_, fun h => hquiet (h.resolve_right (by simp)), hkind⟩
    rw [Client.history_emit, hhistory, Client.history_emit]
    simp [Event.ref]
  | false =>
    rw [hnext, if_neg (by simp)] at heffect
    refine ⟨[], ?_, fun _ => rfl, by simp⟩
    rw [Client.history_emit, heffect.history_old ref (hwf.refs_lt ref hlisted) (by simp),
      Client.history_emit]
    simp [Event.ref]

theorem frame_invoke (hwf : WellFormed c) (hfind : c.find ref = some req) (cb : Option κ)
    (rsp : Rsp) {other : ℕ} (hlt : other < c.nextRef) (hne : ref ≠ other) :
    (invoke e ref cb rsp c).2.find other = c.find other ∧
      (invoke e ref cb rsp c).2.history other = c.history other := by
  have hlisted : ref ∈ c.refs := c.mem_refs_iff.mpr ⟨req, hfind⟩
  obtain ⟨ret, c₁, hinvoke, heffect⟩ := invoke_effect (e := e) ref cb rsp hwf hlisted
  have hbusy : other ∉ (if rsp.getNext then some ref else none : Option ℕ) := by
    split <;> simp [hne]
  rw [hinvoke]
  refine ⟨heffect.find_old other hlt hbusy, ?_⟩
  rw [Client.history_emit, heffect.history_old other hlt hbusy, Client.history_emit]
  simp [Event.ref, hne]

theorem fresh_invoke (hwf : WellFormed c) (hfind : c.find ref = some req) (cb : Option κ)
    (rsp : Rsp) {other : ℕ} (hge : c.nextRef ≤ other)
    (hlt : other < (invoke e ref cb rsp c).2.nextRef) :
    Fresh e (invoke e ref cb rsp c).2 other := by
  have hlisted : ref ∈ c.refs := c.mem_refs_iff.mpr ⟨req, hfind⟩
  have href := hwf.refs_lt ref hlisted
  obtain ⟨ret, c₁, hinvoke, heffect⟩ := invoke_effect (e := e) ref cb rsp hwf hlisted
  rw [hinvoke] at hlt ⊢
  refine (heffect.fresh other hge hlt).congr rfl ?_
  have hne : ref ≠ other := by omega
  simp [Event.ref, hne]

theorem history_coapReqCancelAndFree (c : Client κ σ) (ref other : ℕ) :
    (coapReqCancelAndFree ref c).history other =
      c.history other ++ if ref = other then [.freed ref] else [] := by
  exact Client.history_emit _ (.freed ref) other

theorem Acts.nextRef_le {action : Action κ} (hacts : Acts e action c c')
    (hwf : WellFormed c) : c.nextRef ≤ c'.nextRef := by
  cases hacts with
  | internal connected readings => exact le_rfl
  | submit submission => exact (effect_submit none hwf submission).nextRef_le
  | track ref reply blockCtx => exact le_rfl
  | rearm ref pending => exact le_rfl
  | send hfind => exact le_rfl
  | offer hfind hobserve hterminal => exact nextRef_invoke_le hwf hfind _ _
  | notify hfind hobserve herr hnext => exact nextRef_invoke_le hwf hfind _ _
  | finish hfind hterminal hobserve => exact nextRef_invoke_le hwf hfind _ _

/-- **Frame.** An action leaves alone every request it is not about. -/
theorem Acts.frame {action : Action κ} (hacts : Acts e action c c') (hwf : WellFormed c)
    {other : ℕ} (hlt : other < c.nextRef) (habout : action.about ≠ some other) :
    c'.find other = c.find other ∧ c'.history other = c.history other := by
  cases hacts with
  | internal connected readings => exact ⟨rfl, rfl⟩
  | submit submission =>
    have heffect := effect_submit (e := e) none hwf submission
    exact ⟨heffect.find_old other hlt (by simp), heffect.history_old other hlt (by simp)⟩
  | track ref reply blockCtx =>
    have hne : ref ≠ other := fun h => habout (congrArg some h)
    exact ⟨c.find_modify_of_ne (fun _ h => h) hne.symm, rfl⟩
  | rearm ref pending =>
    have hne : ref ≠ other := fun h => habout (congrArg some h)
    exact ⟨c.find_modify_of_ne (fun _ h => h) hne.symm, rfl⟩
  | @send _ ref req hfind =>
    have hne : ref ≠ other := fun h => habout (congrArg some h)
    exact ⟨rfl, by simp [Event.ref, hne]⟩
  | @offer _ ref req rsp hfind hobserve hterminal =>
    have hne : ref ≠ other := fun h => habout (congrArg some h)
    exact frame_invoke hwf hfind req.cb rsp hlt hne
  | @notify _ ref req rsp hfind hobserve herr hnext =>
    have hne : ref ≠ other := fun h => habout (congrArg some h)
    obtain ⟨hfind', hhistory⟩ := frame_invoke (e := e) hwf hfind req.cb rsp hlt hne
    refine ⟨Eq.trans ?_ hfind', hhistory⟩
    exact Client.find_modify_of_ne _ (fun _ h => h) hne.symm
  | @finish _ ref req rsp hfind hterminal hobserve =>
    have hne : ref ≠ other := fun h => habout (congrArg some h)
    obtain ⟨hfind', hhistory⟩ := frame_invoke (e := e) hwf hfind req.cb rsp hlt hne
    refine ⟨(find_coapReqCancelAndFree_of_ne _ hne.symm).trans hfind', ?_⟩
    rw [history_coapReqCancelAndFree, if_neg hne, List.append_nil, hhistory]

/-- The addresses an action uses up are those of its submissions. -/
theorem Acts.fresh {action : Action κ} (hacts : Acts e action c c') (hwf : WellFormed c)
    {other : ℕ} (hge : c.nextRef ≤ other) (hlt : other < c'.nextRef) : Fresh e c' other := by
  cases hacts with
  | internal connected readings => exact absurd hge (not_le.mpr hlt)
  | submit submission => exact (effect_submit none hwf submission).fresh other hge hlt
  | track ref reply blockCtx => exact absurd hge (not_le.mpr hlt)
  | rearm ref pending => exact absurd hge (not_le.mpr hlt)
  | send hfind => exact absurd hge (not_le.mpr hlt)
  | @offer _ ref req rsp hfind hobserve hterminal =>
    exact fresh_invoke hwf hfind req.cb rsp hge hlt
  | @notify _ ref req rsp hfind hobserve herr hnext =>
    have hne : ref ≠ other := by
      have := hwf.refs_lt ref (c.mem_refs_iff.mpr ⟨req, hfind⟩)
      omega
    exact (fresh_invoke hwf hfind req.cb rsp hge hlt).congr
      (Client.find_modify_of_ne _ (fun _ h => h) hne.symm) rfl
  | @finish _ ref req rsp hfind hterminal hobserve =>
    have hne : ref ≠ other := by
      have := hwf.refs_lt ref (c.mem_refs_iff.mpr ⟨req, hfind⟩)
      omega
    refine (fresh_invoke hwf hfind req.cb rsp hge hlt).congr
      (find_coapReqCancelAndFree_of_ne _ hne.symm) ?_
    rw [history_coapReqCancelAndFree, if_neg hne, List.append_nil]

end Acts

/-! ## Operations as runs -/

/-- What decisions have in common: a last response carries no `get_next` and the
error the label looks at; an offered one carries an error for observations only. -/
def Verdict.Consistent (observe : Bool) : Verdict → Prop
  | .ignore _ => True
  | .deliver _ rsp err => rsp.getNext = false ∧ rsp.err = err
  | .offer _ rsp => rsp.getNext = true ∧ rsp.err = if observe then -Errno.emsgsize else 0

theorem consistent_verdict (z : Zephyr) (req : CoapReq κ) (response : RxPacket) :
    (verdict z req response).Consistent req.isObserve := by
  unfold verdict blockVerdict
  dsimp only
  split
  · exact ⟨rfl, rfl⟩
  · split
    · split
      · exact ⟨rfl, rfl⟩
      · split
        · trivial
        · split
          · exact ⟨rfl, rfl⟩
          · exact ⟨rfl, rfl⟩
    · exact ⟨rfl, rfl⟩

section Runs

variable {e : Env κ σ} {c c' : Client κ σ} {ref : ℕ} {req : CoapReq κ}

theorem labelCancelAndFree_of_find (hfind : c.find ref = some req) (err : ℤ) :
    labelCancelAndFree ref err c =
      if req.isObserve ∧ err = 0 then c.modify ref fun req => { req with isPending := false }
      else coapReqCancelAndFree ref c := by
  rw [labelCancelAndFree, hfind]

theorem find_track (hfind : c.find ref = some req) (reply : Reply → Reply)
    (blockCtx : BlockContext → BlockContext) :
    (c.modify ref fun req =>
        { req with reply := reply req.reply, blockCtx := blockCtx req.blockCtx }).find ref =
      some { req with reply := reply req.reply, blockCtx := blockCtx req.blockCtx } := by
  refine Eq.trans (Client.find_modify_self c ?_) ?_
  · exact fun _ h => h
  · rw [hfind]
    rfl

/-- An invocation, and the label `cancel_and_free` reached with the error that
was passed on, are a notification or the end of the request. -/
theorem acts_label (hwf : WellFormed c) (hfind : c.find ref = some req) (rsp : Rsp) (err : ℤ)
    (hterminal : Terminal rsp (invoke e ref req.cb rsp c).1)
    (hnotify : req.isObserve = true → err = 0 → rsp.err = 0 ∧ rsp.getNext = false)
    (hfinish : req.isObserve = true → err ≠ 0 → rsp.err ≠ 0) :
    ∃ action : Action κ, action.Answers ref ∧
      Acts e action c (labelCancelAndFree ref err (invoke e ref req.cb rsp c).2) := by
  obtain ⟨req', hfind', hprepared⟩ := find_invoke (e := e) hwf hfind req.cb rsp
  rw [labelCancelAndFree_of_find hfind', hprepared.same.isObserve]
  split
  · next h =>
    obtain ⟨herr, hnext⟩ := hnotify h.1 h.2
    exact ⟨.notify ref rsp, .notify rsp, .notify hfind h.1 herr hnext⟩
  · next h =>
    exact ⟨.finish ref rsp, .finish rsp, .finish hfind hterminal fun hobserve =>
      hfinish hobserve fun herr => h ⟨hobserve, herr⟩⟩

theorem carryOut_run (hwf : WellFormed c) (hfind : c.find ref = some req) {v : Verdict}
    (hconsistent : v.Consistent req.isObserve) :
    CS.RunOf (Acts e) (Action.Answers ref) c (v.carryOut e req c) := by
  obtain rfl := Client.ref_of_find hfind
  cases v with
  | ignore blockCtx =>
    exact .single (.track req.ref id fun _ => blockCtx) .track
  | deliver blockCtx rsp err =>
    obtain ⟨hnext, herr⟩ := hconsistent
    have htrack : Acts e (.track req.ref) c _ := .track req.ref id fun _ => blockCtx
    obtain ⟨action, hanswers, hacts⟩ := acts_label (e := e) (htrack.wellFormed hwf)
      (find_track hfind id fun _ => blockCtx) rsp err (.inr (.inl hnext))
      (fun _ h => ⟨herr.trans h, hnext⟩) (fun _ h => herr ▸ h)
    exact .trans (.single htrack .track) (.single hacts hanswers)
  | offer blockCtx rsp =>
    obtain ⟨hnext, herr⟩ := hconsistent
    have htrack : Acts e (.track req.ref) c _ := .track req.ref id fun _ => blockCtx
    have hwf₁ := htrack.wellFormed hwf
    have hfind₁ := find_track hfind id fun _ => blockCtx
    -- an observation is never offered a next block without an error
    have herr_observe : req.isObserve = true → rsp.err ≠ 0 := by
      intro hobserve
      rw [herr, if_pos hobserve]
      decide
    -- the block context is stored first; what follows is a single action
    suffices h : ∃ action : Action κ, action.Answers req.ref ∧
        Acts e action (c.modify req.ref fun req => { req with blockCtx := blockCtx })
          (Verdict.carryOut e req (.offer blockCtx rsp) c) by
      obtain ⟨action, hanswers, hacts⟩ := h
      exact .trans (.single htrack .track) (.single hacts hanswers)
    rw [Verdict.carryOut]
    split
    · next hret =>
      exact acts_label hwf₁ hfind₁ rsp _ (.inr (.inr hret)) (fun _ h => absurd h hret)
        (fun h _ => herr_observe h)
    · next hret =>
      split
      · next hobserve =>
        refine acts_label hwf₁ hfind₁ rsp _ (.inl (herr_observe hobserve))
          (fun _ h => absurd h (by decide)) (fun h _ => herr_observe h)
      · next hobserve =>
        -- the only case in which the request goes on: another block is asked for
        refine ⟨.offer req.ref rsp, .offer rsp, ?_⟩
        have hoffer := Acts.offer (e := e) hfind₁ (Bool.eq_false_of_not_eq_true hobserve)
          (show ¬ Terminal rsp _ from ?_)
        · exact hoffer
        · rintro (h | h | h)
          · exact h (by rw [herr, if_neg hobserve])
          · exact absurd (hnext.symm.trans h) (by decide)
          · exact hret h

/-- The actions an operation consists of, given the state it starts in. -/
def Permits (e : Env κ σ) (c : Client κ σ) : Op κ → Action κ → Prop
  | .submit submission, action => action = .submit submission
  | .processRx rx, action =>
    action = .internal ∨ ∃ req, answered e rx c = some req ∧ action.about = some req.ref
  | .pollPrepare _ _, action =>
    action = .internal ∨ ∃ ref, action = .rearm ref ∨ action = .send ref ∨
      ∃ userData, action = .finish ref { userData := userData, err := -Errno.etimedout }
  | .onConnect, action => action = .internal
  | .onDisconnect, action =>
    action = .internal ∨ ∃ ref userData,
      action = .finish ref { userData := userData, err := -Errno.eshutdown }

/-- The response handler answers one request. -/
theorem processRx_run (hwf : WellFormed c) (rx : RxPacket) :
    CS.RunOf (Acts e) (fun action => action = .internal ∨ ∃ req, answered e rx c = some req ∧
      action.Answers req.ref) c (coapReqProcessRx e rx c) := by
  unfold coapReqProcessRx
  split
  · exact .refl c
  · next req hanswered =>
    have hmem : req ∈ c.coapReqs := List.mem_of_find?_eq_some hanswered
    have hfind := Client.find_of_mem hwf.nodup hmem
    have hpermits : ∀ action : Action κ, action.Answers req.ref → action = .internal ∨
        ∃ req, answered e rx c = some req ∧ action.Answers req.ref :=
      fun action hanswers => .inr ⟨req, hanswered, hanswers⟩
    dsimp only
    split
    · rw [coapReqReplyHandler_eq e hwf hfind]
      exact (carryOut_run hwf hfind (consistent_verdict _ _ _)).mono hpermits
    · have htick : Acts e .internal c c.tick := .internal c.coapReqsConnected (c.readings + 1)
      refine (CS.RunOf.single htick (.inl rfl)).trans ?_
      split
      · have htrack : Acts e (.track req.ref) c.tick _ := .track req.ref
          (fun _ => { seq := coapGetOptionInt rx .observe, ts := e.kUptimeGet c.readings }) id
        have hwf₁ := htrack.wellFormed (htick.wellFormed hwf)
        have hfind₁ := find_track (c := c.tick) hfind
          (fun _ => { seq := coapGetOptionInt rx .observe, ts := e.kUptimeGet c.readings }) id
        refine (CS.RunOf.single htrack (hpermits _ .track)).trans ?_
        have hhandler := coapReqReplyHandler_eq e hwf₁ hfind₁ rx
        exact hhandler ▸
          (carryOut_run hwf₁ hfind₁ (consistent_verdict _ _ _)).mono hpermits
      · exact .refl _

/-- The actions one visit of the poll loop consists of. -/
def PollPermits (ref : ℕ) (action : Action κ) : Prop :=
  action = .internal ∨ action = .rearm ref ∨ action = .send ref ∨
    ∃ userData, action = .finish ref { userData := userData, err := -Errno.etimedout }

private theorem pollOutcome_run (hfind : c.find ref = some req) (outcome : PollOutcome) :
    CS.RunOf (Acts e) (PollPermits ref) c (outcome.carryOut e req c).2 := by
  obtain rfl := Client.ref_of_find hfind
  have hrearm : ∀ pending readings,
      CS.RunOf (Acts e) (PollPermits req.ref) c
        { c.modify req.ref fun req => { req with pending := pending } with
          readings := readings } := fun pending readings =>
    .trans (.single (.rearm req.ref pending) (.inr (.inl rfl)))
      (.single (.internal c.coapReqsConnected readings) (.inl rfl))
  have hfind₁ : ∀ pending readings,
      Client.find { c.modify req.ref fun req => { req with pending := pending } with
        readings := readings } req.ref = some { req with pending := pending } := by
    intro pending readings
    refine Eq.trans (Client.find_modify_self c ?_) ?_
    · exact fun _ h => h
    · rw [hfind]
      rfl
  cases outcome with
  | expires pending readings =>
    have herr : Rsp.err { userData := req.userData, err := -Errno.etimedout } ≠ 0 :=
      show -Errno.etimedout ≠ 0 by decide
    have hfinish := Acts.finish (e := e) (hfind₁ pending readings) (.inl herr) fun _ => herr
    exact (hrearm pending readings).trans
      (.single hfinish (.inr (.inr (.inr ⟨req.userData, rfl⟩))))
  | waits timeout send pending readings =>
    refine (hrearm pending readings).trans ?_
    rw [PollOutcome.carryOut]
    split
    · refine .trans (.single (.internal c.coapReqsConnected (readings + 1)) (.inl rfl)) ?_
      have hsend := Acts.send (e := e) (hfind₁ pending (readings + 1))
      exact .single hsend (.inr (.inr (.inl rfl)))
    · exact .refl _

theorem pollVisit_run {now : UInt32} {s s' : ℤ × Client κ σ}
    (hvisit : pollVisit e now ref s = some s') :
    CS.RunOf (Acts e) (PollPermits ref) s.2 s'.2 := by
  unfold pollVisit at hvisit
  split at hvisit
  · cases hvisit
  · next req hfind =>
    split at hvisit
    · obtain rfl := Option.some_inj.mp hvisit
      exact .refl s.2
    · obtain ⟨polled, hpoll, rfl⟩ := Option.map_eq_some_iff.mp hvisit
      obtain ⟨outcome, -, rfl⟩ := Option.map_eq_some_iff.mp hpoll
      exact pollOutcome_run hfind outcome

private theorem cancelVisit_run {d : Client κ σ}
    (hvisit : cancelVisit e (-Errno.eshutdown) ref c = some c') :
    CS.RunOf (Acts e) (Permits e d .onDisconnect) c c' := by
  unfold cancelVisit at hvisit
  split at hvisit
  · cases hvisit
  · next req hfind =>
    obtain rfl := Option.some_inj.mp hvisit
    exact .single (.finish hfind (.inl (show -Errno.eshutdown ≠ 0 by decide))
      fun _ => show -Errno.eshutdown ≠ 0 by decide) (.inr ⟨ref, req.userData, rfl⟩)

/-- **Every operation is a run of actions.** -/
theorem perform_run (hwf : WellFormed c) {op : Op κ} (hstep : Step e op c c') :
    CS.RunOf (Acts e) (Permits e c op) c c' := by
  cases op with
  | submit submission =>
    obtain rfl := Option.some_inj.mp hstep
    exact .single (.submit submission) rfl
  | processRx rx =>
    obtain rfl := Option.some_inj.mp hstep
    exact (processRx_run hwf rx).mono fun action haction => haction.imp_right
      fun ⟨req, hanswered, hanswers⟩ => ⟨req, hanswered, hanswers.about_eq⟩
  | pollPrepare now visits =>
    obtain ⟨s, hpass, rfl⟩ := Option.map_eq_some_iff.mp hstep
    exact CS.SafeIteration.forEachSafe_rel
      (r := fun s s' : ℤ × Client κ σ =>
        CS.RunOf (Acts e) (Permits e c (.pollPrepare now visits)) s.2 s'.2)
      (fun s => .refl s.2) (fun h h' => h.trans h')
      (fun ref _ _ h => (pollVisit_run h).mono fun action haction =>
        haction.imp_right fun haction => ⟨ref, haction⟩) hpass
  | onConnect =>
    obtain rfl := Option.some_inj.mp hstep
    exact .single (.internal true c.readings) rfl
  | onDisconnect =>
    refine .trans (.single (.internal false c.readings) (.inl rfl)) ?_
    exact CS.SafeIteration.forEachSafe_rel
      (r := CS.RunOf (Acts e) (Permits e c .onDisconnect))
      .refl (fun h h' => h.trans h') (fun _ _ _ h => cancelVisit_run h) hstep

/-- A run of actions keeps the list a list and uses up addresses. -/
theorem wellFormed_of_run {p : Action κ → Prop} (hrun : CS.RunOf (Acts e) p c c')
    (hwf : WellFormed c) : WellFormed c' ∧ c.nextRef ≤ c'.nextRef :=
  hrun.invariant (fun d => WellFormed d ∧ c.nextRef ≤ d.nextRef)
    (fun _ _ _ _ hinv hacts =>
      ⟨hacts.wellFormed hinv.1, hinv.2.trans (hacts.nextRef_le hinv.1)⟩)
    ⟨hwf, le_rfl⟩

/-- **Frame.** A run of actions leaves alone every request none of them is about. -/
theorem frame_of_run {p : Action κ → Prop} (hrun : CS.RunOf (Acts e) p c c')
    (hwf : WellFormed c) {other : ℕ} (hlt : other < c.nextRef)
    (habout : ∀ action, p action → action.about ≠ some other) :
    c'.find other = c.find other ∧ c'.history other = c.history other := by
  have h := hrun.invariant
    (fun d => WellFormed d ∧ other < d.nextRef ∧
      d.find other = c.find other ∧ d.history other = c.history other)
    (fun action s t haction hinv hacts => ?_) ⟨hwf, hlt, rfl, rfl⟩
  · exact h.2.2
  · obtain ⟨hwf, hlt, hfind, hhistory⟩ := hinv
    obtain ⟨hfind', hhistory'⟩ := hacts.frame hwf hlt (habout action haction)
    exact ⟨hacts.wellFormed hwf, hlt.trans_le (hacts.nextRef_le hwf), hfind'.trans hfind,
      hhistory'.trans hhistory⟩

end Runs

/-! ## Reachable states -/

section Invariants

variable {e : Env κ σ} {c c' : Client κ σ}

theorem wellFormed_init (app : σ) : WellFormed (Client.init app : Client κ σ) :=
  ⟨List.nodup_nil, by simp [Client.refs, Client.init], by simp [Client.init]⟩

/-- **Step.** An operation keeps the list a list. -/
theorem wellFormed_step {op : Op κ} (hwf : WellFormed c) (hstep : Step e op c c') :
    WellFormed c' :=
  (perform_run hwf hstep).invariant WellFormed
    (fun _ _ _ _ hwf hacts => hacts.wellFormed hwf) hwf

theorem wellFormed_of_reachable {app : σ} (hreach : Reachable e app c) : WellFormed c :=
  hreach.invariant WellFormed (wellFormed_init app) fun _ _ _ hwf hstep =>
    wellFormed_step hwf hstep

end Invariants

end Golioth.Requests
