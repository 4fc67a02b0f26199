/-
# Following one request through a run

Much of what is to be said about a request depends on two things only: the
request as it is listed, if it is, and the events about it so far. This file gives
the rule for properties of these two. What other requests do leaves both as they
are; what the timer and the connection do to the request is the same for every
property; so that what remains to be shown of a property is that it survives the
responses to the request.
-/
import Golioth.Requests.Matching

namespace Golioth.Requests

open Golioth.Coap

variable {κ σ : Type} {e : Env κ σ} {c c' : Client κ σ} {ref : ℕ} {req : CoapReq κ}
  {rx : RxPacket} {p : Option (CoapReq κ) → List Event → Prop}

/-- A request that has been submitted, and its events, have a property. -/
structure Follows (p : Option (CoapReq κ) → List Event → Prop) (ref : ℕ) (c : Client κ σ) :
    Prop where
  wellFormed : WellFormed c
  ref_lt : ref < c.nextRef
  holds : p (c.find ref) (c.history ref)

/-- A property keeps when the timer of the request is set, a notification is
noted, a packet is sent, or the request ends with an error. -/
structure Keeps (p : Option (CoapReq κ) → List Event → Prop) (ref : ℕ) : Prop where
  rearm : ∀ req events pending, p (some req) events →
    p (some { req with pending := pending }) events
  note : ∀ req events reply, p (some req) events → p (some { req with reply := reply }) events
  send : ∀ req events, p (some req) events →
    p (some req) (events ++ [.sent ref req.request.data])
  close : ∀ req events rsp ret, rsp.err ≠ 0 → rsp.getNext = false → p (some req) events →
    p none (events ++ [.called ref rsp, .returned ref rsp ret, .freed ref])

/-- Two properties that keep do so together. -/
theorem Keeps.and {q : Option (CoapReq κ) → List Event → Prop} (hp : Keeps p ref)
    (hq : Keeps q ref) : Keeps (fun listed events => p listed events ∧ q listed events) ref where
  rearm req events pending h := h.imp (hp.rearm req events pending) (hq.rearm req events pending)
  note req events reply h := h.imp (hp.note req events reply) (hq.note req events reply)
  send req events h := h.imp (hp.send req events) (hq.send req events)
  close req events rsp ret herr hnext h :=
    h.imp (hp.close req events rsp ret herr hnext) (hq.close req events rsp ret herr hnext)

/-- What is left as it was has the property still. -/
theorem Follows.congr (h : Follows p ref c) (hwf : WellFormed c')
    (hle : c.nextRef ≤ c'.nextRef) (hfind : c'.find ref = c.find ref)
    (hhistory : c'.history ref = c.history ref) : Follows p ref c' :=
  ⟨hwf, h.ref_lt.trans_le hle, by rw [hfind, hhistory]; exact h.holds⟩

private theorem follows_rearm (hkeeps : Keeps p ref) (h : Follows p ref c) (pending : Pending) :
    p ((c.modify ref fun req => { req with pending := pending }).find ref) (c.history ref) := by
  have hfind : (c.modify ref fun req => { req with pending := pending }).find ref = _ :=
    Client.find_modify_self c fun _ h => h
  rw [hfind]
  have hholds := h.holds
  cases hreq : c.find ref with
  | none => rwa [hreq] at hholds
  | some req =>
    rw [hreq] at hholds
    exact hkeeps.rearm req _ pending hholds

/-- **Step.** What is not about the request, and what the timer and the
connection do to it, keeps the property. -/
private theorem Follows.acts (hkeeps : Keeps p ref) (h : Follows p ref c) {action : Action κ}
    (haction : action.about = some ref → action = .rearm ref ∨ action = .send ref ∨
      ∃ userData err, err ≠ 0 ∧ action = .finish ref { userData := userData, err := err })
    (hacts : Acts e action c c') : Follows p ref c' := by
  have hwf := hacts.wellFormed h.wellFormed
  have hle := hacts.nextRef_le h.wellFormed
  by_cases habout : action.about = some ref
  · refine ⟨hwf, h.ref_lt.trans_le hle, ?_⟩
    have hholds := h.holds
    rcases haction habout with rfl | rfl | ⟨userData, err, herr, rfl⟩
    · cases hacts with
      | rearm _ pending => exact follows_rearm hkeeps h pending
    · cases hacts with
      | @send _ _ req hfind =>
        rw [hfind] at hholds
        rw [Client.find_emit, hfind, Client.history_emit]
        have hself : (Event.sent ref req.request.data).ref = ref := rfl
        rw [if_pos hself]
        exact hkeeps.send req _ hholds
    · cases hacts with
      | @finish _ _ req _ hfind hterminal hobserve =>
        obtain ⟨events, hhistory, hquiet, -⟩ := history_invoke (e := e) h.wellFormed hfind req.cb
          { userData := userData, err := err }
        rw [hquiet (.inr rfl), List.nil_append] at hhistory
        rw [find_coapReqCancelAndFree_self, history_coapReqCancelAndFree, if_pos rfl, hhistory,
          List.append_assoc]
        rw [hfind] at hholds
        exact hkeeps.close req _ _ _ herr rfl hholds
  · obtain ⟨hfind, hhistory⟩ := hacts.frame h.wellFormed h.ref_lt habout
    exact h.congr hwf hle hfind hhistory

/-- A packet that is not dropped as out of order is decided on, after the number and the
time of a notification have been noted. -/
theorem processRx_of_inOrder (hwf : WellFormed c) (hanswered : answered e rx c = some req)
    (hinOrder : ¬ OutOfOrder e rx c req) :
    ∃ c₁ reply, WellFormed c₁ ∧ c₁.find req.ref = some { req with reply := reply } ∧
      c₁.log = c.log ∧ c₁.nextRef = c.nextRef ∧
      coapReqProcessRx e rx c =
        (verdict e.zephyr req rx).carryOut e { req with reply := reply } c₁ := by
  by_cases hobserve : coapGetOptionInt rx .observe = -Errno.enoent
  · exact ⟨c, req.reply, hwf, find_answered hwf hanswered, rfl, rfl,
      processRx_of_response hwf hanswered hobserve⟩
  · cases hnewer : coapReplyIsNewer req.reply (coapGetOptionInt rx .observe)
      (e.kUptimeGet c.readings) with
    | false => exact absurd ⟨hobserve, hnewer⟩ hinOrder
    | true =>
      obtain ⟨c₁, req₁, hwf₁, hfind₁, hlog₁, hnext₁, rfl, hrun⟩ :=
        processRx_of_newer hwf hanswered hobserve hnewer
      exact ⟨c₁, _, hwf₁, hfind₁, hlog₁, hnext₁, hrun⟩

/-- A packet is dropped as out of order, or its request is dealt with, after the
number and the time of a notification have been noted. -/
theorem processRx_cases (hwf : WellFormed c) (hanswered : answered e rx c = some req) :
    coapReqProcessRx e rx c = c.tick ∨
      ∃ c₁ reply, WellFormed c₁ ∧ c₁.find req.ref = some { req with reply := reply } ∧
        c₁.log = c.log ∧ c₁.nextRef = c.nextRef ∧
        coapReqProcessRx e rx c =
          (verdict e.zephyr req rx).carryOut e { req with reply := reply } c₁ := by
  by_cases hstale : OutOfOrder e rx c req
  · exact .inl (processRx_of_outOfOrder hanswered hstale)
  · exact .inr (processRx_of_inOrder hwf hanswered hstale)

/-- A property survives a response to the request: it does if the decision on the
response, carried out for the request as it is or with a notification noted,
leaves it. -/
def Survives (e : Env κ σ) (p : Option (CoapReq κ) → List Event → Prop) (ref : ℕ)
    (req : CoapReq κ) (events : List Event) (v : Verdict) : Prop :=
  ∀ (c₁ : Client κ σ) (reply : Reply), WellFormed c₁ →
    c₁.find ref = some { req with reply := reply } → c₁.history ref = events →
    p (some { req with reply := reply }) events →
      p ((v.carryOut e { req with reply := reply } c₁).find ref)
        ((v.carryOut e { req with reply := reply } c₁).history ref)

private theorem Follows.processRx (hkeeps : Keeps p ref) (h : Follows p ref c)
    (hanswered : answered e rx c = some req) (href : req.ref = ref)
    (hsurvives : Survives e p ref req (c.history ref) (verdict e.zephyr req rx)) :
    Follows p ref (coapReqProcessRx e rx c) := by
  subst href
  have hholds := h.holds
  rw [find_answered h.wellFormed hanswered] at hholds
  rcases processRx_cases h.wellFormed hanswered with htick | ⟨c₁, reply, hwf₁, hfind₁, hlog₁,
    hnext₁, hrun⟩
  · rw [htick]
    exact h.congr ⟨h.wellFormed.nodup, h.wellFormed.refs_lt, h.wellFormed.log_lt⟩ le_rfl rfl rfl
  · have hhistory₁ : c₁.history req.ref = c.history req.ref := by
      rw [Client.history, hlog₁, Client.history]
    have hcarried := carryOut_run (e := e) hwf₁ hfind₁ (consistent_verdict e.zephyr req rx)
    obtain ⟨hwf', hle⟩ := wellFormed_of_run hcarried hwf₁
    rw [hrun]
    exact ⟨hwf', (hnext₁ ▸ h.ref_lt).trans_le hle,
      hsurvives c₁ reply hwf₁ hfind₁ hhistory₁ (hkeeps.note req _ reply hholds)⟩

/-- **Rule.** An operation keeps a property of a request if the property survives
the response the operation may be. -/
theorem Follows.step (hkeeps : Keeps p ref) (h : Follows p ref c) {op : Op κ}
    (hsurvives : ∀ rx req, op = .processRx rx → answered e rx c = some req → req.ref = ref →
      Survives e p ref req (c.history ref) (verdict e.zephyr req rx))
    (hstep : Step e op c c') : Follows p ref c' := by
  have hrun : (∀ action, Permits e c op action → action.about = some ref →
      action = .rearm ref ∨ action = .send ref ∨
        ∃ userData err, err ≠ 0 ∧ action = .finish ref { userData := userData, err := err }) →
      Follows p ref c' := fun hpermits =>
    (perform_run h.wellFormed hstep).invariant (Follows p ref)
      (fun action _ _ haction h hacts => h.acts hkeeps (hpermits action haction) hacts) h
  cases op with
  | submit submission =>
    refine hrun ?_
    rintro action rfl habout
    cases habout
  | processRx rx =>
    by_cases hanswered : ∃ req, answered e rx c = some req ∧ req.ref = ref
    · obtain ⟨req, hanswered, href⟩ := hanswered
      obtain rfl := Option.some_inj.mp hstep
      exact h.processRx hkeeps hanswered href (hsurvives rx req rfl hanswered href)
    · refine hrun ?_
      rintro action (rfl | ⟨req, hanswered', habout'⟩) habout
      · cases habout
      · rw [habout', Option.some_inj] at habout
        exact absurd ⟨req, hanswered', habout⟩ hanswered
  | pollPrepare now visits =>
    refine hrun ?_
    rintro action (rfl | ⟨ref', rfl | rfl | ⟨userData, rfl⟩⟩) habout
    · cases habout
    · obtain rfl := Option.some_inj.mp habout
      exact .inl rfl
    · obtain rfl := Option.some_inj.mp habout
      exact .inr (.inl rfl)
    · obtain rfl := Option.some_inj.mp habout
      exact .inr (.inr ⟨userData, _, by decide, rfl⟩)
  | onConnect =>
    refine hrun ?_
    rintro action rfl habout
    cases habout
  | onDisconnect =>
    refine hrun ?_
    rintro action (rfl | ⟨ref', userData, rfl⟩) habout
    · cases habout
    · obtain rfl := Option.some_inj.mp habout
      exact .inr (.inr ⟨userData, _, by decide, rfl⟩)

private theorem Acts.history_prefix (hwf : WellFormed c) (hlt : ref < c.nextRef)
    {action : Action κ} (hacts : Acts e action c c') : c.history ref <+: c'.history ref := by
  by_cases habout : action.about = some ref
  · cases hacts with
    | internal connected readings => cases habout
    | submit submission => cases habout
    | track ref' reply blockCtx => exact List.prefix_rfl
    | rearm ref' pending => exact List.prefix_rfl
    | send hfind =>
      rw [Client.history_emit]
      exact List.prefix_append _ _
    | @offer _ ref' req rsp hfind hobserve hterminal =>
      obtain rfl := Option.some_inj.mp habout
      obtain ⟨events, hhistory, -⟩ := history_invoke (e := e) hwf hfind req.cb rsp
      exact hhistory ▸ List.prefix_append _ _
    | @notify _ ref' req rsp hfind hobserve herr hnext =>
      obtain rfl := Option.some_inj.mp habout
      obtain ⟨events, hhistory, -⟩ := history_invoke (e := e) hwf hfind req.cb rsp
      exact hhistory ▸ List.prefix_append _ _
    | @finish _ ref' req rsp hfind hterminal hobserve =>
      obtain rfl := Option.some_inj.mp habout
      obtain ⟨events, hhistory, -⟩ := history_invoke (e := e) hwf hfind req.cb rsp
      rw [history_coapReqCancelAndFree, hhistory, List.append_assoc]
      exact List.prefix_append _ _
  · exact (hacts.frame hwf hlt habout).2 ▸ List.prefix_rfl

/-- What has happened to a request remains so. -/
theorem history_prefix (hwf : WellFormed c) (hlt : ref < c.nextRef)
    (hrun : CS.Reachable (Step e) c c') :
    WellFormed c' ∧ ref < c'.nextRef ∧ c.history ref <+: c'.history ref :=
  hrun.invariant (fun d => WellFormed d ∧ ref < d.nextRef ∧ c.history ref <+: d.history ref)
    ⟨hwf, hlt, List.prefix_rfl⟩ fun _ _ _ hinv hstep =>
      (perform_run hinv.1 hstep).invariant
        (fun d => WellFormed d ∧ ref < d.nextRef ∧ c.history ref <+: d.history ref)
        (fun _ _ _ _ hinv hacts => ⟨hacts.wellFormed hinv.1,
          hinv.2.1.trans_le (hacts.nextRef_le hinv.1),
          hinv.2.2.trans (Acts.history_prefix hinv.1 hinv.2.1 hacts)⟩) hinv

/-- Nothing happens to a request that is not listed. -/
theorem unchanged_of_unlisted (hwf : WellFormed c) (hlt : ref < c.nextRef)
    (hnone : c.find ref = none) (hrun : CS.Reachable (Step e) c c') :
    c'.find ref = none ∧ c'.history ref = c.history ref := by
  have hkeeps : Keeps (fun (listed : Option (CoapReq κ)) events =>
      listed = none ∧ events = c.history ref) ref :=
    { rearm := fun _ _ _ h => (nomatch h.1), note := fun _ _ _ h => (nomatch h.1)
      send := fun _ _ h => (nomatch h.1), close := fun _ _ _ _ _ _ h => (nomatch h.1) }
  have hfollows := hrun.invariant (Follows (fun listed events =>
    listed = none ∧ events = c.history ref) ref) ⟨hwf, hlt, hnone, rfl⟩
    fun op d d' h hstep => h.step hkeeps (fun rx req _ hanswered href => ?_) hstep
  · exact hfollows.holds
  · have hfind := find_answered h.wellFormed hanswered
    rw [href, h.holds.1] at hfind
    cases hfind

/-- A submission has been accepted, by a call of the client or of a callback, and
nothing has happened to its request yet. -/
structure Scheduled (e : Env κ σ) (submission : Submission κ) (ref : ℕ) (c : Client κ σ) :
    Prop where
  listed : ∃ req, Built e submission ref req ∧ c.find ref = some req
  history : c.history ref = [.scheduled ref submission.observe 0]

/-- A submission that was turned away leaves no request. -/
theorem find_of_rejected (hwf : WellFormed c) {submission : Submission κ}
    (hrejected : (submit e submission c).1 ≠ 0) :
    (submit e submission c).2.find c.nextRef = none := by
  have hsubmitted := submitted e submission c
  generalize submit e submission c = result at hsubmitted hrejected
  cases hsubmitted with
  | rejected events herr hevents hlog => exact hwf.find_eq_none le_rfl
  | listed hconnected hbuilt => exact absurd rfl hrejected

theorem nextRef_lt_submit (submission : Submission κ) (c : Client κ σ) :
    c.nextRef < (submit e submission c).2.nextRef := by
  have hsubmitted := submitted e submission c
  generalize submit e submission c = result at hsubmitted
  cases hsubmitted <;> exact Nat.lt_succ_self _

theorem scheduled_of_submit (hwf : WellFormed c) {submission : Submission κ}
    (hok : (submit e submission c).1 = 0) :
    Scheduled e submission c.nextRef (submit e submission c).2 := by
  generalize hresult : submit e submission c = result at hok
  have hsubmitted := submitted e submission c
  rw [hresult] at hsubmitted
  cases hsubmitted with
  | rejected events herr hevents hlog => exact absurd hok herr
  | @listed req readings hconnected hbuilt =>
    have hnone := hwf.find_eq_none le_rfl
    refine ⟨⟨req, hbuilt, ?_⟩, ?_⟩
    · rw [Client.find] at hnone ⊢
      rw [List.find?_append, hnone, Option.none_or]
      simp [hbuilt.ref_eq]
    · have hhistory := Client.history_emit c (.scheduled c.nextRef submission.observe 0) c.nextRef
      have hself : (Event.scheduled c.nextRef submission.observe 0).ref = c.nextRef := rfl
      rw [hwf.history_eq_nil le_rfl, if_pos hself] at hhistory
      exact hhistory

end Golioth.Requests
