/-
# Notifications and stale block state

A request has one block context, and an observation receives all its
notifications through it. This file follows an observation through a stream of
notifications that are complete in one packet each. They all reach the callback
as long as those with a Block2 option find the block context as it was when the
request was made; the first of them with any payload leaves an offset behind that
makes the handler take the next for a block it has had.
-/
import Golioth.Requests.Following

namespace Golioth.Requests

open Golioth.Coap

variable {κ σ : Type} {e : Env κ σ} {c c' d : Client κ σ} {ref : ℕ} {req : CoapReq κ}
  {rx : RxPacket}

/-! ## Streams of notifications -/

/-- A successful notification for an observation, newer than the last accepted
one and complete in one packet. -/
structure Notification (e : Env κ σ) (c : Client κ σ) (req : CoapReq κ) (rx : RxPacket) :
    Prop where
  success : coapCodeToPosix rx.code = 0
  observe : coapGetOptionInt rx .observe ≠ -Errno.enoent
  newer : coapReplyIsNewer req.reply (coapGetOptionInt rx .observe)
    (e.kUptimeGet c.readings) = true
  complete : coapGetOptionInt rx .block2 = -Errno.enoent ∨
    (0 ≤ coapGetOptionInt rx .block2 ∧ blockNum (coapGetOptionInt rx .block2) = 0 ∧
      blockMore (coapGetOptionInt rx .block2) = false)

/-- What happens besides the notifications of an observation. It is not given up
on, and the client stays connected. -/
def Besides (e : Env κ σ) (ref : ℕ) : Op κ → Client κ σ → Client κ σ → Prop
  | .submit _, _, _ => True
  | .processRx rx, c, _ => ∀ req, answered e rx c = some req → req.ref ≠ ref
  | .pollPrepare _ _, _, c' => ref ∈ c'.refs
  | .onConnect, _, _ => True
  | .onDisconnect, _, _ => False

/-- A notification of an observation, or something else. -/
inductive StreamLabel (κ : Type)
  | notify (rx : RxPacket)
  | besides (op : Op κ)

/-- The steps of a client that observes a resource. -/
def StreamStep (e : Env κ σ) (ref : ℕ) : StreamLabel κ → Client κ σ → Client κ σ → Prop
  | .notify rx, c, c' => (∃ req, answered e rx c = some req ∧ req.ref = ref ∧
      Notification e c req rx) ∧ Step e (.processRx rx) c c'
  | .besides op, c, c' => Besides e ref op c c' ∧ Step e op c c'

/-- The notifications among the labels of a run. -/
def notifications : List (StreamLabel κ) → List RxPacket
  | [] => []
  | .notify rx :: labels => rx :: notifications labels
  | .besides _ :: labels => notifications labels

/-- A notification handed over: no error, offset zero, the whole payload. -/
def HandedOver (rx : RxPacket) (rsp : Rsp) : Prop :=
  rsp.err = 0 ∧ rsp.off = 0 ∧ rsp.data = rx.payload

/-- The callback of an observation has been invoked once for each notification of
a stream, and the observation is still registered. -/
structure Notified (ref : ℕ) (stream : List RxPacket) (c c' : Client κ σ) : Prop where
  registered : ∃ req, c'.find ref = some req ∧ req.isObserve = true
  invoked : ∃ rsps, invocations (c'.history ref) = invocations (c.history ref) ++ rsps ∧
    List.Forall₂ HandedOver stream rsps

theorem Notified.trans {stream stream' : List RxPacket} (h : Notified ref stream c d)
    (h' : Notified ref stream' d c') : Notified ref (stream ++ stream') c c' where
  registered := h'.registered
  invoked := by
    obtain ⟨rsps, hrsps, hover⟩ := h.invoked
    obtain ⟨rsps', hrsps', hover'⟩ := h'.invoked
    exact ⟨rsps ++ rsps', by rw [hrsps', hrsps, List.append_assoc],
      List.rel_append hover hover'⟩

/-! ## One notification -/

/-- A notification has no Block2 option, or finds the offset of the block context
at zero, is accepted by `coap_update_from_block`, and does not end past the
announced total. -/
def FindsContextFresh (e : Env κ σ) (rx : RxPacket) (req : CoapReq κ) : Prop :=
  coapGetOptionInt rx .block2 ≠ -Errno.enoent →
    req.blockCtx.current = 0 ∧ (e.zephyr.coapUpdateFromBlock rx req.blockCtx).1 = 0 ∧
      ¬ Zephyr.Overruns rx (e.zephyr.coapUpdateFromBlock rx req.blockCtx).2

private theorem verdict_of_fresh (hnext : e.zephyr.NextBlockContract)
    (hfirst : e.zephyr.FirstBlockContract) (hrx : Notification e c req rx)
    (hfresh : FindsContextFresh e rx req) :
    ∃ blockCtx rsp, verdict e.zephyr req rx = .deliver blockCtx rsp 0 ∧
      rsp.getNext = false ∧ HandedOver rx rsp := by
  rw [verdict, hrx.success, if_neg (by decide)]
  split
  · next hblock2 =>
    obtain ⟨hcurrent, hupdate, hfits⟩ := hfresh hblock2
    obtain ⟨hnonneg, hnum, hmore⟩ := hrx.complete.resolve_left hblock2
    have hoff := hfirst rx req.blockCtx (responseCode_of_success hrx.success) hnonneg hnum hupdate
    have hlast := hnext.last rx _ hnonneg hfits hmore
    rw [blockVerdict]
    simp only [hupdate, hcurrent, hlast, ne_eq, not_true_eq_false, Nat.not_lt_zero, if_false,
      sizeOfInt_zero, if_true]
    exact ⟨_, _, rfl, rfl, rfl, hoff, rfl⟩
  · exact ⟨_, _, rfl, rfl, rfl, rfl, rfl⟩

/-- The block context says all there is to the decision on a notification. -/
private theorem fresh_of_verdict (hnext : e.zephyr.NextBlockContract)
    (hfirst : e.zephyr.FirstBlockContract)
    (hint : ∀ context, -2 ^ 31 ≤ (e.zephyr.coapNextBlockForOption rx context .block2).1)
    (hobserve : req.isObserve = true) (hrx : Notification e c req rx) {rsp : Rsp}
    (hrsp : (verdict e.zephyr req rx).rsp = some rsp) (herr : rsp.err = 0) :
    FindsContextFresh e rx req := by
  intro hblock2
  obtain ⟨hnonneg, hnum, hmore⟩ := hrx.complete.resolve_left hblock2
  rw [verdict, hrx.success, if_neg (by decide), if_pos hblock2, blockVerdict] at hrsp
  by_cases hupdate : (e.zephyr.coapUpdateFromBlock rx req.blockCtx).1 = 0
  · have hoff := hfirst rx req.blockCtx (responseCode_of_success hrx.success) hnonneg hnum hupdate
    simp only [hupdate, hoff, ne_eq, not_true_eq_false, if_false] at hrsp
    by_cases hcurrent : req.blockCtx.current = 0
    · refine ⟨hcurrent, hupdate, fun hoverruns => ?_⟩
      have hnegative := (hnext.overrun rx _ hnonneg hoverruns).1
      have hoffset := sizeOfInt_ne_zero hnegative.ne (hint _) (by omega)
      simp only [hcurrent, Nat.not_lt_zero, if_false, hoffset, hobserve, if_true] at hrsp
      obtain rfl := Option.some_inj.mp hrsp
      exact absurd (show -Errno.emsgsize = 0 from herr) (by decide)
    · rw [if_pos (Nat.pos_of_ne_zero hcurrent)] at hrsp
      cases hrsp
  · rw [if_pos hupdate] at hrsp
    obtain rfl := Option.some_inj.mp hrsp
    exact absurd (show -Errno.ebadmsg = 0 from herr) (by decide)

/-- **Step.** A notification that finds the block context fresh is handed over,
and the observation stays. -/
theorem notified_of_fresh (hnext : e.zephyr.NextBlockContract)
    (hfirst : e.zephyr.FirstBlockContract) (hwf : WellFormed c)
    (hanswered : answered e rx c = some req) (hobserve : req.isObserve = true)
    (hrx : Notification e c req rx) (hfresh : FindsContextFresh e rx req) :
    Notified req.ref [rx] c (coapReqProcessRx e rx c) := by
  obtain ⟨c₁, req₁, hwf₁, hfind₁, hlog₁, -, hreq₁, hrun⟩ :=
    processRx_of_newer hwf hanswered hrx.observe hrx.newer
  obtain ⟨blockCtx, rsp, hverdict, hlast, hover⟩ := verdict_of_fresh hnext hfirst hrx hfresh
  have hsame : verdict e.zephyr req₁ rx = verdict e.zephyr req rx := by rw [hreq₁]; rfl
  obtain ⟨ret, hhistory, hfind⟩ := carryOut_deliver (e := e) hwf₁ hfind₁ blockCtx 0 hlast
  have hstays : req₁.isObserve = true ∧ (0 : ℤ) = 0 := ⟨by rw [hreq₁]; exact hobserve, rfl⟩
  rw [if_pos hstays] at hhistory hfind
  rw [hrun, hsame, hverdict]
  refine ⟨⟨_, hfind, hstays.1⟩, [rsp], ?_, .cons hover .nil⟩
  have hhistory₁ : c₁.history req.ref = c.history req.ref := by
    rw [Client.history, hlog₁, Client.history]
  rw [hhistory, hhistory₁, invocations_append]
  rfl

/-- **Step, the other way.** A notification that is handed over found the block
context fresh. -/
theorem fresh_of_notified (hnext : e.zephyr.NextBlockContract)
    (hfirst : e.zephyr.FirstBlockContract)
    (hint : ∀ context, -2 ^ 31 ≤ (e.zephyr.coapNextBlockForOption rx context .block2).1)
    (hwf : WellFormed c) (hanswered : answered e rx c = some req)
    (hobserve : req.isObserve = true) (hrx : Notification e c req rx)
    (hnotified : Notified req.ref [rx] c (coapReqProcessRx e rx c)) :
    FindsContextFresh e rx req := by
  obtain ⟨c₁, req₁, hwf₁, hfind₁, hlog₁, -, hreq₁, hrun⟩ :=
    processRx_of_newer hwf hanswered hrx.observe hrx.newer
  have hsame : verdict e.zephyr req₁ rx = verdict e.zephyr req rx := by rw [hreq₁]; rfl
  obtain ⟨events, hevents, hhead⟩ := head_carryOut (e := e) hwf₁ hfind₁
    (verdict e.zephyr req₁ rx) (consistent_verdict _ _ _)
  have hhistory₁ : c₁.history req.ref = c.history req.ref := by
    rw [Client.history, hlog₁, Client.history]
  obtain ⟨rsps, hrsps, hover⟩ := hnotified.invoked
  rw [hrun, hevents, hhistory₁, invocations_append, List.append_cancel_left_eq] at hrsps
  rw [hsame] at hhead
  cases hover with
  | @cons _ rsp _ _ hhanded _ =>
    cases events with
    | nil => cases hrsps
    | cons event events =>
      obtain ⟨rsp', hrsp', rfl⟩ := Option.map_eq_some_iff.mp hhead.symm
      rw [invocations, List.cons.injEq] at hrsps
      obtain ⟨rfl, -⟩ := hrsps
      exact fresh_of_verdict hnext hfirst hint hobserve hrx hrsp' hhanded.1

/-! ## Streams -/

/-- During a poll an observation is removed, or stays and its callback is not
invoked. -/
private def Undisturbed (before : List Event) (listed : Option (CoapReq κ))
    (events : List Event) : Prop :=
  ∀ req, listed = some req → req.isObserve = true ∧ invocations events = invocations before

private theorem keeps_undisturbed (before : List Event) :
    Keeps (Undisturbed (κ := κ) before) ref where
  rearm req events pending h req' hreq' := by
    obtain rfl := Option.some_inj.mp hreq'
    exact h req rfl
  note req events reply h req' hreq' := by
    obtain rfl := Option.some_inj.mp hreq'
    exact h req rfl
  send req events h req' hreq' := by
    obtain rfl := Option.some_inj.mp hreq'
    rw [invocations_append]
    exact ⟨(h req rfl).1, (List.append_nil _).trans (h req rfl).2⟩
  close req events rsp ret _ _ _ := nofun

private theorem notified_of_same (hfind : c'.find ref = some req)
    (hobserve : req.isObserve = true)
    (hsame : invocations (c'.history ref) = invocations (c.history ref)) :
    Notified ref [] c c' :=
  ⟨⟨req, hfind, hobserve⟩, [], hsame.trans (List.append_nil _).symm, .nil⟩

/-- **Step.** What happens besides leaves an observation as it is. -/
theorem notified_besides (hwf : WellFormed c) (hfind : c.find ref = some req)
    (hobserve : req.isObserve = true) {op : Op κ} (hbesides : Besides e ref op c c')
    (hstep : Step e op c c') : Notified ref [] c c' := by
  have hlt := hwf.refs_lt ref (c.mem_refs_iff.mpr ⟨req, hfind⟩)
  have hrun := perform_run hwf hstep
  have hframed : (∀ action, Permits e c op action → action.about ≠ some ref) →
      Notified ref [] c c' := by
    intro habout
    obtain ⟨hfind', hhistory⟩ := frame_of_run hrun hwf hlt habout
    exact notified_of_same (hfind'.trans hfind) hobserve (congrArg invocations hhistory)
  cases op with
  | submit submission =>
    refine hframed ?_
    rintro action rfl
    exact nofun
  | processRx rx =>
    refine hframed ?_
    rintro action (rfl | ⟨req', hanswered, habout⟩)
    · exact nofun
    · rw [habout, Ne, Option.some_inj]
      exact hbesides req' hanswered
  | pollPrepare now visits =>
    have hundisturbed : Follows (Undisturbed (c.history ref)) ref c := by
      refine ⟨hwf, hlt, fun req' hreq' => ?_⟩
      obtain rfl := Option.some_inj.mp (hfind.symm.trans hreq')
      exact ⟨hobserve, rfl⟩
    have hkept := hundisturbed.step (keeps_undisturbed _) (fun _ _ hop => by cases hop) hstep
    obtain ⟨req', hfind'⟩ := c'.mem_refs_iff.mp hbesides
    obtain ⟨hobserve', hsame⟩ := hkept.holds req' hfind'
    exact notified_of_same hfind' hobserve' hsame
  | onConnect =>
    refine hframed ?_
    rintro action rfl
    exact nofun
  | onDisconnect => exact hbesides.elim

/-- The notifications of a run find the block context fresh. -/
def Fitting (e : Env κ σ) (ref : ℕ) : StreamLabel κ → Client κ σ → Prop
  | .notify rx, c => ∀ req, c.find ref = some req → FindsContextFresh e rx req
  | .besides _, _ => True

private theorem notified_of_step (hnext : e.zephyr.NextBlockContract)
    (hfirst : e.zephyr.FirstBlockContract) (hwf : WellFormed c) (hfind : c.find ref = some req)
    (hobserve : req.isObserve = true) {label : StreamLabel κ}
    (hstep : CS.Guarded (Fitting e ref) (StreamStep e ref) label c c') :
    Notified ref (notifications [label]) c c' ∧ WellFormed c' := by
  obtain ⟨hfitting, hstep⟩ := hstep
  cases label with
  | notify rx =>
    obtain ⟨⟨req', hanswered, rfl, hrx⟩, hstep⟩ := hstep
    have hfind' := find_answered hwf hanswered
    obtain rfl := Option.some_inj.mp (hfind.symm.trans hfind')
    refine ⟨?_, wellFormed_step hwf hstep⟩
    obtain rfl := Option.some_inj.mp hstep
    exact notified_of_fresh hnext hfirst hwf hanswered hobserve hrx (hfitting _ hfind)
  | besides op =>
    exact ⟨notified_besides hwf hfind hobserve hstep.1 hstep.2, wellFormed_step hwf hstep.2⟩

private theorem notifications_cons (label : StreamLabel κ) (labels : List (StreamLabel κ)) :
    notifications (label :: labels) = notifications [label] ++ notifications labels := by
  cases label <;> rfl

/-- **No notification is lost** as long as each finds the block context fresh. In
every state the stream leads to, the callback has been invoked once for each
notification, without an error, at offset zero and with the whole payload, and
the observation is registered. -/
theorem notified_of_fitting (hnext : e.zephyr.NextBlockContract)
    (hfirst : e.zephyr.FirstBlockContract) {app : σ} (hreach : Reachable e app c)
    (hfind : c.find ref = some req) (hobserve : req.isObserve = true)
    {labels : List (StreamLabel κ)}
    (hrun : CS.Run (CS.Guarded (Fitting e ref) (StreamStep e ref)) labels c c') :
    Notified ref (notifications labels) c c' := by
  have hwf := wellFormed_of_reachable hreach
  clear hreach
  induction hrun generalizing req with
  | nil c => exact notified_of_same hfind hobserve rfl
  | @cons label labels c d c' hstep _ ih =>
    obtain ⟨hnotified, hwf'⟩ := notified_of_step hnext hfirst hwf hfind hobserve hstep
    obtain ⟨req', hfind', hobserve'⟩ := hnotified.registered
    rw [notifications_cons]
    exact hnotified.trans (ih hfind' hobserve' hwf')

/-- A connected client with one observation. -/
def observingRun : Option (Client Unit Unit) :=
  execute .quiet [.onConnect, .submit (.getA () true)] ()

/-- A notification in one block. -/
def oneBlock (seq : ℤ) : RxPacket where
  type := .nonCon
  code := 69
  id := 0
  token := firstToken
  options := [(.observe, seq), (.block2, 0)]
  payload := [1, 2, 3]

private theorem oneBlock_notification {c : Client Unit Unit} {req : CoapReq Unit} {seq : ℤ}
    (hseq : seq = 1 ∨ seq = 2)
    (hnewer : coapReplyIsNewer req.reply seq 0 = true) :
    Notification .quiet c req (oneBlock seq) := by
  have hblock2 : coapGetOptionInt (oneBlock seq) .block2 = 0 := rfl
  refine ⟨show coapCodeToPosix 69 = 0 by decide, ?_, hnewer, .inr ⟨?_, ?_, ?_⟩⟩
  · rcases hseq with rfl | rfl <;> decide
  · rw [hblock2]
  · rw [hblock2]
    decide
  · rw [hblock2]
    decide

private theorem oneBlock_facts :
    ∃ c req req', observingRun = some c ∧ c.find 0 = some req ∧ req.isObserve = true ∧
      answered .quiet (oneBlock 1) c = some req ∧ req.ref = 0 ∧
      Notification .quiet c req (oneBlock 1) ∧ FindsContextFresh .quiet (oneBlock 1) req ∧
      answered .quiet (oneBlock 2) (coapReqProcessRx .quiet (oneBlock 1) c) = some req' ∧
      req'.ref = 0 ∧
      Notification .quiet (coapReqProcessRx .quiet (oneBlock 1) c) req' (oneBlock 2) ∧
      (invocations ((coapReqProcessRx .quiet (oneBlock 2)
        (coapReqProcessRx .quiet (oneBlock 1) c)).history 0)).length = 1 := by
  obtain ⟨c, hrun⟩ : ∃ c, observingRun = some c := Option.isSome_iff_exists.mp (by decide)
  have hfirst : observingRun.map (fun c => (answered .quiet (oneBlock 1) c).map fun req =>
      (req.ref, req.isObserve, req.reply, req.blockCtx)) =
      some (some (0, true, ⟨0, -128000⟩, ⟨0, 0, 6⟩)) := by decide
  have hsecond : observingRun.map (fun c =>
      (answered .quiet (oneBlock 2) (coapReqProcessRx .quiet (oneBlock 1) c)).map fun req =>
        (req.ref, req.reply)) = some (some (0, ⟨1, 0⟩)) := by decide
  have honce : observingRun.map (fun c => (invocations ((coapReqProcessRx .quiet (oneBlock 2)
      (coapReqProcessRx .quiet (oneBlock 1) c)).history 0)).length) = some 1 := by decide
  rw [hrun, Option.map_some, Option.some_inj] at hfirst hsecond honce
  obtain ⟨req, hanswered, hreq⟩ := Option.map_eq_some_iff.mp hfirst
  obtain ⟨req', hanswered', hreq'⟩ := Option.map_eq_some_iff.mp hsecond
  rw [Prod.mk.injEq, Prod.mk.injEq, Prod.mk.injEq] at hreq
  rw [Prod.mk.injEq] at hreq'
  obtain ⟨href, hobserve, hreply, hctx⟩ := hreq
  have hwf := wellFormed_of_reachable (reachable_of_execute _ hrun)
  refine ⟨c, req, req', hrun, href ▸ find_answered hwf hanswered, hobserve, hanswered, href,
    oneBlock_notification (.inl rfl) ?_, fun _ => ?_, hanswered', hreq'.1,
    oneBlock_notification (.inr rfl) ?_, honce⟩
  · rw [hreply]
    decide
  · rw [hctx]
    unfold Zephyr.Overruns
    decide
  · rw [hreq'.2]
    decide

/-- Of two notifications in one block each, the second is lost. -/
theorem oneBlock_lost :
    ∃ c req c', observingRun = some c ∧ c.find 0 = some req ∧ req.isObserve = true ∧
      CS.Run (StreamStep .quiet 0) [.notify (oneBlock 1), .notify (oneBlock 2)] c c' ∧
      ¬ Notified 0 [oneBlock 1, oneBlock 2] c c' := by
  obtain ⟨c, req, req', hrun, hfind, hobserve, hanswered, href, hrx, -, hanswered', href', hrx',
    honce⟩ := oneBlock_facts
  refine ⟨c, req, _, hrun, hfind, hobserve, .cons ⟨⟨req, hanswered, href, hrx⟩, rfl⟩
    (.single ⟨⟨req', hanswered', href', hrx'⟩, rfl⟩), fun hnotified => ?_⟩
  obtain ⟨rsps, hrsps, hover⟩ := hnotified.invoked
  have hlength := congrArg List.length hrsps
  rw [honce, List.length_append, ← hover.length_eq] at hlength
  simp at hlength

/-- A notification without a Block2 option. -/
def withoutBlock (seq : ℤ) : RxPacket := { oneBlock seq with options := [(.observe, seq)] }

/-- A notification in one block and one without blocks after it are both handed over. -/
theorem notified_of_fitting_twoNotifications :
    ∃ c c', observingRun = some c ∧
      CS.Run (StreamStep .quiet 0) [.notify (oneBlock 1), .notify (withoutBlock 2)] c c' ∧
      Notified 0 [oneBlock 1, withoutBlock 2] c c' := by
  obtain ⟨c, req, -, hrun, hfind, hobserve, hanswered, href, hrx, hfresh, -⟩ := oneBlock_facts
  have hsecond : observingRun.map (fun c => (answered .quiet (withoutBlock 2)
      (coapReqProcessRx .quiet (oneBlock 1) c)).map fun req => (req.ref, req.reply)) =
      some (some (0, ⟨1, 0⟩)) := by decide
  rw [hrun, Option.map_some, Option.some_inj] at hsecond
  obtain ⟨req', hanswered', hreq'⟩ := Option.map_eq_some_iff.mp hsecond
  obtain ⟨href', hreply'⟩ := Prod.mk.inj hreq'
  have hrx' : Notification .quiet (coapReqProcessRx .quiet (oneBlock 1) c) req'
      (withoutBlock 2) := by
    refine ⟨show coapCodeToPosix 69 = 0 by decide, by decide, ?_, .inl (by decide)⟩
    rw [hreply']
    exact show coapReplyIsNewer ⟨1, 0⟩ 2 0 = true by decide
  have hfitting : Fitting .quiet 0 (.notify (oneBlock 1)) c := by
    intro req₁ hfind₁
    obtain rfl := Option.some_inj.mp (hfind.symm.trans hfind₁)
    exact hfresh
  have hfitting' : Fitting .quiet 0 (.notify (withoutBlock 2))
      (coapReqProcessRx .quiet (oneBlock 1) c) :=
    fun _ _ hblock2 => absurd (show coapGetOptionInt (withoutBlock 2) .block2 = _ by decide) hblock2
  have hstep : StreamStep .quiet 0 (.notify (oneBlock 1)) c _ :=
    ⟨⟨req, hanswered, href, hrx⟩, rfl⟩
  have hstep' : StreamStep .quiet 0 (.notify (withoutBlock 2))
      (coapReqProcessRx .quiet (oneBlock 1) c) _ := ⟨⟨req', hanswered', href', hrx'⟩, rfl⟩
  exact ⟨c, _, hrun, .cons hstep (.single hstep'),
    notified_of_fitting Reference.nextBlockContract Reference.firstBlockContract
      (reachable_of_execute _ hrun) hfind hobserve
      (.cons ⟨hfitting, hstep⟩ (.single ⟨hfitting', hstep'⟩))⟩

end Golioth.Requests
