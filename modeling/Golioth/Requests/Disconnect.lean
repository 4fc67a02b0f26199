/-
# Disconnection

A disconnect clears the connection flag and then cancels the listed requests one
after the other. The callbacks that run meanwhile may submit requests of their
own; with the flag cleared each of these is turned away, so that the pass takes
the requests off the list in order and the list is empty when it ends. A client
that is not connected therefore has no requests.
-/
import Golioth.Requests.Actions

namespace Golioth.Requests

open Golioth.Coap

variable {κ σ : Type} {e : Env κ σ} {c c' d : Client κ σ}

/-! ## Submissions to a client that is not connected -/

/-- The error a submission ends with before it schedules its request, if any:
there is no memory, or the packet cannot be completed. -/
def Submission.buildError (e : Env κ σ) (submission : Submission κ) (c : Client κ σ) :
    Option ℤ :=
  match (coapReqNew e submission.method .con submission.bufferLen submission.cb
    submission.userData c).1 with
  | .error err => some err
  | .ok req =>
    if (submission.complete e.zephyr req).1 ≠ 0 then some (submission.complete e.zephyr req).1
    else none

/-- A submission is turned away: with `-ENETDOWN` if it gets as far as scheduling
its request, and with nothing added to the list. -/
structure Refused (e : Env κ σ) (submission : Submission κ) (c : Client κ σ) : Prop where
  disconnected : c.coapReqsConnected = false
  err : (submit e submission c).1 = (submission.buildError e c).getD (-Errno.enetdown)
  unlisted : (submit e submission c).2.coapReqs = c.coapReqs

theorem connected_coapReqNew (method : Method) (bufferLen : ℕ) (cb : Option κ) (userData : ℕ)
    (c : Client κ σ) :
    (coapReqNew e method .con bufferLen cb userData c).2.coapReqsConnected =
      c.coapReqsConnected := by
  unfold coapReqNew
  dsimp only
  split_ifs <;> rfl

theorem refused_of_disconnected (hdisconnected : c.coapReqsConnected = false)
    (submission : Submission κ) : Refused e submission c where
  disconnected := hdisconnected
  err := by
    have hconnected := connected_coapReqNew (e := e) submission.method submission.bufferLen
      submission.cb submission.userData c
    rw [submit_fst, newPreparedSchedule, Submission.buildError]
    cases hnew : coapReqNew e submission.method .con submission.bufferLen submission.cb
      submission.userData c with
    | mk made c₁ =>
      rw [hnew, hdisconnected] at hconnected
      cases made with
      | error err => rfl
      | ok req =>
        by_cases hcomplete : (submission.complete e.zephyr req).1 = 0
        · -- the request is complete, so that only scheduling it is left
          have hschedule : coapReqSchedule e (submission.complete e.zephyr req).2 c₁ =
              (-Errno.enetdown, c₁.tick) := by
            have hclosed : c₁.tick.coapReqsConnected = false := hconnected
            rw [coapReqSchedule, coapReqSubmit, hclosed]
            rfl
          have hfailed : -Errno.enetdown ≠ 0 := by decide
          simp only [hcomplete, hschedule, hfailed, ne_eq, not_true_eq_false, if_false,
            not_false_eq_true, if_true, Option.getD_none]
        · simp only [ne_eq, hcomplete, not_false_eq_true, if_true, Option.getD_some]
  unlisted := by
    have hsubmitted := submitted e submission c
    generalize submit e submission c = result at hsubmitted
    cases hsubmitted with
    | rejected events herr hevents hlog => rfl
    | listed hconnected hbuilt => exact absurd (hconnected.symm.trans hdisconnected) (by decide)

/-! ## Callbacks that run while the client is not connected -/

/-- An event that records a submission records one that was turned away. -/
def RecordsRefusal (e : Env κ σ) (event : Event) : Prop :=
  ∀ ref observe err, event = .scheduled ref observe err →
    ∃ (submission : Submission κ) (c : Client κ σ), Refused e submission c ∧ c.nextRef = ref ∧
      submission.observe = observe ∧ (submit e submission c).1 = err

/-- What code that runs while the client is not connected leaves behind. -/
structure Barred (e : Env κ σ) (c c' : Client κ σ) : Prop where
  disconnected : c'.coapReqsConnected = false
  coapReqs : c'.coapReqs = c.coapReqs
  log : ∃ events, c'.log = c.log ++ events ∧ ∀ event ∈ events, RecordsRefusal e event

private theorem Barred.refl (hdisconnected : c.coapReqsConnected = false) : Barred e c c :=
  ⟨hdisconnected, rfl, [], (List.append_nil _).symm, by simp⟩

private theorem Barred.trans (h : Barred e c c') (h' : Barred e c' d) : Barred e c d := by
  obtain ⟨events, hlog, hevents⟩ := h.log
  obtain ⟨events', hlog', hevents'⟩ := h'.log
  refine ⟨h'.disconnected, h'.coapReqs.trans h.coapReqs, events ++ events', ?_, ?_⟩
  · rw [hlog', hlog, List.append_assoc]
  · intro event hmem
    exact (List.mem_append.mp hmem).elim (hevents event) (hevents' event)

private theorem barred_submit (hdisconnected : c.coapReqsConnected = false)
    (submission : Submission κ) : Barred e c (submit e submission c).2 := by
  have hrefused := refused_of_disconnected (e := e) hdisconnected submission
  have herr : (submit e submission c).1 = (submit e submission c).1 := rfl
  have hsubmitted := submitted e submission c
  generalize hresult : submit e submission c = result at hsubmitted herr
  cases hsubmitted with
  | listed hconnected hbuilt => exact absurd (hconnected.symm.trans hdisconnected) (by decide)
  | @rejected err readings log events hne hevents hlog =>
    refine ⟨hdisconnected, rfl, _, hlog, fun event hmem ref observe err' hevent => ?_⟩
    rcases List.mem_append.mp hmem with hmem | hmem
    · rw [hevents event hmem] at hevent
      cases hevent
    · rw [List.mem_singleton.mp hmem] at hevent
      obtain ⟨rfl, rfl, rfl⟩ := Event.scheduled.inj hevent
      exact ⟨submission, c, hrefused, rfl, rfl, by rw [hresult]⟩

private theorem barred_emit (hdisconnected : c.coapReqsConnected = false) {event : Event}
    (hevent : RecordsRefusal e event) : Barred e c (c.emit event) :=
  ⟨hdisconnected, rfl, [event], rfl, by simpa using hevent⟩

/-- A callback without `get_next`, called while the client is not connected. -/
theorem barred_invokeLast (hdisconnected : c.coapReqsConnected = false) (ref : ℕ)
    (cb : Option κ) (rsp : Rsp) : Barred e c (invokeLast e ref cb rsp c).2 := by
  have hcalled : Barred e c (c.emit (.called ref rsp)) :=
    barred_emit hdisconnected fun _ _ _ h => by cases h
  have hprogram : Barred e (c.emit (.called ref rsp))
      ((e.callback cb rsp).run (answerWith e fun _ c => (0, c)) (c.emit (.called ref rsp))).2 := by
    refine CS.Prog.run_rel (answerWith e fun _ c => (0, c))
      (r := fun s t => s.coapReqsConnected = false → Barred e s t)
      (fun _ h => .refl h) (fun hst htu h => (hst h).trans (htu (hst h).disconnected)) ?_ _ _
      hdisconnected
    intro command s h
    cases command with
    | getNext status => exact .refl h
    | submit submission => exact barred_submit h submission
    | get => exact .refl h
    | set app => exact ⟨h, rfl, [], (List.append_nil _).symm, by simp⟩
  exact (hcalled.trans hprogram).trans
    (barred_emit hprogram.disconnected fun _ _ _ h => by cases h)

/-! ## The pass that cancels the requests -/

/-- What the pass relies on and keeps. -/
private structure Draining (c : Client κ σ) : Prop where
  wellFormed : WellFormed c
  disconnected : c.coapReqsConnected = false

/-- The response a request is cancelled with. -/
def shutdownRsp (userData : ℕ) : Rsp where
  userData := userData
  err := -Errno.eshutdown

private theorem cancelVisit_eq {ref : ℕ} {req : CoapReq κ} (hfind : c.find ref = some req) :
    cancelVisit e (-Errno.eshutdown) ref c =
      some (coapReqCancelAndFree ref
        (invoke e ref req.cb (shutdownRsp req.userData) c).2) := by
  rw [cancelVisit, hfind]
  rfl

private theorem barred_invoke (hdisconnected : c.coapReqsConnected = false) (ref : ℕ)
    (cb : Option κ) (userData : ℕ) :
    Barred e c (invoke e ref cb (shutdownRsp userData) c).2 := by
  rw [invoke, if_neg (by simp [shutdownRsp])]
  exact barred_invokeLast hdisconnected ref cb _

private theorem cancelVisit_takesFirst (h : Draining c) {ref : ℕ}
    (hhead : c.refs.head? = some ref) :
    ∃ c', Draining c' ∧ CS.SafeIteration.TakesFirst Draining Client.refs
      (cancelVisit e (-Errno.eshutdown)) ref c c' := by
  obtain ⟨req, hfind⟩ := c.mem_refs_iff.mp (List.mem_of_mem_head? hhead)
  have hbarred := barred_invoke (e := e) h.disconnected ref req.cb req.userData
  obtain ⟨rest, hrefs⟩ : ∃ rest, c.refs = ref :: rest := by
    cases hlist : c.refs with
    | nil => rw [hlist] at hhead; cases hhead
    | cons ref' rest =>
      rw [hlist] at hhead
      exact ⟨rest, by rw [Option.some_inj.mp hhead]⟩
  have hwf := wellFormed_invoke (e := e) h.wellFormed hfind req.cb (shutdownRsp req.userData)
  have hlt := (h.wellFormed.refs_lt ref (List.mem_of_mem_head? hhead)).trans_le
    (nextRef_invoke_le (e := e) h.wellFormed hfind req.cb (shutdownRsp req.userData))
  refine ⟨_, ⟨wellFormed_coapReqCancelAndFree hwf hlt, hbarred.disconnected⟩, h, ?_,
    cancelVisit_eq hfind⟩
  -- the callback has left the list alone, so that the request is still its head
  have hkept : (invoke e ref req.cb (shutdownRsp req.userData) c).2.refs = ref :: rest := by
    rw [Client.refs, hbarred.coapReqs]
    exact hrefs
  have hfilter : rest.filter (· ≠ ref) = rest := by
    rw [List.filter_eq_self]
    intro other hmem
    have hnodup := h.wellFormed.nodup
    rw [hrefs, List.nodup_cons] at hnodup
    simp only [ne_eq, decide_not, Bool.not_eq_eq_eq_not, Bool.not_true, decide_eq_false_iff_not]
    rintro rfl
    exact hnodup.1 hmem
  rw [refs_coapReqCancelAndFree, hkept, hrefs, List.filter_cons_of_neg (by simp), hfilter]

/-- The visits of the pass. -/
private abbrev Visit (e : Env κ σ) : ℕ → Client κ σ → Client κ σ → Prop :=
  CS.SafeIteration.TakesFirst Draining Client.refs (cancelVisit e (-Errno.eshutdown))

private theorem Visit.eq {ref : ℕ} (h : Visit e ref c c') :
    ∃ req, c.find ref = some req ∧ Draining c ∧ c' = coapReqCancelAndFree ref
      (invoke e ref req.cb (shutdownRsp req.userData) c).2 := by
  obtain ⟨req, hfind⟩ := c.mem_refs_iff.mp (by rw [h.items_eq]; exact List.mem_cons_self)
  have hvisited := h.visited
  rw [cancelVisit_eq hfind, Option.some_inj] at hvisited
  exact ⟨req, hfind, h.inv, hvisited.symm⟩

private theorem Visit.frame {ref other : ℕ} (h : Visit e ref c c') (hne : ref ≠ other)
    (hlt : other < c.nextRef) :
    c'.find other = c.find other ∧ c'.history other = c.history other ∧ other < c'.nextRef := by
  obtain ⟨req, hfind, hdraining, rfl⟩ := h.eq
  obtain ⟨hfind', hhistory⟩ := frame_invoke (e := e) hdraining.wellFormed hfind req.cb
    (shutdownRsp req.userData) hlt hne
  refine ⟨(find_coapReqCancelAndFree_of_ne _ hne.symm).trans hfind', ?_, hlt.trans_le
    (nextRef_invoke_le hdraining.wellFormed hfind req.cb _)⟩
  rw [history_coapReqCancelAndFree, if_neg hne, List.append_nil, hhistory]

private theorem history_of_visits {refs : List ℕ} (h : CS.Run (Visit e) refs c c') {other : ℕ}
    (hnot : other ∉ refs) (hlt : other < c.nextRef) : c'.history other = c.history other := by
  induction h with
  | nil => rfl
  | cons hvisit _ ih =>
    rw [List.mem_cons, not_or] at hnot
    obtain ⟨-, hhistory, hlt'⟩ := hvisit.frame (Ne.symm hnot.1) hlt
    exact (ih hnot.2 hlt').trans hhistory

/-- A request was cancelled: its callback was called once, with `-ESHUTDOWN`, and
then it was freed. -/
def CancelledOnce (ref userData : ℕ) (c c' : Client κ σ) : Prop :=
  ∃ ret, c'.history ref = c.history ref ++
    [.called ref (shutdownRsp userData), .returned ref (shutdownRsp userData) ret, .freed ref]

private theorem Visit.cancelledOnce {ref : ℕ} {req : CoapReq κ} (h : Visit e ref c c')
    (hfind : c.find ref = some req) : CancelledOnce ref req.userData c c' := by
  obtain ⟨req', hfind', hdraining, rfl⟩ := h.eq
  obtain rfl := Option.some_inj.mp (hfind'.symm.trans hfind)
  obtain ⟨events, hhistory, hquiet, -⟩ := history_invoke (e := e) hdraining.wellFormed hfind
    req'.cb (shutdownRsp req'.userData)
  rw [hquiet (.inr rfl), List.nil_append] at hhistory
  refine ⟨(invoke e ref req'.cb (shutdownRsp req'.userData) c).1, ?_⟩
  rw [history_coapReqCancelAndFree, if_pos rfl, hhistory, List.append_assoc]
  rfl

private theorem cancelledOnce_of_visits {refs : List ℕ} (h : CS.Run (Visit e) refs c c')
    (hnodup : refs.Nodup) {ref : ℕ} (hmem : ref ∈ refs) {req : CoapReq κ}
    (hfind : c.find ref = some req) (hlt : ref < c.nextRef) :
    CancelledOnce ref req.userData c c' := by
  induction h with
  | nil => cases hmem
  | @cons first rest s t u hvisit hrest ih =>
    obtain ⟨hnot, hnodup⟩ := List.nodup_cons.mp hnodup
    by_cases hfirst : first = ref
    · subst hfirst
      obtain ⟨req', hfind', hdraining, heq⟩ := hvisit.eq
      have hlt' : first < t.nextRef := by
        rw [heq]
        exact hlt.trans_le (nextRef_invoke_le hdraining.wellFormed hfind' req'.cb _)
      obtain ⟨ret, hhistory⟩ := hvisit.cancelledOnce hfind
      exact ⟨ret, (history_of_visits hrest hnot hlt').trans hhistory⟩
    · have hmem' := (List.mem_cons.mp hmem).resolve_left (Ne.symm hfirst)
      obtain ⟨hfind', hhistory, hlt'⟩ := hvisit.frame hfirst hlt
      obtain ⟨ret, hcancelled⟩ := ih hnodup hmem' (hfind'.trans hfind) hlt'
      exact ⟨ret, by rw [hcancelled, hhistory]⟩

private theorem log_of_visits {refs : List ℕ} (h : CS.Run (Visit e) refs c c') :
    ∃ events, c'.log = c.log ++ events ∧ ∀ event ∈ events, RecordsRefusal e event := by
  refine h.rel (r := fun s t : Client κ σ => ∃ events, t.log = s.log ++ events ∧
    ∀ event ∈ events, RecordsRefusal e event) (fun s => ⟨[], by simp⟩) ?_ ?_
  · rintro s t u ⟨events, hlog, hevents⟩ ⟨events', hlog', hevents'⟩
    refine ⟨events ++ events', by rw [hlog', hlog, List.append_assoc], fun event hmem => ?_⟩
    exact (List.mem_append.mp hmem).elim (hevents event) (hevents' event)
  · rintro ref s t hvisit
    obtain ⟨req, hfind, hdraining, rfl⟩ := hvisit.eq
    obtain ⟨events, hlog, hevents⟩ :=
      (barred_invoke (e := e) hdraining.disconnected ref req.cb req.userData).log
    refine ⟨events ++ [.freed ref], ?_, fun event hmem => ?_⟩
    · rw [log_coapReqCancelAndFree, hlog, List.append_assoc]
    · rcases List.mem_append.mp hmem with hmem | hmem
      · exact hevents event hmem
      · rw [List.mem_singleton.mp hmem]
        rintro _ _ _ ⟨⟩

/-- A disconnect returns. It leaves the client not connected and without requests;
it has called the callback of each request once, with `-ESHUTDOWN`, and has freed
the request; and what the callbacks submitted meanwhile was turned away. -/
structure Drained (e : Env κ σ) (c c' : Client κ σ) : Prop where
  returns : Step e .onDisconnect c c'
  disconnected : c'.coapReqsConnected = false
  empty : c'.coapReqs = []
  cancelled : ∀ ref req, c.find ref = some req → CancelledOnce ref req.userData c c'
  refused : ∃ events, c'.log = c.log ++ events ∧ ∀ event ∈ events, RecordsRefusal e event

theorem drained_onDisconnect (hwf : WellFormed c) : ∃ c', Drained e c c' := by
  have hdraining : Draining { c with coapReqsConnected := false } :=
    ⟨⟨hwf.nodup, hwf.refs_lt, hwf.log_lt⟩, rfl⟩
  have hvisit : ∀ ref (s : Client κ σ), Draining s → s.refs.head? = some ref →
      ∃ s', Draining s' ∧ Visit e ref s s' := fun _ _ h hhead => cancelVisit_takesFirst h hhead
  obtain ⟨c', hdrained, hempty, hpass, hrun⟩ :=
    CS.SafeIteration.forEachSafe_drain hvisit hdraining
  have hlength : c.refs.length = c.coapReqs.length := by rw [Client.refs, List.length_map]
  have hlog := log_of_visits hrun
  refine ⟨c', ?_, hdrained.disconnected, List.map_eq_nil_iff.mp hempty, fun ref req hfind => ?_,
    hlog⟩
  · change coapReqsOnDisconnect e c = some c'
    rw [← hpass, coapReqsOnDisconnect, coapReqsCancelAllWithReason]
    exact congrArg (fun visits => CS.SafeIteration.forEachSafe Client.refs
      (cancelVisit e (-Errno.eshutdown)) visits { c with coapReqsConnected := false })
      hlength.symm
  · have hmem := c.mem_refs_iff.mpr ⟨req, hfind⟩
    exact cancelledOnce_of_visits hrun hwf.nodup hmem hfind (hwf.refs_lt ref hmem)

/-! ## A client that is not connected has no requests -/

theorem connected_submit (submission : Submission κ) (c : Client κ σ) :
    (submit e submission c).2.coapReqsConnected = c.coapReqsConnected := by
  have hsubmitted := submitted e submission c
  generalize submit e submission c = result at hsubmitted
  cases hsubmitted <;> rfl

private theorem connected_invokeWith {getNext : ℤ → Client κ σ → ℤ × Client κ σ}
    (hgetNext : ∀ status c, (getNext status c).2.coapReqsConnected = c.coapReqsConnected)
    (ref : ℕ) (cb : Option κ) (rsp : Rsp) (c : Client κ σ) :
    (invokeWith e (answerWith e getNext) ref cb rsp c).2.coapReqsConnected =
      c.coapReqsConnected := by
  have hprogram := CS.Prog.run_rel (answerWith e getNext)
    (r := fun s t => t.coapReqsConnected = s.coapReqsConnected) (fun _ => rfl)
    (fun hst htu => htu.trans hst) (fun command s => ?_) (e.callback cb rsp)
    (c.emit (.called ref rsp))
  · exact hprogram
  · cases command with
    | getNext status => exact hgetNext status s
    | submit submission => exact connected_submit submission s
    | get => rfl
    | set app => rfl

private theorem connected_coapReqNextBlock (ref : ℕ) (status : ℤ) (c : Client κ σ) :
    (coapReqNextBlock e ref status c).2.coapReqsConnected = c.coapReqsConnected := by
  unfold coapReqNextBlock
  dsimp only
  split
  · rfl
  · split
    · exact connected_invokeWith (fun _ _ => rfl) ref _ _ c.tick
    · rfl

/-- No callback changes the connection flag. -/
theorem connected_invoke (ref : ℕ) (cb : Option κ) (rsp : Rsp) (c : Client κ σ) :
    (invoke e ref cb rsp c).2.coapReqsConnected = c.coapReqsConnected := by
  unfold invoke
  split
  · exact connected_invokeWith (connected_coapReqNextBlock ref) ref cb rsp c
  · exact connected_invokeWith (fun _ _ => rfl) ref cb rsp c

private theorem connected_label (ref : ℕ) (err : ℤ) (c : Client κ σ) :
    (labelCancelAndFree ref err c).coapReqsConnected = c.coapReqsConnected := by
  unfold labelCancelAndFree
  split
  · rfl
  · split <;> rfl

private theorem connected_carryOut (req : CoapReq κ) (v : Verdict) (c : Client κ σ) :
    (v.carryOut e req c).coapReqsConnected = c.coapReqsConnected := by
  cases v with
  | ignore blockCtx => rfl
  | deliver blockCtx rsp err =>
    rw [Verdict.carryOut, connected_label, connected_invoke]
    rfl
  | offer blockCtx rsp =>
    rw [Verdict.carryOut]
    split_ifs
    · rw [connected_label, connected_invoke]
      rfl
    · rw [connected_label, connected_invoke]
      rfl
    · rw [connected_invoke]
      rfl

theorem connected_processRx (hwf : WellFormed c) (rx : RxPacket) :
    (coapReqProcessRx e rx c).coapReqsConnected = c.coapReqsConnected := by
  unfold coapReqProcessRx
  split
  · rfl
  · next req hanswered =>
    have hmem : req ∈ c.coapReqs := List.mem_of_find?_eq_some hanswered
    have hfind := Client.find_of_mem hwf.nodup hmem
    dsimp only
    split
    · rw [coapReqReplyHandler_eq e hwf hfind, connected_carryOut]
    · split
      · have htrack : Acts e (.track req.ref) c.tick _ := .track req.ref
          (fun _ => { seq := coapGetOptionInt rx .observe, ts := e.kUptimeGet c.readings }) id
        have hwf' := htrack.wellFormed ⟨hwf.nodup, hwf.refs_lt, hwf.log_lt⟩
        have hfind' := find_track (c := c.tick) hfind
          (fun _ => { seq := coapGetOptionInt rx .observe, ts := e.kUptimeGet c.readings }) id
        have hhandler := coapReqReplyHandler_eq e hwf' hfind' rx
        exact hhandler ▸ connected_carryOut _ _ _
      · rfl

private theorem connected_pollVisit {now : UInt32} {ref : ℕ} {s s' : ℤ × Client κ σ}
    (hvisit : pollVisit e now ref s = some s') :
    s'.2.coapReqsConnected = s.2.coapReqsConnected := by
  unfold pollVisit at hvisit
  split at hvisit
  · cases hvisit
  · split at hvisit
    · rw [← Option.some_inj.mp hvisit]
    · obtain ⟨polled, hpoll, rfl⟩ := Option.map_eq_some_iff.mp hvisit
      obtain ⟨outcome, -, rfl⟩ := Option.map_eq_some_iff.mp hpoll
      cases outcome with
      | waits timeout send pending readings =>
        rw [PollOutcome.carryOut]
        split <;> rfl
      | expires pending readings => exact connected_invoke _ _ _ _

theorem connected_pollPrepare {now : ℤ} {visits : ℕ} {s : ℤ × Client κ σ}
    (hpass : coapReqsPollPrepare e now visits c = some s) :
    s.2.coapReqsConnected = c.coapReqsConnected :=
  CS.SafeIteration.forEachSafe_rel
    (r := fun s s' : ℤ × Client κ σ => s'.2.coapReqsConnected = s.2.coapReqsConnected)
    (fun _ => rfl) (fun hst htu => htu.trans hst) (fun _ _ _ h => connected_pollVisit h) hpass

/-- A client that is not connected has no requests. -/
def ClosedEmpty (c : Client κ σ) : Prop := c.coapReqsConnected = false → c.coapReqs = []

private theorem forEachSafe_of_empty {S : Type} {items : S → List ℕ} {body : ℕ → S → Option S}
    {visits : ℕ} {s : S} (hempty : items s = []) :
    CS.SafeIteration.forEachSafe items body visits s = some s := by
  rw [CS.SafeIteration.forEachSafe, hempty]
  cases visits <;> rfl

/-- **Step.** Every operation keeps it so. -/
theorem closedEmpty_step (hwf : WellFormed c) (h : ClosedEmpty c) {op : Op κ}
    (hstep : Step e op c c') : ClosedEmpty c' := by
  intro hdisconnected
  cases op with
  | submit submission =>
    obtain rfl := Option.some_inj.mp hstep
    rw [connected_submit] at hdisconnected
    rw [(refused_of_disconnected hdisconnected submission).unlisted, h hdisconnected]
  | processRx rx =>
    obtain rfl := Option.some_inj.mp hstep
    rw [connected_processRx hwf] at hdisconnected
    have hanswered : answered e rx c = none := by rw [answered, h hdisconnected, List.find?_nil]
    rw [coapReqProcessRx, hanswered]
    exact h hdisconnected
  | pollPrepare now visits =>
    obtain ⟨s, hpass, rfl⟩ := Option.map_eq_some_iff.mp hstep
    rw [connected_pollPrepare hpass] at hdisconnected
    have hempty := h hdisconnected
    rw [coapReqsPollPrepare, forEachSafe_of_empty (by simp [Client.refs, hempty]),
      Option.some_inj] at hpass
    rw [← hpass]
    exact hempty
  | onConnect =>
    obtain rfl := Option.some_inj.mp hstep
    cases hdisconnected
  | onDisconnect =>
    obtain ⟨c'', hdrained⟩ := drained_onDisconnect (e := e) hwf
    obtain rfl := Option.some_inj.mp (hdrained.returns.symm.trans hstep)
    exact hdrained.empty

/-- **Disconnection drains and closes the list.** In every reachable state a
client that is not connected has no requests, and a disconnect drains the list. -/
theorem drained_of_reachable {app : σ} (hreach : Reachable e app c) :
    (c.coapReqsConnected = false → c.coapReqs = []) ∧ ∃ c', Drained e c c' := by
  have hinv := hreach.invariant (fun c => WellFormed c ∧ ClosedEmpty c)
    ⟨wellFormed_init app, fun _ => rfl⟩ fun _ _ _ hinv hstep =>
      ⟨wellFormed_step hinv.1 hstep, closedEmpty_step hinv.1 hinv.2 hstep⟩
  exact ⟨hinv.2, drained_onDisconnect hinv.1⟩

/-- The calm environment whose callbacks submit a request each time they are called. -/
def Env.resubmitting : Env Unit Unit :=
  .calm fun _ _ => .call (.submit (.getA () false)) fun err => .ret err

/-- A connected client with a request and an observation. -/
def resubmittingRun : Option (Client Unit Unit) :=
  execute .resubmitting [.onConnect, .submit (.getA () false), .submit (.getA () true)] ()

theorem drained_of_reachable_resubmitting :
    ∃ c, resubmittingRun = some c ∧ c.refs = [0, 1] ∧
      (c.coapReqsConnected = false → c.coapReqs = []) ∧ ∃ c', Drained .resubmitting c c' := by
  obtain ⟨c, hrun⟩ : ∃ c, resubmittingRun = some c := Option.isSome_iff_exists.mp (by decide)
  have hrefs : resubmittingRun.map Client.refs = some [0, 1] := by decide
  rw [hrun] at hrefs
  exact ⟨c, hrun, Option.some_inj.mp hrefs,
    drained_of_reachable (reachable_of_execute _ hrun)⟩

end Golioth.Requests
