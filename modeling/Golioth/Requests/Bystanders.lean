/-
# What other requests leave alone

The code of a client has a state that some of its callbacks write to, and others do
not. This file is about those that do not: a callback that does not write to that state
and makes no request with a given callback leaves the state as it was and adds no such
request, whatever else it does. So do operations in which no other callback runs.
-/
import Golioth.Requests.Following

namespace Golioth.Requests

open Golioth.Coap

variable {κ σ : Type} {e : Env κ σ} {c c' c'' : Client κ σ} {k : κ} {ref : ℕ} {cb : Option κ}
  {req : CoapReq κ} {rsp : Rsp} {rx : RxPacket}

/-- A command that does not write to the state of the client's code and makes no request with the
callback `k`. -/
def CbCmd.Spares (k : κ) : CbCmd κ σ → Prop
  | .submit submission => submission.cb ≠ some k
  | .set _ => False
  | .getNext _ | .get => True

/-- The requests with the callback `k` are among those there were. -/
def AddsNone (k : κ) (c c' : Client κ σ) : Prop :=
  ∀ ref req', c'.find ref = some req' → req'.cb = some k →
    ∃ req, c.find ref = some req ∧ req.cb = some k

/-- The state of the client's code is the same, and no request with the callback `k` is new. -/
structure Bystander (k : κ) (c c' : Client κ σ) : Prop where
  app : c'.app = c.app
  listed : AddsNone k c c'

/-- The request at an address has the callback. -/
def ListedWith (ref : ℕ) (cb : Option κ) (c : Client κ σ) : Prop :=
  ∃ req, c.find ref = some req ∧ req.cb = cb

theorem AddsNone.trans (h : AddsNone k c c') (h' : AddsNone k c' c'') : AddsNone k c c'' := by
  intro ref req'' hfind hcb
  obtain ⟨req', hfind', hcb'⟩ := h' ref req'' hfind hcb
  exact h ref req' hfind' hcb'

theorem Bystander.refl (c : Client κ σ) : Bystander k c c :=
  ⟨rfl, fun _ req hfind hcb => ⟨req, hfind, hcb⟩⟩

theorem Bystander.trans (h : Bystander k c c') (h' : Bystander k c' c'') : Bystander k c c'' where
  app := h'.app.trans h.app
  listed := h.listed.trans h'.listed

/-- What neither adds a request nor writes to the state. -/
theorem Bystander.of_find (happ : c'.app = c.app)
    (hfind : ∀ ref req', c'.find ref = some req' → ∃ req, c.find ref = some req ∧ req.cb = req'.cb) :
    Bystander k c c' := by
  refine ⟨happ, fun ref req' hreq' hcb => ?_⟩
  obtain ⟨req, hreq, hsame⟩ := hfind ref req' hreq'
  exact ⟨req, hreq, hsame.trans hcb⟩

theorem bystander_emit (c : Client κ σ) (event : Event) : Bystander k c (c.emit event) :=
  .of_find rfl fun _ req' h => ⟨req', h, rfl⟩

theorem bystander_tick (c : Client κ σ) : Bystander k c c.tick :=
  .of_find rfl fun _ req' h => ⟨req', h, rfl⟩

theorem find_modify_cases {f : CoapReq κ → CoapReq κ}
    (hf : ∀ req, req.ref = ref → (f req).ref = ref) {other : ℕ} {req' : CoapReq κ}
    (hfind : (c.modify ref f).find other = some req') :
    ∃ req, c.find other = some req ∧ (req' = req ∨ other = ref ∧ req' = f req) := by
  by_cases hother : other = ref
  · subst hother
    rw [Client.find_modify_self c hf] at hfind
    obtain ⟨req, hreq, rfl⟩ := Option.map_eq_some_iff.mp hfind
    exact ⟨req, hreq, .inr ⟨rfl, rfl⟩⟩
  · rw [Client.find_modify_of_ne c hf hother] at hfind
    exact ⟨req', hfind, .inl rfl⟩

theorem bystander_modify (c : Client κ σ) {f : CoapReq κ → CoapReq κ}
    (hf : ∀ req, c.find ref = some req → (f req).cb = req.cb)
    (href : ∀ req, req.ref = ref → (f req).ref = ref) : Bystander k c (c.modify ref f) := by
  refine .of_find rfl fun other req' hfind => ?_
  obtain ⟨req, hreq, rfl | ⟨rfl, rfl⟩⟩ := find_modify_cases href hfind
  · exact ⟨req', hreq, rfl⟩
  · exact ⟨req, hreq, (hf req hreq).symm⟩

theorem bystander_coapReqCancelAndFree (c : Client κ σ) (ref : ℕ) :
    Bystander k c (coapReqCancelAndFree ref c) := by
  refine .of_find rfl fun other req' hfind => ⟨req', ?_, rfl⟩
  by_cases hother : other = ref
  · subst hother
    rw [find_coapReqCancelAndFree_self] at hfind
    cases hfind
  · rwa [find_coapReqCancelAndFree_of_ne _ hother] at hfind

theorem bystander_label (c : Client κ σ) (ref : ℕ) (err : ℤ) :
    Bystander k c (labelCancelAndFree ref err c) := by
  unfold labelCancelAndFree
  split
  · exact .refl c
  · split
    · exact bystander_modify c (fun _ _ => rfl) fun _ h => h
    · exact bystander_coapReqCancelAndFree c ref

/-! ## Submissions -/

/-- A submission leaves every request there is, and adds at most one with its callback. -/
theorem find_submit (e : Env κ σ) (submission : Submission κ) (c : Client κ σ) (ref : ℕ) :
    (submit e submission c).2.find ref = c.find ref ∨
      c.find ref = none ∧ ∃ req, (submit e submission c).2.find ref = some req ∧
        req.cb = submission.cb := by
  generalize hresult : submit e submission c = result
  have hsubmitted := submitted e submission c
  rw [hresult] at hsubmitted
  cases hsubmitted with
  | rejected events herr hevents hlog => exact .inl rfl
  | @listed req readings hconnected hbuilt =>
    have happend : ∀ found, (c.coapReqs ++ [req]).find? (·.ref = ref) = found →
        found = (c.find ref).or ([req].find? (·.ref = ref)) := by
      rintro _ rfl
      exact List.find?_append
    rw [Client.find, happend _ rfl]
    cases hfind : c.find ref with
    | some found => exact .inl rfl
    | none =>
      by_cases href : req.ref = ref
      · exact .inr ⟨rfl, req, by simp [href], hbuilt.cb⟩
      · exact .inl (by simp [href])

theorem app_submit (e : Env κ σ) (submission : Submission κ) (c : Client κ σ) :
    (submit e submission c).2.app = c.app := by
  generalize hresult : submit e submission c = result
  have hsubmitted := submitted e submission c
  rw [hresult] at hsubmitted
  cases hsubmitted <;> rfl

theorem nextRef_submit (e : Env κ σ) (submission : Submission κ) (c : Client κ σ) :
    (submit e submission c).2.nextRef = c.nextRef + 1 := by
  generalize hresult : submit e submission c = result
  have hsubmitted := submitted e submission c
  rw [hresult] at hsubmitted
  cases hsubmitted <;> rfl

theorem bystander_submit {submission : Submission κ} (hcb : submission.cb ≠ some k)
    (c : Client κ σ) : Bystander k c (submit e submission c).2 := by
  refine ⟨app_submit e submission c, fun ref req' hfind hreq' => ?_⟩
  rcases find_submit e submission c ref with hsame | ⟨-, req, hfind', hsame⟩
  · exact ⟨req', hsame ▸ hfind, hreq'⟩
  · obtain rfl := Option.some_inj.mp (hfind'.symm.trans hfind)
    exact absurd (hsame.symm.trans hreq') hcb

theorem ListedWith.submit (h : ListedWith ref cb c) (submission : Submission κ) :
    ListedWith ref cb (Requests.submit e submission c).2 := by
  obtain ⟨req, hfind, hcb⟩ := h
  rcases find_submit e submission c ref with hsame | ⟨hnone, -⟩
  · exact ⟨req, hsame.trans hfind, hcb⟩
  · rw [hnone] at hfind
    cases hfind

/-! ## Callbacks -/

/-- The code of a callback issues only commands that spare `k`. -/
def Spares (e : Env κ σ) (k : κ) (cb : Option κ) : Prop :=
  ∀ rsp, (e.callback cb rsp).Only (CbCmd.Spares k)

private theorem bystander_answerWith {getNext : ℤ → Client κ σ → ℤ × Client κ σ}
    (hgetNext : ∀ status c, ListedWith ref cb c →
      ListedWith ref cb (getNext status c).2 ∧ Bystander k c (getNext status c).2)
    (command : CbCmd κ σ) (c : Client κ σ) (hspares : command.Spares k)
    (h : ListedWith ref cb c) :
    ListedWith ref cb (answerWith e getNext command c).2 ∧
      Bystander k c (answerWith e getNext command c).2 := by
  cases command with
  | getNext status => exact hgetNext status c h
  | submit submission => exact ⟨h.submit submission, bystander_submit hspares c⟩
  | get => exact ⟨h, .refl c⟩
  | set app => exact hspares.elim

private theorem bystander_invokeWith {getNext : ℤ → Client κ σ → ℤ × Client κ σ}
    (hgetNext : ∀ status c, ListedWith ref cb c →
      ListedWith ref cb (getNext status c).2 ∧ Bystander k c (getNext status c).2)
    (hspares : Spares e k cb) (rsp : Rsp) (h : ListedWith ref cb c) :
    ListedWith ref cb (invokeWith e (answerWith e getNext) ref cb rsp c).2 ∧
      Bystander k c (invokeWith e (answerWith e getNext) ref cb rsp c).2 := by
  have hrun := CS.Prog.run_rel_of_only (answerWith e getNext)
    (r := fun s t => ListedWith ref cb s → ListedWith ref cb t ∧ Bystander k s t)
    (fun s h => ⟨h, .refl s⟩)
    (fun hst htu h => ⟨(htu (hst h).1).1, (hst h).2.trans (htu (hst h).1).2⟩)
    (fun command s hcommand h => bystander_answerWith hgetNext command s hcommand h)
    (hspares rsp) (c.emit (.called ref rsp)) h
  exact ⟨hrun.1, (bystander_emit c _).trans (hrun.2.trans (bystander_emit _ _))⟩

theorem bystander_invokeLast (hspares : Spares e k cb) (rsp : Rsp) (h : ListedWith ref cb c) :
    ListedWith ref cb (invokeLast e ref cb rsp c).2 ∧
      Bystander k c (invokeLast e ref cb rsp c).2 :=
  bystander_invokeWith (fun _ c h => ⟨h, .refl c⟩) hspares rsp h

/-- Asking for the next block of an observation calls the callback once more, with an error. -/
theorem bystander_coapReqNextBlock
    (hlast : ∀ rsp c, rsp.err ≠ 0 → ListedWith ref cb c →
      ListedWith ref cb (invokeLast e ref cb rsp c).2 ∧ Bystander k c (invokeLast e ref cb rsp c).2)
    (status : ℤ) (h : ListedWith ref cb c) :
    ListedWith ref cb (coapReqNextBlock e ref status c).2 ∧
      Bystander k c (coapReqNextBlock e ref status c).2 := by
  obtain ⟨req, hfind, rfl⟩ := h
  unfold coapReqNextBlock
  simp only [Client.find_tick, hfind]
  split
  · obtain ⟨hcalls, hbystander⟩ := hlast { userData := req.userData, err := -Errno.enotsup } c.tick
      (show -Errno.enotsup ≠ 0 by decide) ⟨req, hfind, rfl⟩
    exact ⟨hcalls, (bystander_tick c).trans hbystander⟩
  · have hsame := sameRequest_prepareNextBlock e.zephyr (e.coapNextId c.readings)
      (e.kUptimeGet c.tick.readings) req
    have href := hsame.ref_eq.trans (Client.ref_of_find hfind)
    refine ⟨⟨_, ?_, hsame.cb⟩, (bystander_tick c).trans ((bystander_tick _).trans
      (bystander_modify _ (fun req' hreq' => ?_) fun _ _ => href))⟩
    · exact (Client.find_modify_self c.tick.tick fun _ _ => href).trans (congrArg _ hfind)
    · obtain rfl := Option.some_inj.mp (hreq'.symm.trans hfind)
      exact hsame.cb

/-- **Callback.** A callback that spares `k` is a bystander. -/
theorem bystander_invoke (hspares : Spares e k cb) (rsp : Rsp) (h : ListedWith ref cb c) :
    Bystander k c (invoke e ref cb rsp c).2 := by
  unfold invoke
  split
  · exact (bystander_invokeWith (fun status _ h => bystander_coapReqNextBlock
      (fun rsp _ _ h => bystander_invokeLast hspares rsp h) status h) hspares rsp h).2
  · exact (bystander_invokeLast hspares rsp h).2

/-! ## Operations -/

/-- An action is a bystander if its submission and its callback are. -/
theorem Acts.bystander {action : Action κ} (hacts : Acts e action c c')
    (hsubmit : ∀ submission, action = .submit submission → submission.cb ≠ some k)
    (hcalls : ∀ ref rsp req, action = .offer ref rsp ∨ action = .notify ref rsp ∨
      action = .finish ref rsp → c.find ref = some req →
        Bystander k c (invoke e ref req.cb rsp c).2) : Bystander k c c' := by
  cases hacts with
  | internal connected readings => exact .of_find rfl fun _ req' h => ⟨req', h, rfl⟩
  | submit submission => exact bystander_submit (hsubmit submission rfl) c
  | track ref reply blockCtx => exact bystander_modify c (fun _ _ => rfl) fun _ h => h
  | rearm ref pending => exact bystander_modify c (fun _ _ => rfl) fun _ h => h
  | send hfind => exact bystander_emit c _
  | offer hfind hobserve hterminal => exact hcalls _ _ _ (.inl rfl) hfind
  | notify hfind hobserve herr hnext =>
    exact (hcalls _ _ _ (.inr (.inl rfl)) hfind).trans
      (bystander_modify _ (fun _ _ => rfl) fun _ h => h)
  | finish hfind hterminal hobserve =>
    exact (hcalls _ _ _ (.inr (.inr rfl)) hfind).trans (bystander_coapReqCancelAndFree _ _)

/-- **Step.** If callbacks are bystanders when they are told of a failure, so is every operation
but the receipt of a packet. -/
theorem bystander_step (hwf : WellFormed c) {op : Op κ}
    (hfails : ∀ c ref req rsp, rsp.err ≠ 0 → c.find ref = some req →
      Bystander k c (invoke e ref req.cb rsp c).2)
    (hsubmit : ∀ submission, op = .submit submission → submission.cb ≠ some k)
    (hreceive : ∀ rx, op ≠ .processRx rx) (hstep : Step e op c c') : Bystander k c c' := by
  have hrun : (∀ action, Permits e c op action →
      (∀ submission, action = .submit submission → submission.cb ≠ some k) ∧
        ∀ ref rsp, action = .offer ref rsp ∨ action = .notify ref rsp ∨ action = .finish ref rsp →
          rsp.err ≠ 0) → Bystander k c c' := fun hpermits =>
    (perform_run hwf hstep).invariant (Bystander k c)
      (fun action s t haction h hacts => h.trans (hacts.bystander (hpermits action haction).1
        fun ref rsp req hcall hfind => hfails s ref req rsp
          ((hpermits action haction).2 ref rsp hcall) hfind)) (.refl c)
  apply hrun
  intro action haction
  cases op with
  | submit submission =>
    obtain rfl := haction
    exact ⟨fun submission' h => by cases h; exact hsubmit _ rfl, by simp⟩
  | processRx rx => exact absurd rfl (hreceive rx)
  | pollPrepare now visits =>
    rcases haction with rfl | ⟨ref, rfl | rfl | ⟨userData, rfl⟩⟩
    · simp
    · simp
    · simp
    · refine ⟨by simp, ?_⟩
      rintro _ _ (h | h | h) <;> cases h
      exact show -Errno.etimedout ≠ 0 by decide
  | onConnect =>
    obtain rfl := haction
    simp
  | onDisconnect =>
    rcases haction with rfl | ⟨ref, userData, rfl⟩
    · simp
    · refine ⟨by simp, ?_⟩
      rintro _ _ (h | h | h) <;> cases h
      exact show -Errno.eshutdown ≠ 0 by decide

/-- The receipt of a packet is a bystander, or comes down to the decision on it, after a bystander
that leaves the request as it was but for the notification noted. -/
theorem processRx_decides (hwf : WellFormed c) (hanswered : answered e rx c = some req) :
    coapReqProcessRx e rx c = c.tick ∨
      ∃ c₁ reply, WellFormed c₁ ∧ Bystander k c c₁ ∧ c₁.nextRef = c.nextRef ∧ c₁.log = c.log ∧
        c₁.find req.ref = some { req with reply := reply } ∧
        (∀ other, other ≠ req.ref → c₁.find other = c.find other) ∧
        coapReqProcessRx e rx c =
          (verdict e.zephyr req rx).carryOut e { req with reply := reply } c₁ := by
  have hfind := find_answered hwf hanswered
  unfold coapReqProcessRx
  simp only [hanswered]
  split
  · exact .inr ⟨c, req.reply, hwf, .refl c, rfl, rfl, hfind, fun _ _ => rfl,
      coapReqReplyHandler_eq e hwf hfind rx⟩
  · split
    · have hnoted : Acts e (.track req.ref) c.tick (c.tick.modify req.ref fun req' =>
          { req' with reply := ⟨coapGetOptionInt rx .observe, e.kUptimeGet c.readings⟩ }) :=
        .track req.ref (fun _ => _) id
      have hwf₁ := hnoted.wellFormed ⟨hwf.nodup, hwf.refs_lt, hwf.log_lt⟩
      have hfind₁ := find_track (c := c.tick) hfind
        (fun _ => { seq := coapGetOptionInt rx .observe, ts := e.kUptimeGet c.readings }) id
      refine .inr ⟨_, _, hwf₁, (bystander_tick c).trans
        (bystander_modify _ (fun _ _ => rfl) fun _ h => h), rfl, rfl, hfind₁, ?_,
        coapReqReplyHandler_eq e hwf₁ hfind₁ rx⟩
      intro other hother
      exact Client.find_modify_of_ne c.tick (fun _ h => h) hother
    · exact .inl rfl

/-- A decision is a bystander if the callback it calls is. -/
theorem bystander_carryOut (v : Verdict) (hfind : c.find req.ref = some req)
    (hinvoke : ∀ rsp c', c'.app = c.app → ListedWith req.ref req.cb c' →
      Bystander k c' (invoke e req.ref req.cb rsp c').2) : Bystander k c (v.carryOut e req c) := by
  have htracked : ∀ blockCtx, Bystander k c
      (c.modify req.ref fun req => { req with blockCtx := blockCtx }) := fun blockCtx =>
    bystander_modify c (fun _ _ => rfl) fun _ h => h
  have hcalled : ∀ blockCtx rsp, Bystander k c (invoke e req.ref req.cb rsp
      (c.modify req.ref fun req => { req with blockCtx := blockCtx })).2 := fun blockCtx rsp =>
    (htracked blockCtx).trans (hinvoke rsp _ rfl
      ⟨_, find_track hfind id fun _ => blockCtx, rfl⟩)
  cases v with
  | ignore blockCtx => exact htracked blockCtx
  | deliver blockCtx rsp err => exact (hcalled blockCtx rsp).trans (bystander_label _ _ _)
  | offer blockCtx rsp =>
    rw [Verdict.carryOut]
    split
    · exact (hcalled blockCtx rsp).trans (bystander_label _ _ _)
    · split
      · exact (hcalled blockCtx rsp).trans (bystander_label _ _ _)
      · exact hcalled blockCtx rsp

end Golioth.Requests
