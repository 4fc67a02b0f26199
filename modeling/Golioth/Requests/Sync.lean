/-
# Synchronous requests

`golioth_coap_req_sync` submits a request and waits on a semaphore that the
callback of the request gives. The data the two share are on the stack of the
caller, and nothing but the callback has their address while the call lasts. What
they hold is then what the invocations of the callback, in order, have made of
them.
-/
import Golioth.Requests.Following

namespace Golioth.Requests

open Golioth.Coap

variable {κ σ δ : Type} {e : Env κ σ}

/-- `struct golioth_req_sync_data`. `userData` is what the user data point to. -/
structure SyncData (δ : Type) where
  sem : Bool
  err : ℤ
  userData : δ

/-- How `golioth_req_sync_cb` returns: whether it has called `get_next`, whose
result it ignores, and the value. -/
structure SyncReturn where
  getNext : Bool
  ret : ℤ

/-- The callback as the request module sees it. -/
def SyncReturn.program (returned : SyncReturn) : CbProg κ σ :=
  if returned.getNext then .call (.getNext 0) fun _ => .ret returned.ret
  else .ret returned.ret

/-- `golioth_req_sync_cb`, for a call with the callback `cb`, if it has one. -/
def goliothReqSyncCb (cb : Option (Rsp → δ → ℤ × δ)) (rsp : Rsp) (syncData : SyncData δ) :
    SyncReturn × SyncData δ :=
  if rsp.err ≠ 0 then (⟨false, 0⟩, { syncData with err := rsp.err, sem := true })
  else
    let called :=
      match cb with
      | none => (0, syncData.userData)
      | some cb => cb rsp syncData.userData
    let syncData := { syncData with userData := called.2 }
    -- the error of the callback is returned here, but not stored for the caller
    if called.1 ≠ 0 then (⟨false, called.1⟩, { syncData with sem := true })
    else if rsp.getNext then (⟨true, 0⟩, syncData)
    else (⟨false, 0⟩, { syncData with sem := true })

/-- `golioth_coap_req_sync` after its request was accepted: what it returns, once
the semaphore has been given. -/
def goliothCoapReqSync (syncData : SyncData δ) : Option ℤ :=
  if syncData.sem then some (if syncData.err ≠ 0 then syncData.err else 0) else none

/-- The data of a call after some events of its request. -/
def SyncData.after (cb : Option (Rsp → δ → ℤ × δ)) (syncData : SyncData δ)
    (events : List Event) : SyncData δ :=
  (invocations events).foldl (fun syncData rsp => (goliothReqSyncCb cb rsp syncData).2) syncData

theorem SyncData.after_append (cb : Option (Rsp → δ → ℤ × δ)) (syncData : SyncData δ)
    (events rest : List Event) :
    syncData.after cb (events ++ rest) = (syncData.after cb events).after cb rest := by
  simp only [SyncData.after, invocations_append, List.foldl_append]

theorem SyncData.after_called (cb : Option (Rsp → δ → ℤ × δ)) (syncData : SyncData δ) (ref : ℕ)
    (rsp : Rsp) {events : List Event} (hquiet : invocations events = []) :
    syncData.after cb (.called ref rsp :: events) = (goliothReqSyncCb cb rsp syncData).2 := by
  simp only [SyncData.after, invocations, hquiet, List.foldl_cons, List.foldl_nil]

/-- A callback that only returns, or asks for the next block and then returns,
returns the value it says. -/
theorem ret_invoke_of_program {e : Env κ σ} {k : κ} {rsp : Rsp} {returned : SyncReturn}
    (hcode : e.code k rsp = returned.program) (ref : ℕ) (c : Client κ σ) :
    (invoke e ref (some k) rsp c).1 = returned.ret := by
  have hcallback : e.callback (some k) rsp = returned.program := hcode
  unfold invoke invokeLast
  split <;> rw [invokeWith, hcallback, SyncReturn.program] <;> split <;> rfl

/-! ## Any user callback

The callback of a call may be any program. What the call and its callback share
besides the user data is the semaphore and the error. -/

/-- The members of `struct golioth_req_sync_data` that are the call's own; `given`
counts how often the semaphore was given. -/
structure SyncState where
  given : ℕ
  err : ℤ
  deriving DecidableEq

/-- The state a call starts to wait in. -/
def SyncState.init : SyncState := ⟨0, 0⟩

/-- The call of the user callback, with the user data of the caller; zero if there
is none. -/
def userCall (user : Option (Rsp → CbProg κ σ)) (userData : ℕ) (rsp : Rsp) : CbProg κ σ :=
  match user with
  | none => .ret 0
  | some cb => cb { rsp with userData := userData }

/-- `golioth_req_sync_cb` around a user callback. The program returns the `int` and
the state it leaves. -/
def reqSyncCbProg (user : Option (Rsp → CbProg κ σ)) (userData : ℕ) (rsp : Rsp)
    (state : SyncState) : CS.Prog (CbCmd κ σ) CbCmd.Ans (ℤ × SyncState) :=
  let give : SyncState := { state with given := state.given + 1 }
  if rsp.err ≠ 0 then .ret (0, { give with err := rsp.err })
  else
    userCall user userData rsp >>= fun err =>
    if err ≠ 0 then .ret (err, give)
    else if rsp.getNext then .call (.getNext 0) fun _ => .ret (0, state)
    else .ret (0, give)

/-- The callback as the request module sees it, which is not shown the state. -/
def reqSyncCallback (user : Option (Rsp → CbProg κ σ)) (userData : ℕ) (rsp : Rsp)
    (state : SyncState) : CbProg κ σ :=
  (reqSyncCbProg user userData rsp state).bind fun result => .ret result.1

/-- The function pointer `k` is the callback of a call with the given user callback. -/
def RunsSync (e : Env κ σ) (k : κ) (user : Option (Rsp → CbProg κ σ)) (userData : ℕ) : Prop :=
  ∀ rsp state, e.code k rsp = reqSyncCallback user userData rsp state

/-- The value `golioth_req_sync_cb` returns does not depend on the state. -/
theorem reqSyncCallback_eq (user : Option (Rsp → CbProg κ σ)) (userData : ℕ) (rsp : Rsp)
    (state : SyncState) :
    reqSyncCallback user userData rsp state =
      if rsp.err ≠ 0 then .ret 0
      else (userCall user userData rsp).bind fun err =>
        if err ≠ 0 then .ret err
        else if rsp.getNext then .call (.getNext 0) fun _ => .ret 0
        else .ret 0 := by
  unfold reqSyncCallback reqSyncCbProg
  dsimp only
  split
  · rfl
  · refine (CS.Prog.bind_assoc _ _ _).trans (congrArg (CS.Prog.bind _) (funext fun err => ?_))
    change CS.Prog.bind _ _ = _
    split
    · rfl
    · split <;> rfl

theorem runsSync_of_init {k : κ} {user : Option (Rsp → CbProg κ σ)} {userData : ℕ}
    (hcode : ∀ rsp, e.code k rsp = reqSyncCallback user userData rsp .init) :
    RunsSync e k user userData := by
  intro rsp state
  rw [hcode, reqSyncCallback_eq, reqSyncCallback_eq]

/-- What `golioth_coap_req_sync` returns, given what submitting its request
returned: nothing as long as it waits for the semaphore. -/
def reqSyncReturn (submitted : ℤ) (state : SyncState) : Option ℤ :=
  if submitted ≠ 0 then some submitted
  else if state.given = 0 then none
  else some (if state.err ≠ 0 then state.err else 0)

/-- How the commands of a callback are answered, which depends on whether its
response carries `get_next`. -/
def answerFor (e : Env κ σ) (ref : ℕ) (rsp : Rsp) :
    (command : CbCmd κ σ) → Client κ σ → command.Ans × Client κ σ :=
  if rsp.getNext then answerWith e (coapReqNextBlock e ref) else answerWith e fun _ c => (0, c)

theorem invoke_eq (ref : ℕ) (cb : Option κ) (rsp : Rsp) (c : Client κ σ) :
    invoke e ref cb rsp c = invokeWith e (answerFor e ref rsp) ref cb rsp c := by
  unfold invoke answerFor invokeLast
  split <;> rfl

/-- An invocation of the callback on some client takes the state from one to the
next and returns the value. -/
def SyncRan (e : Env κ σ) (user : Option (Rsp → CbProg κ σ)) (userData ref : ℕ)
    (outcome : Rsp × ℤ) (state state' : SyncState) : Prop :=
  ∃ c : Client κ σ, ((reqSyncCbProg user userData outcome.1 state).run
    (answerFor e ref outcome.1) c).1 = (outcome.2, state')

/-- The state an invocation leaves, as far as its value tells. On a response
without error the value is that of the user callback. -/
def SyncState.next (state : SyncState) (outcome : Rsp × ℤ) : SyncState :=
  if outcome.1.err ≠ 0 then { given := state.given + 1, err := outcome.1.err }
  else if outcome.2 ≠ 0 ∨ outcome.1.getNext = false then
    { state with given := state.given + 1 }
  else state

theorem run_reqSyncCbProg (user : Option (Rsp → CbProg κ σ)) (userData : ℕ) (rsp : Rsp)
    (state : SyncState)
    (answer : (command : CbCmd κ σ) → Client κ σ → command.Ans × Client κ σ)
    (c : Client κ σ) :
    ((reqSyncCbProg user userData rsp state).run answer c).1.2 =
      state.next (rsp, ((reqSyncCbProg user userData rsp state).run answer c).1.1) := by
  unfold reqSyncCbProg SyncState.next
  by_cases herr : rsp.err = 0
  · simp only [herr, ne_eq, not_true_eq_false, if_false, CS.Prog.run_bind]
    split
    · next hret => simp [hret]
    · next hret =>
      split
      · next hnext => simp [hnext]
      · next hnext => simp [hnext]
  · simp [herr]

/-! ## What the values returned come from -/

/-- The responses a callback has returned from, with the values it returned. -/
def outcomes : List Event → List (Rsp × ℤ)
  | [] => []
  | .returned _ rsp ret :: events => (rsp, ret) :: outcomes events
  | _ :: events => outcomes events

@[simp] theorem outcomes_append (first second : List Event) :
    outcomes (first ++ second) = outcomes first ++ outcomes second := by
  induction first with
  | nil => rfl
  | cons event first ih => cases event <;> simp [outcomes, ih]

theorem outcomes_eq_nil {events : List Event}
    (h : ∀ event ∈ events, ∀ ref rsp ret, event ≠ .returned ref rsp ret) :
    outcomes events = [] := by
  induction events with
  | nil => rfl
  | cons event events ih =>
    have hrest := ih fun event hmem => h event (List.mem_cons_of_mem _ hmem)
    cases event with
    | returned ref rsp ret => exact absurd rfl (h _ List.mem_cons_self ref rsp ret)
    | scheduled ref observe err => exact hrest
    | called ref rsp => exact hrest
    | sent ref data => exact hrest
    | freed ref => exact hrest

variable {c c' : Client κ σ} {ref : ℕ} {k : κ} {user : Option (Rsp → CbProg κ σ)} {userData : ℕ}

/-- A request that is not an observation has the callback `k`, as long as it is
listed, and the values returned so far are what `k` returned. -/
structure CallsBack (e : Env κ σ) (k : κ) (ref : ℕ) (c : Client κ σ) : Prop where
  listed : ∀ req, c.find ref = some req → req.isObserve = false ∧ req.cb = some k
  returned : ∀ outcome ∈ outcomes (c.history ref),
    ∃ d, outcome.2 = (invoke e ref (some k) outcome.1 d).1

private theorem CallsBack.congr (h : CallsBack e k ref c) (hfind : c'.find ref = c.find ref)
    (hhistory : c'.history ref = c.history ref) : CallsBack e k ref c' :=
  ⟨by rw [hfind]; exact h.listed, by rw [hhistory]; exact h.returned⟩

private theorem CallsBack.modify (h : CallsBack e k ref c) {f : CoapReq κ → CoapReq κ}
    (hf : ∀ req, (f req).ref = req.ref ∧ (f req).isObserve = req.isObserve ∧
      (f req).cb = req.cb) : CallsBack e k ref (c.modify ref f) := by
  refine ⟨fun req hfind => ?_, h.returned⟩
  have hself : (c.modify ref f).find ref = (c.find ref).map f :=
    Client.find_modify_self c fun req href => (hf req).1.trans href
  rw [hself] at hfind
  obtain ⟨req', hfind', rfl⟩ := Option.map_eq_some_iff.mp hfind
  rw [(hf req').2.1, (hf req').2.2]
  exact h.listed req' hfind'

private theorem returned_invoke (h : CallsBack e k ref c) (hwf : WellFormed c)
    {req : CoapReq κ} (hfind : c.find ref = some req) (rsp : Rsp) :
    ∀ outcome ∈ outcomes ((invoke e ref req.cb rsp c).2.history ref),
      ∃ d, outcome.2 = (invoke e ref (some k) outcome.1 d).1 := by
  obtain ⟨hobserve, hcb⟩ := h.listed req hfind
  obtain ⟨events, hhistory, hquiet, -⟩ := history_invoke (e := e) hwf hfind req.cb rsp
  rw [hquiet (.inl hobserve), List.nil_append] at hhistory
  rw [hhistory, outcomes_append]
  intro outcome hmem
  rcases List.mem_append.mp hmem with hmem | hmem
  · exact h.returned outcome hmem
  · rw [List.mem_singleton.mp hmem, ← hcb]
    exact ⟨c, rfl⟩

/-- **Step.** An action adds only values the callback returned. -/
private theorem CallsBack.acts (h : CallsBack e k ref c) (hwf : WellFormed c)
    (hlt : ref < c.nextRef) {action : Action κ} (hacts : Acts e action c c') :
    CallsBack e k ref c' := by
  by_cases habout : action.about = some ref
  · cases hacts with
    | internal connected readings => cases habout
    | submit submission => cases habout
    | track ref' reply blockCtx =>
      obtain rfl := Option.some_inj.mp habout
      exact h.modify fun _ => ⟨rfl, rfl, rfl⟩
    | rearm ref' pending =>
      obtain rfl := Option.some_inj.mp habout
      exact h.modify fun _ => ⟨rfl, rfl, rfl⟩
    | @send _ ref' req hfind =>
      obtain rfl := Option.some_inj.mp habout
      refine ⟨h.listed, ?_⟩
      rw [Client.history_emit, if_pos (show (Event.sent ref' req.request.data).ref = ref' from rfl),
        outcomes_append]
      simpa [outcomes] using h.returned
    | @offer _ ref' req rsp hfind hobserve hterminal =>
      obtain rfl := Option.some_inj.mp habout
      refine ⟨fun req'' hfind'' => ?_, returned_invoke h hwf hfind rsp⟩
      obtain ⟨req', hfind', hprepared⟩ := find_invoke (e := e) hwf hfind req.cb rsp
      obtain rfl := Option.some_inj.mp (hfind'.symm.trans hfind'')
      rw [hprepared.same.isObserve, hprepared.same.cb]
      exact h.listed req hfind
    | @notify _ ref' req rsp hfind hobserve herr hnext =>
      obtain rfl := Option.some_inj.mp habout
      exact absurd ((h.listed req hfind).1.symm.trans hobserve) (by decide)
    | @finish _ ref' req rsp hfind hterminal hobserve =>
      obtain rfl := Option.some_inj.mp habout
      refine ⟨fun req' hfind' => ?_, ?_⟩
      · rw [find_coapReqCancelAndFree_self] at hfind'
        cases hfind'
      · rw [history_coapReqCancelAndFree, if_pos rfl, outcomes_append]
        simpa [outcomes] using returned_invoke h hwf hfind rsp
  · obtain ⟨hfind, hhistory⟩ := hacts.frame hwf hlt habout
    exact h.congr hfind hhistory

/-- A submission calls no callback. -/
theorem outcomes_submit (hwf : WellFormed c) (submission : Submission κ) :
    outcomes ((submit e submission c).2.history c.nextRef) = [] ∧
      ∀ event ∈ (submit e submission c).2.history c.nextRef, event.isCall = false := by
  have hquiet : ∀ event ∈ (submit e submission c).2.history c.nextRef,
      (∃ ref, event = .freed ref) ∨ ∃ ref observe err, event = .scheduled ref observe err := by
    intro event hmem
    cases (effect_submit (e := e) none hwf submission).fresh c.nextRef le_rfl
      (nextRef_lt_submit submission c) with
    | rejected observe err events herr hevents hnone hhistory =>
      rw [hhistory] at hmem
      rcases List.mem_append.mp hmem with hmem | hmem
      · exact .inl ⟨_, hevents event hmem⟩
      · exact .inr ⟨_, _, _, List.mem_singleton.mp hmem⟩
    | listed submission' req hbuilt hfind hhistory =>
      rw [hhistory] at hmem
      exact .inr ⟨_, _, _, List.mem_singleton.mp hmem⟩
  refine ⟨outcomes_eq_nil fun event hmem ref rsp ret => ?_, fun event hmem => ?_⟩
  · rcases hquiet event hmem with ⟨_, rfl⟩ | ⟨_, _, _, rfl⟩ <;> simp
  · rcases hquiet event hmem with ⟨_, rfl⟩ | ⟨_, _, _, rfl⟩ <;> rfl

/-- **Run.** The values returned for a request, from its submission on, are those of
its callback. -/
theorem callsBack_of_submit (hwf : WellFormed c) {submission : Submission κ}
    (hcb : submission.cb = some k) (hobserve : submission.observe = false)
    (hrun : CS.Reachable (Step e) (submit e submission c).2 c') :
    CallsBack e k c.nextRef c' := by
  have hsubmit := effect_submit (e := e) none hwf submission
  have hlt := nextRef_lt_submit (e := e) submission c
  have hquiet := outcomes_submit (e := e) hwf submission
  have hlisted : ∀ req, (submit e submission c).2.find c.nextRef = some req →
      req.isObserve = false ∧ req.cb = some k := by
    intro req hfind
    by_cases hok : (submit e submission c).1 = 0
    · obtain ⟨req', hbuilt, hfind'⟩ := (scheduled_of_submit hwf hok).listed
      obtain rfl := Option.some_inj.mp (hfind'.symm.trans hfind)
      exact ⟨hbuilt.isObserve.trans hobserve, hbuilt.cb.trans hcb⟩
    · rw [find_of_rejected hwf hok] at hfind
      cases hfind
  exact (hrun.invariant
    (fun d => WellFormed d ∧ c.nextRef < d.nextRef ∧ CallsBack e k c.nextRef d)
    ⟨hsubmit.wellFormed, hlt, hlisted, by simp [hquiet.1]⟩ fun _ _ _ hinv hstep =>
      (perform_run hinv.1 hstep).invariant
        (fun d => WellFormed d ∧ c.nextRef < d.nextRef ∧ CallsBack e k c.nextRef d)
        (fun _ _ _ _ hinv hacts =>
          ⟨hacts.wellFormed hinv.1, hinv.2.1.trans_le (hacts.nextRef_le hinv.1),
            hinv.2.2.acts hinv.1 hinv.2.1 hacts⟩) hinv).2.2

/-- The state of a call after invocations with these outcomes. -/
def SyncState.after (outcomes : List (Rsp × ℤ)) : SyncState :=
  outcomes.foldl SyncState.next .init

/-- Values the callback of a call returned are outcomes of `golioth_req_sync_cb`. -/
theorem syncRan_of_returned (hruns : RunsSync e k user userData) {outcomes : List (Rsp × ℤ)}
    (hreturned : ∀ outcome ∈ outcomes, ∃ d, outcome.2 = (invoke e ref (some k) outcome.1 d).1)
    (state : SyncState) :
    CS.Run (SyncRan e user userData ref) outcomes state (outcomes.foldl SyncState.next state) := by
  induction outcomes generalizing state with
  | nil => exact .nil state
  | cons outcome outcomes ih =>
    refine .cons ?_ (ih (fun outcome hmem => hreturned outcome (List.mem_cons_of_mem _ hmem)) _)
    obtain ⟨rsp, ret⟩ := outcome
    obtain ⟨d, hret⟩ := hreturned (rsp, ret) List.mem_cons_self
    have hcode : e.callback (some k) rsp = _ := hruns rsp state
    rw [invoke_eq, invokeWith, hcode] at hret
    have hvalue : ret = ((reqSyncCbProg user userData rsp state).run (answerFor e ref rsp)
        (d.emit (.called ref rsp))).1.1 :=
      hret.trans (congrArg Prod.fst (CS.Prog.run_bind (answerFor e ref rsp)
        (reqSyncCbProg user userData rsp state) (fun result => .ret result.1) _))
    refine ⟨d.emit (.called ref rsp), Prod.ext hvalue.symm ?_⟩
    rw [run_reqSyncCbProg, ← hvalue]

/-! ## What a call reports -/

/-- No user callback has returned an error. On a response without error
`golioth_req_sync_cb` returns what the user callback returned. -/
def UserSucceeded (outcomes : List (Rsp × ℤ)) : Prop :=
  ∀ outcome ∈ outcomes, outcome.1.err = 0 → outcome.2 = 0

/-- The last response was a successful one, and the final one. -/
def LastSucceeded (outcomes : List (Rsp × ℤ)) : Prop :=
  ∃ outcome, outcomes.getLast? = some outcome ∧ outcome.1.err = 0 ∧ outcome.1.getNext = false

/-- A call reports failure: it returns zero only after a successful final response,
and with all user callbacks successful; it returns an error after an error
response or an error of the user callback; and the semaphore is given once, when
the request ends, after which the callback is not called. -/
structure ReportsFailure (submitted : ℤ) (listed : Prop) (events : List Event) : Prop where
  success : reqSyncReturn submitted (.after (outcomes events)) = some 0 →
    LastSucceeded (outcomes events) ∧ UserSucceeded (outcomes events)
  failure : (∃ outcome ∈ outcomes events, outcome.1.err ≠ 0 ∨ outcome.2 ≠ 0) →
    ∃ err, reqSyncReturn submitted (.after (outcomes events)) = some err ∧ err ≠ 0
  released : if submitted ≠ 0 then ∀ event ∈ events, event.isCall = false
    else (listed ∧ (SyncState.after (outcomes events)).given = 0) ∨
      (¬ listed ∧ (SyncState.after (outcomes events)).given = 1 ∧ EndedOnce events)

/-- An invocation leaves the state as it is unless it is a terminal one. -/
theorem SyncState.next_of_not_terminal (state : SyncState) {outcome : Rsp × ℤ}
    (h : ¬ Terminal outcome.1 outcome.2) : state.next outcome = state := by
  rw [Terminal, not_or, not_or] at h
  rw [next, if_neg (by simpa using h.1), if_neg]
  rintro (hret | hnext)
  · exact h.2.2 hret
  · exact h.2.1 hnext

/-- A terminal invocation gives the semaphore, and stores the error of its response. -/
theorem SyncState.next_of_terminal {state : SyncState} (herr : state.err = 0)
    {outcome : Rsp × ℤ} (h : Terminal outcome.1 outcome.2) :
    state.next outcome = { given := state.given + 1, err := outcome.1.err } := by
  rw [next]
  by_cases hne : outcome.1.err = 0
  · rw [if_neg (by simpa using hne), if_pos ?_, hne, herr]
    rcases h with h | h | h
    · exact absurd hne h
    · exact .inr h
    · exact .inl h
  · rw [if_pos hne]

private theorem outcomes_not_terminal {events : List Event}
    (hcount : events.countP Event.isTerminal = 0) :
    ∀ outcome ∈ outcomes events, ¬ Terminal outcome.1 outcome.2 := by
  induction events with
  | nil => simp [outcomes]
  | cons event events ih =>
    rw [List.countP_cons, Nat.add_eq_zero_iff] at hcount
    intro outcome hmem
    cases event with
    | returned ref rsp ret =>
      rcases List.mem_cons.mp hmem with rfl | hmem
      · intro hterminal
        simp [Event.isTerminal, hterminal] at hcount
      · exact ih hcount.1 outcome hmem
    | scheduled ref observe err => exact ih hcount.1 outcome hmem
    | called ref rsp => exact ih hcount.1 outcome hmem
    | sent ref data => exact ih hcount.1 outcome hmem
    | freed ref => exact ih hcount.1 outcome hmem

private theorem after_not_terminal {os : List (Rsp × ℤ)}
    (h : ∀ outcome ∈ os, ¬ Terminal outcome.1 outcome.2) (state : SyncState) :
    os.foldl SyncState.next state = state := by
  induction os with
  | nil => rfl
  | cons outcome os ih =>
    rw [List.foldl_cons, state.next_of_not_terminal (h outcome List.mem_cons_self)]
    exact ih fun outcome hmem => h outcome (List.mem_cons_of_mem _ hmem)

private theorem success_of_not_terminal {outcome : Rsp × ℤ}
    (h : ¬ Terminal outcome.1 outcome.2) : outcome.1.err = 0 ∧ outcome.2 = 0 := by
  rw [Terminal, not_or, not_or] at h
  exact ⟨not_not.mp h.1, not_not.mp h.2.2⟩

/-- A call whose request is listed is waiting, and nothing has failed. -/
private theorem reportsFailure_of_live {events : List Event}
    (hcount : events.countP Event.isTerminal = 0) {listed : Prop} (hlisted : listed) :
    ReportsFailure 0 listed events ∧ UserSucceeded (outcomes events) := by
  have hquiet := outcomes_not_terminal hcount
  have hafter : SyncState.after (outcomes events) = .init := after_not_terminal hquiet .init
  refine ⟨⟨fun h => ?_, ?_, .inl ⟨hlisted, by rw [hafter]; rfl⟩⟩,
    fun outcome hmem _ => (success_of_not_terminal (hquiet outcome hmem)).2⟩
  · rw [hafter] at h
    cases h
  · rintro ⟨outcome, hmem, hfailed⟩
    obtain ⟨herr, hret⟩ := success_of_not_terminal (hquiet outcome hmem)
    exact absurd hfailed (by simp [herr, hret])

/-- A call whose request has ended reports failure if and only if the user
callbacks succeeded: the error of a user callback is not stored. -/
private theorem reportsFailure_of_freed {events : List Event}
    (hphase : Phase.after events = .freed) {listed : Prop} (hlisted : ¬ listed) :
    ReportsFailure 0 listed events ↔ UserSucceeded (outcomes events) := by
  obtain ⟨before, ref, rsp, ret, ref', hevents, hterminal, hcount⟩ := Phase.of_after_freed hphase
  have hended : EndedOnce events := by
    have hdescribes := Phase.describes_after events
    rw [hphase] at hdescribes
    exact hdescribes.2.1
  have houtcomes : outcomes events = outcomes before ++ [(rsp, ret)] := by
    rw [hevents, outcomes_append]
    rfl
  have hquiet := outcomes_not_terminal hcount
  have hafter : SyncState.after (outcomes events) = ⟨1, rsp.err⟩ := by
    rw [houtcomes, SyncState.after, List.foldl_append, after_not_terminal hquiet]
    exact SyncState.next_of_terminal rfl hterminal
  have hreturn : reqSyncReturn 0 (.after (outcomes events)) = some rsp.err := by
    rw [hafter, reqSyncReturn, if_neg (by simp), if_neg (by simp)]
    split
    · rfl
    · next h => exact congrArg some (not_not.mp h).symm
  constructor
  · intro h outcome hmem herr
    by_contra hret
    obtain ⟨err, heq, hne⟩ := h.failure ⟨outcome, hmem, .inr hret⟩
    rw [hreturn, Option.some_inj] at heq
    -- the failed invocation is terminal, so that it is the last one
    rw [houtcomes] at hmem
    rcases List.mem_append.mp hmem with hmem | hmem
    · exact hquiet outcome hmem (.inr (.inr hret))
    · rw [List.mem_singleton.mp hmem] at herr
      exact hne (heq ▸ herr)
  · intro huser
    refine ⟨fun h => ?_, ?_, .inr ⟨hlisted, by rw [hafter], hended⟩⟩
    · rw [hreturn, Option.some_inj] at h
      refine ⟨⟨(rsp, ret), by rw [houtcomes, List.getLast?_concat], h, ?_⟩, huser⟩
      have hret := huser (rsp, ret) (by rw [houtcomes]; simp) h
      rcases hterminal with herr | hnext | hne
      · exact absurd h herr
      · exact hnext
      · exact absurd hret hne
    · rintro ⟨outcome, hmem, hfailed⟩
      refine ⟨rsp.err, hreturn, fun herr => ?_⟩
      have hret := huser outcome hmem
      rw [houtcomes] at hmem
      rcases List.mem_append.mp hmem with hmem | hmem
      · exact hquiet outcome hmem (hfailed.imp_right .inr)
      · rw [List.mem_singleton.mp hmem] at hfailed hret
        exact hfailed.elim (fun h => h herr) fun h => h (hret herr)

/-- **When a call reports failure.** Let `golioth_coap_req_sync` be called without
the observe flag, in any reachable state, and consider any state reached from
there. What the call returns is determined by the invocations of its callback; it
reports failure if and only if no user callback has returned an error. -/
theorem reportsFailure_iff {app : σ} (hreach : Reachable e app c) {args : ReqArgs κ}
    (hflag : args.flagObserve = false) (hcb : args.cb = some k)
    (hruns : RunsSync e k user userData)
    (hlater : CS.Reachable (Step e) (submit e (.reqCb args) c).2 c') :
    CS.Run (SyncRan e user userData c.nextRef) (outcomes (c'.history c.nextRef)) .init
        (.after (outcomes (c'.history c.nextRef))) ∧
      (ReportsFailure (submit e (.reqCb args) c).1 (c.nextRef ∈ c'.refs)
          (c'.history c.nextRef) ↔
        UserSucceeded (outcomes (c'.history c.nextRef))) := by
  have hwf := wellFormed_of_reachable hreach
  have hobserve : (Submission.reqCb args).observe = false := by simp [Submission.observe, hflag]
  have hsubmitted : Reachable e app (submit e (.reqCb args) c).2 :=
    hreach.snoc (show Step e (.submit (.reqCb args)) c _ from rfl)
  have hcalls : CallsBack e k c.nextRef c' :=
    callsBack_of_submit hwf (show (Submission.reqCb args).cb = some k from hcb) hobserve hlater
  have hlt := nextRef_lt_submit (e := e) (.reqCb args) c
  have hwf' := wellFormed_of_reachable hsubmitted
  refine ⟨syncRan_of_returned hruns hcalls.returned .init, ?_⟩
  by_cases hok : (submit e (.reqCb args) c).1 = 0
  · have hinv := lifecycle_of_reachable (hsubmitted.trans hlater)
    obtain ⟨-, hlt', hstart⟩ := history_prefix hwf' hlt hlater
    have hsettled := hinv.settled c.nextRef hlt'
    have hdescribes := Phase.describes_after (c'.history c.nextRef)
    rw [hok]
    cases hfind : c'.find c.nextRef with
    | some req =>
      have hphase := (settled_of_find hfind).mp hsettled
      rw [(hcalls.listed req hfind).1, if_neg (by simp)] at hphase
      rw [← Client.phase, hphase] at hdescribes
      obtain ⟨hreports, huser⟩ := reportsFailure_of_live hdescribes.2.1
        (c'.mem_refs_iff.mpr ⟨req, hfind⟩)
      exact ⟨fun _ => huser, fun _ => hreports⟩
    | none =>
      have hscheduled : .scheduled c.nextRef false 0 ∈ c'.history c.nextRef := by
        refine hstart.subset ?_
        rw [(scheduled_of_submit hwf hok).history, hobserve]
        exact List.mem_singleton_self _
      rw [← Client.phase] at hdescribes
      rcases (settled_of_find_none hfind).mp hsettled with hphase | hphase | hphase
      · rw [hphase] at hdescribes
        exact absurd rfl (hdescribes.2 _ _ _ hscheduled)
      · exact reportsFailure_of_freed hphase (c'.find_eq_none_iff.mp hfind)
      · rw [hphase] at hdescribes
        exact absurd (hdescribes _ _ _ hscheduled) (by simp)
  · -- the request was turned away, and nothing has happened to it since
    obtain ⟨houtcomes, hcalls⟩ := outcomes_submit (e := e) hwf (.reqCb args)
    obtain ⟨-, hhistory⟩ := unchanged_of_unlisted hwf' hlt (find_of_rejected hwf hok) hlater
    have hreturn : ∀ state, reqSyncReturn (submit e (.reqCb args) c).1 state =
        some (submit e (.reqCb args) c).1 := fun _ => if_pos hok
    rw [hhistory]
    refine ⟨fun _ => by simp [UserSucceeded, houtcomes], fun _ => ⟨fun h => ?_, ?_, ?_⟩⟩
    · rw [hreturn, Option.some_inj] at h
      exact absurd h hok
    · rw [houtcomes]
      simp
    · rw [if_pos hok]
      exact hcalls

/-- The calm environment with a synchronous call whose user callback has no room for
the data. -/
def Env.refusing : Env Unit Unit := .calm fun _ rsp =>
  reqSyncCallback (some fun _ => .ret (-Errno.enospc)) 0 rsp .init

/-- A connected client. -/
def refusingStart : Client Unit Unit := coapReqsOnConnect (Client.init ())

/-- Three bytes in answer to the first request. -/
def threeBytes : RxPacket where
  type := .ack
  code := 69
  id := 4
  token := firstToken
  options := []
  payload := [1, 2, 3]

/-- The client after the call was answered. -/
def refusingEnd : Client Unit Unit :=
  coapReqProcessRx .refusing threeBytes (submit .refusing (.getA () false) refusingStart).2

/-- The user callback returned an error, and the call returns zero. -/
theorem refusingEnd_unreported :
    (∃ outcome ∈ outcomes (refusingEnd.history 0), outcome.1.err = 0 ∧ outcome.2 ≠ 0) ∧
      reqSyncReturn 0 (.after (outcomes (refusingEnd.history 0))) = some 0 ∧
      ¬ ReportsFailure 0 (0 ∈ refusingEnd.refs) (refusingEnd.history 0) := by
  have houtcome : (({ data := [1, 2, 3], off := 0, total := 3, userData := 7 } : Rsp),
      -Errno.enospc) ∈ outcomes (refusingEnd.history 0) := by decide
  have hreturn : reqSyncReturn 0 (.after (outcomes (refusingEnd.history 0))) = some 0 := by decide
  have hfailed : -Errno.enospc ≠ 0 := by decide
  refine ⟨⟨_, houtcome, rfl, hfailed⟩, hreturn, fun h => ?_⟩
  obtain ⟨err, heq, hne⟩ := h.failure ⟨_, houtcome, .inr hfailed⟩
  exact hne (Option.some_inj.mp (heq.symm.trans hreturn))

theorem reportsFailure_iff_refusing :
    ReportsFailure 0 (0 ∈ refusingEnd.refs) (refusingEnd.history 0) ↔
      UserSucceeded (outcomes (refusingEnd.history 0)) := by
  have hreach : Reachable .refusing () refusingStart := ⟨[.onConnect], .single rfl⟩
  have hlater : CS.Reachable (Step .refusing) (submit .refusing (.getA () false) refusingStart).2
      refusingEnd := ⟨[.processRx threeBytes], .single rfl⟩
  exact (reportsFailure_iff hreach rfl rfl (runsSync_of_init fun _ => rfl) hlater).2

end Golioth.Requests
