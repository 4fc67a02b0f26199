/-
# The life of a request

A request that was scheduled is on the list until a terminal invocation of its
callback, which is followed by its removal; after that nothing happens to it.
The life of a request is an automaton that reads the events about it. The
invariant says, for every address, that the automaton is where the list says the
request is.
-/
import Mathlib.Data.List.Induction
import Golioth.Requests.Actions

namespace Golioth.Requests

open Golioth.Coap

variable {κ σ : Type}

/-! ## Phases -/

/-- Where a request is in its life. Observations are followed up to their
scheduling only. -/
inductive Phase
  | unscheduled
  | dropped
  | rejected
  | observed
  | live
  | running (rsp : Rsp)
  | ended
  | freed
  | broken
  deriving DecidableEq

/-- How an event about a request changes its phase; `broken` is reached by the
orders of events that do not happen. -/
def Phase.next : Phase → Event → Phase
  | .unscheduled, .freed _ => .dropped
  | .dropped, .freed _ => .dropped
  | .unscheduled, .scheduled _ observe err =>
    if err ≠ 0 then .rejected else if observe then .observed else .live
  | .dropped, .scheduled _ _ err => if err ≠ 0 then .rejected else .broken
  | .observed, .called _ _ => .observed
  | .observed, .returned _ _ _ => .observed
  | .observed, .sent _ _ => .observed
  | .observed, .freed _ => .observed
  | .live, .sent _ _ => .live
  | .live, .called _ rsp => .running rsp
  | .running rsp, .returned _ rsp' ret =>
    if rsp' ≠ rsp then .broken else if Terminal rsp ret then .ended else .live
  | .ended, .freed _ => .freed
  | _, _ => .broken

/-- The phase a history leads to. -/
def Phase.after (history : List Event) : Phase := history.foldl Phase.next .unscheduled

theorem Phase.after_append (history events : List Event) :
    Phase.after (history ++ events) = events.foldl Phase.next (Phase.after history) :=
  List.foldl_append

/-- Whether an event is the return of a terminal invocation. -/
def Event.isTerminal : Event → Bool
  | .returned _ rsp ret => Terminal rsp ret
  | _ => false

/-- Whether an event is an invocation. -/
def Event.isCall : Event → Bool
  | .called _ _ => true
  | _ => false

/-- Whether an event is a release. -/
def Event.isFree : Event → Bool
  | .freed _ => true
  | _ => false

/-- The invocations in a history ended with a terminal one. -/
def EndedOnce (history : List Event) : Prop :=
  history.countP Event.isTerminal = 1 ∧
    ∃ before ref rsp ret after, history = before ++ .returned ref rsp ret :: after ∧
      Terminal rsp ret ∧ ∀ event ∈ after, event.isCall = false

/-- What a phase says about the history that led to it. -/
def Phase.Describes (history : List Event) : Phase → Prop
  | .unscheduled => history = []
  | .dropped => ∀ event ∈ history, ∃ ref, event = .freed ref
  | .rejected => (∀ event ∈ history, event.isCall = false) ∧
      ∀ ref observe err, .scheduled ref observe err ∈ history → err ≠ 0
  | .observed => ∀ ref observe err, .scheduled ref observe err ∈ history → observe = true
  | .live | .running _ =>
    (∀ ref observe err, .scheduled ref observe err ∈ history → err = 0) ∧
      history.countP Event.isTerminal = 0 ∧ history.countP Event.isFree = 0
  | .ended =>
    (∀ ref observe err, .scheduled ref observe err ∈ history → err = 0) ∧
      EndedOnce history ∧ history.countP Event.isFree = 0
  | .freed =>
    (∀ ref observe err, .scheduled ref observe err ∈ history → err = 0) ∧
      EndedOnce history ∧ history.countP Event.isFree = 1
  | .broken => True

private theorem EndedOnce.snoc_freed {history : List Event} (h : EndedOnce history)
    (ref : ℕ) : EndedOnce (history ++ [.freed ref]) := by
  obtain ⟨hcount, before, ref', rsp, ret, after, rfl, hterminal, hafter⟩ := h
  refine ⟨by rw [List.countP_append, hcount]; rfl, before, ref', rsp, ret,
    after ++ [.freed ref], by simp, hterminal, fun event hmem => ?_⟩
  rcases List.mem_append.mp hmem with hmem | hmem
  · exact hafter event hmem
  · rw [List.mem_singleton.mp hmem]
    rfl

private theorem endedOnce_returned {history : List Event}
    (hcount : history.countP Event.isTerminal = 0) (ref : ℕ) {rsp : Rsp} {ret : ℤ}
    (hterminal : Terminal rsp ret) : EndedOnce (history ++ [.returned ref rsp ret]) := by
  refine ⟨?_, history, ref, rsp, ret, [], rfl, hterminal, by simp⟩
  rw [List.countP_append, hcount]
  simp [Event.isTerminal, hterminal]

/-- **Step.** A phase describes the history it was reached by, whatever happens
next. -/
theorem Phase.describes_next {history : List Event} {phase : Phase}
    (h : phase.Describes history) (event : Event) :
    (phase.next event).Describes (history ++ [event]) := by
  cases phase with
  | broken => cases event <;> trivial
  | freed => cases event <;> trivial
  | rejected => cases event <;> trivial
  | unscheduled =>
    -- the first event decides: only a request that was scheduled goes on
    obtain rfl : history = [] := h
    cases event with
    | called ref rsp => trivial
    | returned ref rsp ret => trivial
    | sent ref data => trivial
    | freed ref => simp [Phase.next, Phase.Describes]
    | scheduled ref observe err =>
      rw [Phase.next]
      split
      · next herr =>
        refine ⟨by simp [Event.isCall], fun ref' observe' err' hmem => ?_⟩
        cases List.mem_singleton.mp hmem
        exact herr
      · next herr =>
        split
        · next hobserve =>
          -- a failed submission of an observation
          intro ref' observe' err' hmem
          cases List.mem_singleton.mp hmem
          exact hobserve
        · refine ⟨fun ref' observe' err' hmem => ?_, rfl, rfl⟩
          cases List.mem_singleton.mp hmem
          exact not_not.mp herr
  | dropped =>
    cases event with
    | called ref rsp => trivial
    | returned ref rsp ret => trivial
    | sent ref data => trivial
    | freed ref =>
      intro event hmem
      rcases List.mem_append.mp hmem with hmem | hmem
      · exact h event hmem
      · exact ⟨ref, List.mem_singleton.mp hmem⟩
    | scheduled ref observe err =>
      rw [Phase.next]
      split
      · next herr =>
        refine ⟨fun event hmem => ?_, fun ref' observe' err' hmem => ?_⟩
        · rcases List.mem_append.mp hmem with hmem | hmem
          · obtain ⟨ref', rfl⟩ := h event hmem
            rfl
          · rw [List.mem_singleton.mp hmem]
            rfl
        · rcases List.mem_append.mp hmem with hmem | hmem
          · obtain ⟨ref', hfreed⟩ := h _ hmem
            cases hfreed
          · cases List.mem_singleton.mp hmem
            exact herr
      · trivial
  | observed => cases event <;> simp_all [Phase.next, Phase.Describes]
  | live =>
    obtain ⟨hsched, hterminal, hfree⟩ := h
    cases event with
    | scheduled ref observe err => trivial
    | freed ref => trivial
    | returned ref rsp ret => trivial
    | sent ref data =>
      exact ⟨by simpa using hsched, by simpa [Event.isTerminal] using hterminal,
        by simpa [Event.isFree] using hfree⟩
    | called ref rsp =>
      exact ⟨by simpa using hsched, by simpa [Event.isTerminal] using hterminal,
        by simpa [Event.isFree] using hfree⟩
  | running rsp =>
    obtain ⟨hsched, hterminal, hfree⟩ := h
    cases event with
    | scheduled ref observe err => trivial
    | freed ref => trivial
    | called ref rsp' => trivial
    | sent ref data => trivial
    | returned ref rsp' ret =>
      rw [Phase.next]
      split
      · trivial
      · next hrsp =>
        obtain rfl := not_not.mp hrsp
        split
        · next hlast =>
          exact ⟨by simpa using hsched, endedOnce_returned hterminal ref hlast,
            by simpa [Event.isFree] using hfree⟩
        · next hlast =>
          exact ⟨by simpa using hsched, by simpa [Event.isTerminal, hlast] using hterminal,
            by simpa [Event.isFree] using hfree⟩
  | ended =>
    obtain ⟨hsched, hended, hfree⟩ := h
    cases event with
    | scheduled ref observe err => trivial
    | called ref rsp => trivial
    | returned ref rsp ret => trivial
    | sent ref data => trivial
    | freed ref =>
      refine ⟨by simpa using hsched, hended.snoc_freed ref, ?_⟩
      -- the only free there is
      rw [List.countP_append, hfree]
      rfl

theorem Phase.describes_after (history : List Event) :
    (Phase.after history).Describes history := by
  induction history using List.reverseRecOn with
  | nil => rfl
  | append_singleton history event ih =>
    rw [Phase.after_append]
    exact Phase.describes_next ih event

/-- A request is freed by the event after its terminal invocation, the first one
there was. -/
theorem Phase.of_after_freed {history : List Event} (h : Phase.after history = .freed) :
    ∃ before ref rsp ret ref', history = before ++ [.returned ref rsp ret, .freed ref'] ∧
      Terminal rsp ret ∧ before.countP Event.isTerminal = 0 := by
  have hfreed : ∀ (phase : Phase) (event : Event), phase.next event = .freed →
      phase = .ended ∧ ∃ ref, event = .freed ref := by
    intro phase event hnext
    cases phase <;> cases event <;> simp only [Phase.next] at hnext
    all_goals try split_ifs at hnext
    all_goals first | exact ⟨rfl, _, rfl⟩ | cases hnext
  have hended : ∀ (phase : Phase) (event : Event), phase.next event = .ended →
      ∃ ref rsp ret, phase = .running rsp ∧ event = .returned ref rsp ret ∧ Terminal rsp ret := by
    intro phase event hnext
    cases phase <;> cases event <;> simp only [Phase.next] at hnext
    all_goals try split_ifs at hnext
    all_goals first
      | next hrsp hterminal =>
        obtain rfl := not_not.mp hrsp
        exact ⟨_, _, _, rfl, rfl, hterminal⟩
      | cases hnext
  rcases List.eq_nil_or_concat history with rfl | ⟨history, event, rfl⟩
  · cases h
  · rw [List.concat_eq_append, Phase.after_append] at h
    obtain ⟨hphase, ref', rfl⟩ := hfreed _ _ h
    rcases List.eq_nil_or_concat history with rfl | ⟨history, event, rfl⟩
    · cases hphase
    · rw [List.concat_eq_append, Phase.after_append] at hphase
      obtain ⟨ref, rsp, ret, hrunning, rfl, hterminal⟩ := hended _ _ hphase
      have hdescribes := Phase.describes_after history
      rw [hrunning] at hdescribes
      exact ⟨history, ref, rsp, ret, ref', by simp, hterminal, hdescribes.2.1⟩

/-! ## The invariant -/

/-- The phase of a request. -/
def Client.phase (c : Client κ σ) (ref : ℕ) : Phase := Phase.after (c.history ref)

/-- The list and the log agree about an address. -/
def Settled (c : Client κ σ) (ref : ℕ) : Prop :=
  match c.find ref with
  | some req => c.phase ref = if req.isObserve then .observed else .live
  | none => c.phase ref = .rejected ∨ c.phase ref = .freed ∨ c.phase ref = .observed

/-- The invariant: the list and the log agree about every address. -/
structure Lifecycle (c : Client κ σ) : Prop where
  wellFormed : WellFormed c
  settled : ∀ ref < c.nextRef, Settled c ref

section Invariant

variable {e : Env κ σ} {c c' : Client κ σ} {ref : ℕ} {req : CoapReq κ}

theorem settled_of_find (hfind : c.find ref = some req) :
    Settled c ref ↔ c.phase ref = if req.isObserve then .observed else .live := by
  rw [Settled, hfind]

theorem settled_of_find_none (hfind : c.find ref = none) :
    Settled c ref ↔
      c.phase ref = .rejected ∨ c.phase ref = .freed ∨ c.phase ref = .observed := by
  rw [Settled, hfind]

theorem Settled.congr (h : Settled c ref) (hfind : c'.find ref = c.find ref)
    (hhistory : c'.history ref = c.history ref) : Settled c' ref := by
  rw [Settled, Client.phase, hfind, hhistory]
  exact h

theorem Settled.modify (h : Settled c ref) {f : CoapReq κ → CoapReq κ}
    (hf : ∀ req, (f req).ref = req.ref) (hobserve : ∀ req, (f req).isObserve = req.isObserve) :
    Settled (c.modify ref f) ref := by
  have hfind : (c.modify ref f).find ref = (c.find ref).map f :=
    Client.find_modify_self c fun req href => (hf req).trans href
  cases hreq : c.find ref with
  | none =>
    rw [hreq] at hfind
    exact (settled_of_find_none hfind).mpr ((settled_of_find_none hreq).mp h)
  | some req =>
    rw [hreq] at hfind
    rw [settled_of_find hfind, hobserve]
    exact (settled_of_find hreq).mp h

private theorem foldl_next_dropped {events : List Event}
    (hevents : ∀ event ∈ events, event = .freed ref) :
    ∀ {phase : Phase}, phase = .unscheduled ∨ phase = .dropped →
      events.foldl Phase.next phase = .unscheduled ∨
        events.foldl Phase.next phase = .dropped := by
  induction events with
  | nil => exact fun h => h
  | cons event events ih =>
    intro phase hphase
    have hevent := hevents event List.mem_cons_self
    refine ih (fun event hmem => hevents event (List.mem_cons_of_mem _ hmem)) (.inr ?_)
    rcases hphase with rfl | rfl <;> rw [hevent] <;> rfl

theorem Fresh.settled (hfresh : Fresh e c ref) : Settled c ref := by
  cases hfresh with
  | rejected observe err events herr hevents hnone hhistory =>
    rw [settled_of_find_none hnone, Client.phase, hhistory, Phase.after_append]
    refine .inl ?_
    rcases foldl_next_dropped hevents (.inl rfl) with h | h
    · rw [Phase.after, h]
      simp [Phase.next, herr]
    · rw [Phase.after, h]
      simp [Phase.next, herr]
  | listed submission req hbuilt hfind hhistory =>
    rw [settled_of_find hfind, Client.phase, hhistory, hbuilt.isObserve]
    cases submission.observe <;> rfl

/-- The phases an invocation goes through: for a request that is not an
observation, on to the next one or to the end. -/
theorem phase_invoke (hwf : WellFormed c) (hfind : c.find ref = some req)
    (hsettled : Settled c ref) (cb : Option κ) (rsp : Rsp) :
    Phase.after ((invoke e ref cb rsp c).2.history ref) =
      if req.isObserve then .observed
      else if Terminal rsp (invoke e ref cb rsp c).1 then .ended else .live := by
  obtain ⟨events, hhistory, hquiet, hkind⟩ := history_invoke (e := e) hwf hfind cb rsp
  have hphase := (settled_of_find hfind).mp hsettled
  rw [Client.phase] at hphase
  rw [hhistory, Phase.after_append, hphase]
  cases hobserve : req.isObserve with
  | false =>
    rw [hquiet (.inl hobserve)]
    simp [Phase.next]
  | true =>
    have hevents : events.foldl Phase.next .observed = .observed := by
      clear hhistory hquiet
      induction events with
      | nil => rfl
      | cons event events ih =>
        obtain ⟨rsp, ret, rfl | rfl⟩ := hkind event List.mem_cons_self
        · exact ih fun event hmem => hkind event (List.mem_cons_of_mem _ hmem)
        · exact ih fun event hmem => hkind event (List.mem_cons_of_mem _ hmem)
    simp [Phase.next, hevents]

/-- **Step.** The request an action is about stays settled. -/
theorem settled_about {action : Action κ} (hacts : Acts e action c c') (hwf : WellFormed c)
    (habout : action.about = some ref) (hsettled : Settled c ref) : Settled c' ref := by
  cases hacts with
  | internal connected readings => cases habout
  | submit submission => cases habout
  | track ref' reply blockCtx =>
    obtain rfl := Option.some_inj.mp habout
    exact hsettled.modify (fun _ => rfl) fun _ => rfl
  | rearm ref' pending =>
    obtain rfl := Option.some_inj.mp habout
    exact hsettled.modify (fun _ => rfl) fun _ => rfl
  | @send _ ref' req hfind =>
    obtain rfl := Option.some_inj.mp habout
    have hphase := (settled_of_find hfind).mp hsettled
    rw [Client.phase] at hphase
    rw [settled_of_find (c := c.emit _) hfind, Client.phase, Client.history_emit,
      if_pos (by rfl), Phase.after_append, hphase]
    cases req.isObserve <;> rfl
  | @offer _ ref' req rsp hfind hobserve hterminal =>
    obtain rfl := Option.some_inj.mp habout
    obtain ⟨req', hfind', hprepared⟩ := find_invoke (e := e) hwf hfind req.cb rsp
    rw [settled_of_find hfind', Client.phase, phase_invoke hwf hfind hsettled,
      hprepared.same.isObserve, hobserve, if_neg (by simp), if_neg hterminal, if_neg (by simp)]
  | @notify _ ref' req rsp hfind hobserve herr hnext =>
    obtain rfl := Option.some_inj.mp habout
    obtain ⟨req', hfind', hprepared⟩ := find_invoke (e := e) hwf hfind req.cb rsp
    refine Settled.modify ?_ (fun _ => rfl) fun _ => rfl
    rw [settled_of_find hfind', Client.phase, phase_invoke hwf hfind hsettled,
      hprepared.same.isObserve, hobserve]
    rfl
  | @finish _ ref' req rsp hfind hterminal hobserve =>
    obtain rfl := Option.some_inj.mp habout
    rw [settled_of_find_none (find_coapReqCancelAndFree_self _), Client.phase,
      history_coapReqCancelAndFree, if_pos rfl, Phase.after_append,
      phase_invoke hwf hfind hsettled]
    cases hobserve : req.isObserve with
    | false => exact .inr (.inl (by simp [hterminal, Phase.next]))
    | true => exact .inr (.inr rfl)

theorem Lifecycle.acts {action : Action κ} (hinv : Lifecycle c) (hacts : Acts e action c c') :
    Lifecycle c' := by
  refine ⟨hacts.wellFormed hinv.wellFormed, fun ref hlt => ?_⟩
  by_cases hold : ref < c.nextRef
  · by_cases habout : action.about = some ref
    · exact settled_about hacts hinv.wellFormed habout (hinv.settled ref hold)
    · obtain ⟨hfind, hhistory⟩ := hacts.frame hinv.wellFormed hold habout
      exact (hinv.settled ref hold).congr hfind hhistory
  · exact (hacts.fresh hinv.wellFormed (not_lt.mp hold) hlt).settled

theorem lifecycle_init (app : σ) : Lifecycle (Client.init app : Client κ σ) where
  wellFormed := wellFormed_init app
  settled ref hlt := absurd hlt (Nat.not_lt_zero ref)

/-- **Run.** The list and the log agree in every reachable state. -/
theorem lifecycle_of_reachable {app : σ} (hreach : Reachable e app c) : Lifecycle c :=
  hreach.invariant Lifecycle (lifecycle_init app) fun _ _ _ hinv hstep =>
    (perform_run hinv.wellFormed hstep).invariant Lifecycle
      (fun _ _ _ _ hinv hacts => hinv.acts hacts) hinv

end Invariant

/-! ## Exactly once -/

/-- **Exactly-once completion.** Whatever the order of submissions, packets,
polls, connects and disconnects, and whatever the callbacks do: the callback of
a request whose scheduling failed is never invoked; a request that was scheduled
and is not an observation is either on the list, once, without a terminal
invocation so far, or removed and freed once, after exactly one terminal
invocation and with no invocation after it. -/
theorem completed_exactly_once {e : Env κ σ} {app : σ} {c : Client κ σ}
    (hreach : Reachable e app c) {ref : ℕ} {err : ℤ}
    (hscheduled : .scheduled ref false err ∈ c.log) :
    (err ≠ 0 → ∀ rsp, .called ref rsp ∉ c.log) ∧
    (err = 0 →
      (c.refs.count ref = 1 ∧ (c.history ref).countP Event.isTerminal = 0 ∧
        (c.history ref).countP Event.isFree = 0) ∨
      (ref ∉ c.refs ∧ (c.history ref).countP Event.isFree = 1 ∧
        EndedOnce (c.history ref))) := by
  have hinv := lifecycle_of_reachable hreach
  have hlt : ref < c.nextRef := hinv.wellFormed.log_lt _ hscheduled
  have hmem : .scheduled ref false err ∈ c.history ref :=
    List.mem_filter.mpr ⟨hscheduled, by simp [Event.ref]⟩
  have hdescribes := Phase.describes_after (c.history ref)
  have hsettled := hinv.settled ref hlt
  rw [← Client.phase] at hdescribes
  cases hfind : c.find ref with
  | some req =>
    have hlisted := c.mem_refs_iff.mpr ⟨req, hfind⟩
    rw [(settled_of_find hfind).mp hsettled] at hdescribes
    cases hobserve : req.isObserve with
    | true =>
      rw [hobserve] at hdescribes
      exact absurd (hdescribes ref false err hmem) (by simp)
    | false =>
      rw [hobserve] at hdescribes
      obtain ⟨hzero, hterminal, hfree⟩ := hdescribes
      exact ⟨fun hne => absurd (hzero _ _ _ hmem) hne,
        fun _ => .inl ⟨List.count_eq_one_of_mem hinv.wellFormed.nodup hlisted, hterminal, hfree⟩⟩
  | none =>
    have hunlisted := c.find_eq_none_iff.mp hfind
    rcases (settled_of_find_none hfind).mp hsettled with hphase | hphase | hphase
    · rw [hphase] at hdescribes
      obtain ⟨hcalls, hne⟩ := hdescribes
      refine ⟨fun _ rsp hcalled => ?_, fun h => absurd h (hne _ _ _ hmem)⟩
      have hcall : .called ref rsp ∈ c.history ref :=
        List.mem_filter.mpr ⟨hcalled, by simp [Event.ref]⟩
      exact absurd (hcalls _ hcall) (by simp [Event.isCall])
    · rw [hphase] at hdescribes
      obtain ⟨hzero, hended, hfree⟩ := hdescribes
      exact ⟨fun hne => absurd (hzero _ _ _ hmem) hne, fun _ => .inr ⟨hunlisted, hfree, hended⟩⟩
    · rw [hphase] at hdescribes
      exact absurd (hdescribes ref false err hmem) (by simp)

/-- A request for `/a`, answered at once. -/
def answeredRun : Option (Client Unit Unit) :=
  execute .quiet
    [.onConnect,
      .submit (.getA () false),
      .processRx
        { type := .ack, code := 69, id := 0, token := firstToken
          options := [], payload := [1, 2, 3] }] ()

theorem completed_exactly_once_answered :
    ∃ c, answeredRun = some c ∧ 0 ∉ c.refs ∧ (c.history 0).countP Event.isFree = 1 ∧
      EndedOnce (c.history 0) := by
  obtain ⟨c, hrun⟩ : ∃ c, answeredRun = some c := Option.isSome_iff_exists.mp (by decide)
  have hlog : answeredRun.map (fun c => (decide (.scheduled 0 false 0 ∈ c.log), c.refs)) =
      some (true, []) := by decide
  rw [hrun] at hlog
  obtain ⟨hscheduled, hrefs⟩ := Prod.mk.inj (Option.some_inj.mp hlog)
  have hreach := reachable_of_execute _ hrun
  rcases (completed_exactly_once hreach (of_decide_eq_true hscheduled)).2 rfl with h | h
  · exact absurd h.1 (by simp [hrefs])
  · exact ⟨c, hrun, h⟩

end Golioth.Requests
