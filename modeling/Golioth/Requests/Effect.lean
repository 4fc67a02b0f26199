/-
# What a callback may do

What any callback may have done to the client by the time it returns. A callback
can append requests of its own and prepare the next block of the request it is
called for; it unlinks nothing and leaves every other request as it was.
-/
import Mathlib.Logic.Relation
import Golioth.Requests.Frame

namespace Golioth.Requests

open Golioth.Coap

variable {κ σ : Type}

/-! ## Histories -/

/-- The events about one request. -/
def Client.history (c : Client κ σ) (ref : ℕ) : List Event :=
  c.log.filter fun event => event.ref = ref

@[simp] theorem Client.history_emit (c : Client κ σ) (event : Event) (ref : ℕ) :
    (c.emit event).history ref =
      c.history ref ++ if event.ref = ref then [event] else [] := by
  simp only [history, log_emit, List.filter_append, List.filter_cons, List.filter_nil,
    decide_eq_true_eq]

/-- The request list is a list: no address is in it twice, and every address in
it or in the log has been used up. -/
structure WellFormed (c : Client κ σ) : Prop where
  nodup : c.refs.Nodup
  refs_lt : ∀ ref ∈ c.refs, ref < c.nextRef
  log_lt : ∀ event ∈ c.log, event.ref < c.nextRef

theorem WellFormed.find_eq_none {c : Client κ σ} (hwf : WellFormed c) {ref : ℕ}
    (hge : c.nextRef ≤ ref) : c.find ref = none := by
  rw [Client.find_eq_none_iff]
  intro hmem
  exact absurd (hwf.refs_lt ref hmem) (by omega)

theorem WellFormed.history_eq_nil {c : Client κ σ} (hwf : WellFormed c) {ref : ℕ}
    (hge : c.nextRef ≤ ref) : c.history ref = [] := by
  rw [Client.history, List.filter_eq_nil_iff]
  intro event hmem
  have := hwf.log_lt event hmem
  simp only [decide_eq_true_eq]
  omega

/-! ## The request whose callback runs -/

/-- The request for the next block has been prepared some number of times. -/
def Prepared (z : Zephyr) : CoapReq κ → CoapReq κ → Prop :=
  Relation.ReflTransGen fun req req' =>
    req.isObserve = false ∧ ∃ id uptime, req' = (coapReqPrepareNextBlock z id uptime req).2

/-- What preparing a request for the next block leaves as it was. -/
structure SameRequest (req req' : CoapReq κ) : Prop where
  ref_eq : req'.ref = req.ref
  blockCtx : req'.blockCtx = req.blockCtx
  reply : req'.reply = req.reply
  isObserve : req'.isObserve = req.isObserve
  isPending : req'.isPending = req.isPending
  cb : req'.cb = req.cb
  userData : req'.userData = req.userData

theorem sameRequest_prepareNextBlock (z : Zephyr) (id : UInt16) (uptime : ℤ)
    (req : CoapReq κ) : SameRequest req (coapReqPrepareNextBlock z id uptime req).2 := by
  unfold coapReqPrepareNextBlock coapReqAppendBlock2Option
  dsimp only
  split <;> split <;> exact ⟨rfl, rfl, rfl, rfl, rfl, rfl, rfl⟩

theorem SameRequest.trans {req req' req'' : CoapReq κ} (h : SameRequest req req')
    (h' : SameRequest req' req'') : SameRequest req req'' :=
  ⟨h'.ref_eq.trans h.ref_eq, h'.blockCtx.trans h.blockCtx, h'.reply.trans h.reply,
    h'.isObserve.trans h.isObserve, h'.isPending.trans h.isPending, h'.cb.trans h.cb,
    h'.userData.trans h.userData⟩

theorem Prepared.same {z : Zephyr} {req req' : CoapReq κ} (h : Prepared z req req') :
    SameRequest req req' := by
  induction h with
  | refl => exact ⟨rfl, rfl, rfl, rfl, rfl, rfl, rfl⟩
  | tail _ hstep ih =>
    obtain ⟨_, id, uptime, rfl⟩ := hstep
    exact ih.trans (sameRequest_prepareNextBlock z id uptime _)

/-! ## Effects -/

/-- An address that was used up since: its request was turned away, or is listed
as it was submitted. -/
inductive Fresh (e : Env κ σ) (c : Client κ σ) (ref : ℕ) : Prop
  | rejected (observe : Bool) (err : ℤ) (events : List Event) :
      err ≠ 0 → (∀ event ∈ events, event = .freed ref) → c.find ref = none →
      c.history ref = events ++ [.scheduled ref observe err] → Fresh e c ref
  | listed (submission : Submission κ) (req : CoapReq κ) :
      Built e submission ref req → c.find ref = some req →
      c.history ref = [.scheduled ref submission.observe 0] → Fresh e c ref

/-- What the code of a callback may have done to a client. `busy` is the request
whose `get_next` it holds, if it holds one. -/
structure Effect (e : Env κ σ) (busy : Option ℕ) (c c' : Client κ σ) : Prop where
  wellFormed : WellFormed c'
  connected : c'.coapReqsConnected = c.coapReqsConnected
  nextRef_le : c.nextRef ≤ c'.nextRef
  refs_prefix : c.refs <+: c'.refs
  find_old : ∀ ref < c.nextRef, ref ∉ busy → c'.find ref = c.find ref
  history_old : ∀ ref < c.nextRef, ref ∉ busy → c'.history ref = c.history ref
  find_busy : ∀ ref ∈ busy, ∀ req, c.find ref = some req →
    ∃ req', c'.find ref = some req' ∧ Prepared e.zephyr req req'
  history_busy : ∀ ref ∈ busy, ∀ req, c.find ref = some req →
    ∃ events, c'.history ref = c.history ref ++ events ∧
      (req.isObserve = false → events = []) ∧
      ∀ event ∈ events, ∃ rsp ret, event = .called ref rsp ∨ event = .returned ref rsp ret
  fresh : ∀ ref, c.nextRef ≤ ref → ref < c'.nextRef → Fresh e c' ref

section Effect

variable {e : Env κ σ} {busy : Option ℕ} {c c' c'' : Client κ σ}

theorem Effect.refl (hwf : WellFormed c) : Effect e busy c c where
  wellFormed := hwf
  connected := rfl
  nextRef_le := le_rfl
  refs_prefix := List.prefix_rfl
  find_old _ _ _ := rfl
  history_old _ _ _ := rfl
  find_busy _ _ req hfind := ⟨req, hfind, .refl⟩
  history_busy _ _ _ _ := ⟨[], by simp, fun _ => rfl, by simp⟩
  fresh ref hge hlt := by omega

/-- A request is fresh as long as it is as it was and nothing happened to it. -/
theorem Fresh.congr {ref : ℕ} (hfresh : Fresh e c ref) (hfind : c'.find ref = c.find ref)
    (hhistory : c'.history ref = c.history ref) : Fresh e c' ref := by
  cases hfresh with
  | rejected observe err events herr hevents hnone hlog =>
    exact .rejected observe err events herr hevents (hfind.trans hnone) (hhistory.trans hlog)
  | listed submission req hbuilt hsome hlog =>
    exact .listed submission req hbuilt (hfind.trans hsome) (hhistory.trans hlog)

theorem Effect.trans (hbusy : ∀ ref ∈ busy, ref < c.nextRef) (h : Effect e busy c c')
    (h' : Effect e busy c' c'') : Effect e busy c c'' where
  wellFormed := h'.wellFormed
  connected := h'.connected.trans h.connected
  nextRef_le := h.nextRef_le.trans h'.nextRef_le
  refs_prefix := h.refs_prefix.trans h'.refs_prefix
  find_old ref hlt hne :=
    (h'.find_old ref (hlt.trans_le h.nextRef_le) hne).trans (h.find_old ref hlt hne)
  history_old ref hlt hne :=
    (h'.history_old ref (hlt.trans_le h.nextRef_le) hne).trans (h.history_old ref hlt hne)
  find_busy ref hmem req hfind := by
    obtain ⟨req', hfind', hprepared⟩ := h.find_busy ref hmem req hfind
    obtain ⟨req'', hfind'', hprepared'⟩ := h'.find_busy ref hmem req' hfind'
    exact ⟨req'', hfind'', hprepared.trans hprepared'⟩
  history_busy ref hmem req hfind := by
    obtain ⟨req', hfind', hprepared⟩ := h.find_busy ref hmem req hfind
    obtain ⟨events, hlog, hquiet, hkind⟩ := h.history_busy ref hmem req hfind
    obtain ⟨events', hlog', hquiet', hkind'⟩ := h'.history_busy ref hmem req' hfind'
    refine ⟨events ++ events', by rw [hlog', hlog, List.append_assoc], fun hobserve => ?_,
      fun event hevent => ?_⟩
    · rw [hquiet hobserve, hquiet' (hprepared.same.isObserve.trans hobserve)]
      rfl
    · exact (List.mem_append.mp hevent).elim (hkind event) (hkind' event)
  fresh ref hge hlt := by
    by_cases hmid : ref < c'.nextRef
    · have hne : ref ∉ busy := fun hmem => absurd (hbusy ref hmem) (by omega)
      exact (h.fresh ref hge hmid).congr (h'.find_old ref hmid hne)
        (h'.history_old ref hmid hne)
    · exact h'.fresh ref (not_lt.mp hmid) hlt

/-- What leaves every address used so far as it was is an effect. -/
theorem Effect.of_old (hwf : WellFormed c) (hwf' : WellFormed c')
    (hconnected : c'.coapReqsConnected = c.coapReqsConnected)
    (hnext : c.nextRef ≤ c'.nextRef) (hrefs : c.refs <+: c'.refs)
    (hfind : ∀ ref < c.nextRef, c'.find ref = c.find ref)
    (hhistory : ∀ ref < c.nextRef, c'.history ref = c.history ref)
    (hfresh : ∀ ref, c.nextRef ≤ ref → ref < c'.nextRef → Fresh e c' ref) :
    Effect e busy c c' where
  wellFormed := hwf'
  connected := hconnected
  nextRef_le := hnext
  refs_prefix := hrefs
  find_old ref hlt _ := hfind ref hlt
  history_old ref hlt _ := hhistory ref hlt
  find_busy ref _ req hreq := by
    have hlt := hwf.refs_lt ref (c.mem_refs_iff.mpr ⟨req, hreq⟩)
    exact ⟨req, (hfind ref hlt).trans hreq, .refl⟩
  history_busy ref _ req hreq := by
    have hlt := hwf.refs_lt ref (c.mem_refs_iff.mpr ⟨req, hreq⟩)
    exact ⟨[], by rw [hhistory ref hlt, List.append_nil], fun _ => rfl, by simp⟩
  fresh := hfresh

/-- Code that holds no `get_next` does no more than code that does. -/
theorem Effect.of_none (h : Effect e none c c') (hwf : WellFormed c) : Effect e busy c c' :=
  .of_old hwf h.wellFormed h.connected h.nextRef_le h.refs_prefix
    (fun ref hlt => h.find_old ref hlt (by simp))
    (fun ref hlt => h.history_old ref hlt (by simp)) h.fresh

/-- The clock, the random numbers and the client code's own state are not the
module's. -/
theorem Effect.of_app (hwf : WellFormed c) (readings : ℕ) (app : σ) :
    Effect e busy c { c with readings := readings, app := app } :=
  .of_old hwf ⟨hwf.nodup, hwf.refs_lt, hwf.log_lt⟩ rfl le_rfl List.prefix_rfl
    (fun _ _ => rfl) (fun _ _ => rfl) fun _ hge hlt => absurd hge (not_le.mpr hlt)

private theorem effect_append (hwf : WellFormed c) (reqs : List (CoapReq κ))
    {events : List Event} (hconnected : c'.coapReqsConnected = c.coapReqsConnected)
    (hnext : c'.nextRef = c.nextRef + 1) (hreqs : c'.coapReqs = c.coapReqs ++ reqs)
    (hlog : c'.log = c.log ++ events) (hreqs_ref : ∀ req ∈ reqs, req.ref = c.nextRef)
    (hreqs_one : reqs.length ≤ 1) (hevents_ref : ∀ event ∈ events, event.ref = c.nextRef)
    (hfresh : c'.find c.nextRef = reqs.head? → c'.history c.nextRef = events →
      Fresh e c' c.nextRef) :
    Effect e busy c c' := by
  have hrefs : c'.refs = c.refs ++ reqs.map (·.ref) := by
    rw [Client.refs, hreqs, List.map_append, Client.refs]
  -- all that is new has the address that was free
  have hrefs_eq : ∀ ref ∈ reqs.map (·.ref), ref = c.nextRef := by
    intro ref hmem
    obtain ⟨req, hreq, rfl⟩ := List.mem_map.mp hmem
    exact hreqs_ref req hreq
  have hfind : ∀ ref, c'.find ref = (c.find ref).or (reqs.find? (·.ref = ref)) := by
    intro ref
    rw [Client.find, hreqs, List.find?_append, Client.find]
  have hhistory : ∀ ref, c'.history ref = c.history ref ++ events.filter (·.ref = ref) := by
    intro ref
    rw [Client.history, hlog, List.filter_append, Client.history]
  refine .of_old hwf ⟨?_, ?_, ?_⟩ hconnected (by omega) (hrefs ▸ List.prefix_append _ _) ?_ ?_ ?_
  · rw [hrefs, List.nodup_append]
    refine ⟨hwf.nodup, ?_, ?_⟩
    · exact List.nodup_iff_count_le_one.mpr fun ref =>
        List.count_le_length.trans (by simpa using hreqs_one)
    · rintro ref hmem _ hmem' rfl
      have := hwf.refs_lt ref hmem
      have := hrefs_eq ref hmem'
      omega
  · intro ref hmem
    rw [hrefs, List.mem_append] at hmem
    rcases hmem with hmem | hmem
    · have := hwf.refs_lt ref hmem
      omega
    · have := hrefs_eq ref hmem
      omega
  · intro event hmem
    rw [hlog, List.mem_append] at hmem
    rcases hmem with hmem | hmem
    · have := hwf.log_lt event hmem
      omega
    · have := hevents_ref event hmem
      omega
  · -- the requests there were are found as before
    intro ref hlt
    have hnone : reqs.find? (·.ref = ref) = none := by
      rw [List.find?_eq_none]
      intro req hmem
      have := hreqs_ref req hmem
      simp only [decide_eq_true_eq]
      omega
    rw [hfind, hnone, Option.or_none]
  · intro ref hlt
    have hnil : events.filter (·.ref = ref) = [] := by
      rw [List.filter_eq_nil_iff]
      intro event hmem
      have := hevents_ref event hmem
      simp only [decide_eq_true_eq]
      omega
    rw [hhistory, hnil, List.append_nil]
  · intro ref hge hlt
    -- the one new address, which nothing had used
    obtain rfl : ref = c.nextRef := by omega
    refine hfresh ?_ ?_
    · rw [hfind, hwf.find_eq_none le_rfl, Option.none_or]
      cases reqs with
      | nil => rfl
      | cons req _ => simp [hreqs_ref req]
    · rw [hhistory, hwf.history_eq_nil le_rfl, List.nil_append, List.filter_eq_self]
      simpa using hevents_ref

/-- A submission leaves every request there is alone, and uses up one address. -/
theorem effect_submit (busy : Option ℕ) (hwf : WellFormed c) (submission : Submission κ) :
    Effect e busy c (submit e submission c).2 := by
  generalize hresult : submit e submission c = result
  have hsubmitted := submitted e submission c
  rw [hresult] at hsubmitted
  cases hsubmitted with
  | @rejected err readings log events herr hevents hlog =>
    refine effect_append hwf [] rfl rfl (List.append_nil _).symm hlog (by simp)
      (by simp) ?_ fun hfind hhistory => ?_
    · intro event hmem
      rcases List.mem_append.mp hmem with hmem | hmem
      · rw [hevents event hmem]
        rfl
      · rw [List.mem_singleton.mp hmem]
        rfl
    · exact .rejected submission.observe err events herr hevents hfind hhistory
  | @listed req readings hconnected hbuilt =>
    refine effect_append hwf [req] rfl rfl rfl rfl ?_ le_rfl ?_
      fun hfind hhistory => ?_
    · simpa using hbuilt.ref_eq
    · simp [Event.ref]
    · exact .listed submission req hbuilt hfind hhistory

theorem WellFormed.emit (hwf : WellFormed c) {event : Event} (hlt : event.ref < c.nextRef) :
    WellFormed (c.emit event) where
  nodup := hwf.nodup
  refs_lt := hwf.refs_lt
  log_lt event' hmem := by
    rcases List.mem_append.mp hmem with hmem | hmem
    · exact hwf.log_lt event' hmem
    · exact List.mem_singleton.mp hmem ▸ hlt

theorem WellFormed.modify (hwf : WellFormed c) {ref : ℕ} {f : CoapReq κ → CoapReq κ}
    (hf : ∀ req, req.ref = ref → (f req).ref = ref) : WellFormed (c.modify ref f) where
  nodup := c.refs_modify hf ▸ hwf.nodup
  refs_lt := c.refs_modify hf ▸ hwf.refs_lt
  log_lt := hwf.log_lt

/-! ## Running a callback -/

/-- A program has an effect of the kind each of its commands has. -/
theorem effect_run
    {answer : (command : CbCmd κ σ) → Client κ σ → command.Ans × Client κ σ}
    (hanswer : ∀ command c, WellFormed c → (∀ ref ∈ busy, ref ∈ c.refs) →
      Effect e busy c (answer command c).2)
    (program : CbProg κ σ) (hwf : WellFormed c) (hbusy : ∀ ref ∈ busy, ref ∈ c.refs) :
    Effect e busy c (program.run answer c).2 := by
  refine CS.Prog.run_rel answer
    (r := fun s t => WellFormed s → (∀ ref ∈ busy, ref ∈ s.refs) → Effect e busy s t)
    (fun s hwf _ => .refl hwf) ?_ hanswer program c hwf hbusy
  intro s t u hst htu hwf hbusy
  have hfirst := hst hwf hbusy
  exact hfirst.trans (fun ref hmem => hwf.refs_lt ref (hbusy ref hmem))
    (htu hfirst.wellFormed fun ref hmem => hfirst.refs_prefix.subset (hbusy ref hmem))

theorem effect_answerWith {getNext : ℤ → Client κ σ → ℤ × Client κ σ}
    (hgetNext : ∀ status c, WellFormed c → (∀ ref ∈ busy, ref ∈ c.refs) →
      Effect e busy c (getNext status c).2)
    (command : CbCmd κ σ) (c : Client κ σ) (hwf : WellFormed c)
    (hbusy : ∀ ref ∈ busy, ref ∈ c.refs) :
    Effect e busy c (answerWith e getNext command c).2 := by
  cases command with
  | getNext status => exact hgetNext status c hwf hbusy
  | submit submission => exact effect_submit busy hwf submission
  | get => exact .refl hwf
  | set app => exact .of_app hwf c.readings app

/-- A callback without `get_next` is called, does what it may, and returns. -/
theorem invokeLast_effect (ref : ℕ) (cb : Option κ) (rsp : Rsp) (hwf : WellFormed c)
    (hlt : ref < c.nextRef) :
    ∃ ret c₁, invokeLast e ref cb rsp c = (ret, c₁.emit (.returned ref rsp ret)) ∧
      Effect e none (c.emit (.called ref rsp)) c₁ :=
  ⟨_, _, rfl, effect_run (effect_answerWith fun _ _ hwf _ => .refl hwf) _
    (hwf.emit hlt) (by simp)⟩

private theorem effect_emit_observed {ref : ℕ} (hwf : WellFormed c) {event : Event}
    (hlisted : ref ∈ c.refs) (hobserve : ∀ req, c.find ref = some req → req.isObserve = true)
    (hevent : ∃ rsp ret, event = .called ref rsp ∨ event = .returned ref rsp ret) :
    Effect e (some ref) c (c.emit event) := by
  have href : event.ref = ref := by
    obtain ⟨rsp, ret, rfl | rfl⟩ := hevent <;> rfl
  refine
    { wellFormed := hwf.emit (href ▸ hwf.refs_lt ref hlisted)
      connected := rfl
      nextRef_le := le_rfl
      refs_prefix := List.prefix_rfl
      find_old := fun _ _ _ => rfl
      history_old := fun other _ hne => ?_
      find_busy := fun _ _ req hfind => ⟨req, hfind, .refl⟩
      history_busy := ?_
      fresh := fun _ hge hlt => absurd hge (not_le.mpr hlt) }
  · have hne : event.ref ≠ other := by
      rintro rfl
      exact hne (by simp [href])
    simp [hne]
  · intro other hmem req hfind
    obtain rfl := Option.some_inj.mp hmem
    refine ⟨[event], by simp [href], fun hnot => ?_, by simpa using hevent⟩
    rw [hobserve req hfind] at hnot
    cases hnot

private theorem effect_invokeLast_observed {ref : ℕ} (hwf : WellFormed c)
    {req : CoapReq κ} (hfind : c.find ref = some req) (hobserve : req.isObserve = true)
    (cb : Option κ) (rsp : Rsp) :
    Effect e (some ref) c (invokeLast e ref cb rsp c).2 := by
  have hlisted : ref ∈ c.refs := c.mem_refs_iff.mpr ⟨req, hfind⟩
  have hlt := hwf.refs_lt ref hlisted
  have hbusy : ∀ other ∈ some ref, other < c.nextRef := by simpa using hlt
  obtain ⟨ret, c₁, hcall, heffect⟩ := invokeLast_effect (e := e) ref cb rsp hwf hlt
  have hcalled : Effect e (some ref) c (c.emit (.called ref rsp)) := by
    refine effect_emit_observed hwf hlisted (fun req' hfind' => ?_) ⟨rsp, 0, .inl rfl⟩
    exact Option.some_inj.mp (hfind'.symm.trans hfind) ▸ hobserve
  have hfind₁ : c₁.find ref = some req :=
    (heffect.find_old ref hlt (by simp)).trans hfind
  have hreturned : Effect e (some ref) c₁ (c₁.emit (.returned ref rsp ret)) := by
    refine effect_emit_observed heffect.wellFormed (c₁.mem_refs_iff.mpr ⟨req, hfind₁⟩)
      (fun req' hfind' => ?_) ⟨rsp, ret, .inr rfl⟩
    exact Option.some_inj.mp (hfind'.symm.trans hfind₁) ▸ hobserve
  rw [hcall]
  exact hcalled.trans hbusy ((heffect.of_none hcalled.wellFormed).trans hbusy hreturned)

private theorem effect_modify_prepared {ref : ℕ} (hwf : WellFormed c) {req : CoapReq κ}
    (hfind : c.find ref = some req) (hobserve : req.isObserve = false) (id : UInt16)
    (uptime : ℤ) :
    Effect e (some ref) c
      (c.tick.modify ref fun _ => (coapReqPrepareNextBlock e.zephyr id uptime req).2) := by
  have href : (coapReqPrepareNextBlock e.zephyr id uptime req).2.ref = ref :=
    (sameRequest_prepareNextBlock e.zephyr id uptime req).ref_eq.trans
      (Client.ref_of_find hfind)
  have hwf' : WellFormed c.tick := ⟨hwf.nodup, hwf.refs_lt, hwf.log_lt⟩
  refine
    { wellFormed := hwf'.modify fun _ _ => href
      connected := rfl
      nextRef_le := le_rfl
      refs_prefix := by rw [Client.refs_modify _ fun _ _ => href]; exact List.prefix_rfl
      find_old := fun other _ hne => ?_
      history_old := fun _ _ _ => rfl
      find_busy := ?_
      history_busy := fun _ _ _ _ => ⟨[], (List.append_nil _).symm, fun _ => rfl, by simp⟩
      fresh := fun _ hge hlt => absurd hge (not_le.mpr hlt) }
  · refine Client.find_modify_of_ne _ (fun _ _ => href) ?_
    rintro rfl
    exact hne rfl
  · intro other hmem req' hfind'
    obtain rfl := Option.some_inj.mp hmem
    obtain rfl := Option.some_inj.mp (hfind'.symm.trans hfind)
    refine ⟨_, ?_, .single ⟨hobserve, id, uptime, rfl⟩⟩
    rw [Client.find_modify_self _ fun _ _ => href, Client.find_tick, hfind]
    rfl

/-- Asking for the next block prepares the request; for an observation it calls
the callback once more. -/
theorem effect_coapReqNextBlock (ref : ℕ) (status : ℤ) (hwf : WellFormed c)
    (hlisted : ref ∈ c.refs) :
    Effect e (some ref) c (coapReqNextBlock e ref status c).2 := by
  obtain ⟨req, hfind⟩ := c.mem_refs_iff.mp hlisted
  have hlt := hwf.refs_lt ref hlisted
  have hbusy : ∀ other ∈ some ref, other < c.nextRef := by simpa using hlt
  have htick : Effect e (some ref) c c.tick := .of_app hwf (c.readings + 1) c.app
  unfold coapReqNextBlock
  simp only [Client.find_tick, hfind]
  split
  · next hobserve =>
    exact htick.trans hbusy
      (effect_invokeLast_observed htick.wellFormed hfind hobserve req.cb _)
  · next hobserve =>
    exact htick.trans hbusy (effect_modify_prepared htick.wellFormed hfind
      (Bool.not_eq_true _ ▸ hobserve) _ _)

/-- Every callback is called, does what it may, and returns. -/
theorem invoke_effect (ref : ℕ) (cb : Option κ) (rsp : Rsp) (hwf : WellFormed c)
    (hlisted : ref ∈ c.refs) :
    ∃ ret c₁, invoke e ref cb rsp c = (ret, c₁.emit (.returned ref rsp ret)) ∧
      Effect e (if rsp.getNext then some ref else none) (c.emit (.called ref rsp)) c₁ := by
  have hlt := hwf.refs_lt ref hlisted
  unfold invoke
  split
  · refine ⟨_, _, rfl, effect_run (effect_answerWith fun status c hwf hbusy => ?_) _
      (hwf.emit hlt) (by simpa using hlisted)⟩
    exact effect_coapReqNextBlock ref status hwf (hbusy ref rfl)
  · exact invokeLast_effect ref cb rsp hwf hlt

end Effect

end Golioth.Requests
