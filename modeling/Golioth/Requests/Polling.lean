/-
# A pass over the list

`golioth_coap_reqs_poll_prepare` visits every request. What it leaves behind is
compared with what it returns: the client sleeps for that long, so that nothing
that is left may be due before.

The callbacks of requests that are given up during the pass are assumed not to
schedule new ones.
-/
import Golioth.Requests.GivingUp

namespace Golioth.Requests

open Golioth.Coap CS

variable {κ σ : Type} {e : Env κ σ} {c c' : Client κ σ} {ref : ℕ} {req : CoapReq κ}

/-! ## Callbacks -/

/-- The command schedules a request. -/
def CbCmd.Schedules : CbCmd κ σ → Prop
  | .submit _ => True
  | _ => False

/-- No callback schedules a request when it is told of a timeout. -/
def Env.TimeoutsScheduleNothing (e : Env κ σ) : Prop :=
  ∀ cb userData, (e.code cb (timedOutRsp userData)).Only fun command => ¬ command.Schedules

theorem coapReqs_invoke_timedOut (he : e.TimeoutsScheduleNothing) (ref : ℕ) (cb : Option κ)
    (userData : ℕ) (c : Client κ σ) :
    (invoke e ref cb (timedOutRsp userData) c).2.coapReqs = c.coapReqs := by
  have honly : (e.callback cb (timedOutRsp userData)).Only fun command => ¬ command.Schedules := by
    cases cb with
    | none => trivial
    | some cb => exact he cb userData
  have hrun := CS.Prog.run_rel_of_only (answerWith e fun _ c => (0, c))
    (fun _ => rfl) (fun h h' => Eq.trans h' h) (fun command s hcommand => ?_) honly
    (c.emit (.called ref (timedOutRsp userData)))
    (r := fun s s' : Client κ σ => s'.coapReqs = s.coapReqs)
  · exact hrun
  · cases command with
    | getNext status => rfl
    | submit submission => exact absurd trivial hcommand
    | get => rfl
    | set app => rfl

/-! ## What is left -/

/-- An observation that has been established has no deadline. -/
def CoapReq.Established (req : CoapReq κ) : Prop := req.isObserve = true ∧ req.isPending = false

instance (req : CoapReq κ) : Decidable req.Established := by
  unfold CoapReq.Established
  infer_instance

/-- A request without its timer. -/
def CoapReq.untimed (req : CoapReq κ) : CoapReq κ :=
  { req with pending := { t0 := 0, timeout := 0, retries := 0 } }

/-- The least time left until a deadline of some requests, `INT64_MAX` if there is none. -/
def leastTimeLeft (now : UInt32) (reqs : List (CoapReq κ)) : ℤ :=
  ((reqs.filter fun req => ¬ req.Established).map fun req => timeLeft req.pending now).foldr min
    int64Max

/-- A request has been given up: no deadline of it was left, its callback has been told, and it
has been freed. -/
def GivenUp (e : Env κ σ) (now : UInt32) (c c' : Client κ σ) (req : CoapReq κ) : Prop :=
  (∃ readings, ¬ DeadlineAhead e req.pending readings now) ∧
    ∃ events, c'.history req.ref = c.history req.ref ++ events ∧ GivesUp req.ref events

/-- The requests `visited` have been visited, of which `kept` are left, and `rest` have not. -/
structure Swept (e : Env κ σ) (now : UInt32) (c₀ : Client κ σ) (visited kept rest : List (CoapReq κ))
    (s : ℤ × Client κ σ) : Prop where
  before : c₀.coapReqs = visited ++ rest
  after : s.2.coapReqs = kept ++ rest
  wellFormed : WellFormed s.2
  nextRef_le : c₀.nextRef ≤ s.2.nextRef
  ahead : ∀ req ∈ kept, req.Established ∨ 0 < timeLeft req.pending now
  sublist : (kept.map CoapReq.untimed).Sublist (visited.map CoapReq.untimed)
  gone : ∀ req ∈ visited, req.ref ∉ kept.map CoapReq.ref → GivenUp e now c₀ s.2 req
  history : ∀ req ∈ rest, s.2.history req.ref = c₀.history req.ref
  least : s.1 = leastTimeLeft now kept

/-! ## One visit -/

section Visit

variable {now : UInt32} {kept rest : List (CoapReq κ)}

theorem foldr_min_append (l : List ℤ) (a b : ℤ) :
    (l ++ [b]).foldr min a = min (l.foldr min a) b := by
  induction l with
  | nil => exact min_comm b a
  | cons x l ih => rw [List.cons_append, List.foldr_cons, List.foldr_cons, ih, min_assoc]

theorem leastTimeLeft_append (reqs : List (CoapReq κ)) (req : CoapReq κ) :
    leastTimeLeft now (reqs ++ [req]) =
      if req.Established then leastTimeLeft now reqs
      else min (leastTimeLeft now reqs) (timeLeft req.pending now) := by
  unfold leastTimeLeft
  generalize int64Max = noDeadline
  rw [List.filter_append, List.map_append]
  by_cases hestablished : req.Established
  · rw [if_pos hestablished, List.filter_cons_of_neg (by simp [hestablished]), List.filter_nil,
      List.map_nil, List.append_nil]
  · rw [if_neg hestablished, List.filter_cons_of_pos (by simp [hestablished]), List.filter_nil,
      List.map_singleton, foldr_min_append]

theorem leastTimeLeft_le (now : UInt32) (reqs : List (CoapReq κ)) :
    leastTimeLeft now reqs ≤ int64Max := by
  unfold leastTimeLeft
  generalize int64Max = noDeadline
  induction (reqs.filter fun req => ¬ req.Established).map fun req => timeLeft req.pending now with
  | nil => exact le_rfl
  | cons x l ih => exact (min_le_right _ _).trans ih

/-- Where requests are different, one splits the list into requests other than itself. -/
theorem ref_ne_of_split (hnodup : c.refs.Nodup) (hsplit : c.coapReqs = kept ++ req :: rest) :
    ∀ other ∈ kept ++ rest, other.ref ≠ req.ref := by
  rw [Client.refs, hsplit, List.map_append, List.map_cons, List.nodup_middle] at hnodup
  intro other hmem heq
  exact (List.nodup_cons.mp hnodup).1 (by
    rw [← List.map_append, ← heq]
    exact List.mem_map_of_mem hmem)

/-- The place of a request in the list splits it. -/
theorem coapReqs_modify_of_split (hnodup : c.refs.Nodup) (hsplit : c.coapReqs = kept ++ req :: rest)
    (f : CoapReq κ → CoapReq κ) : (c.modify req.ref f).coapReqs = kept ++ f req :: rest := by
  have hother := ref_ne_of_split hnodup hsplit
  have hsame (l : List (CoapReq κ)) (hl : ∀ other ∈ l, other.ref ≠ req.ref) :
      l.map (fun other => if other.ref = req.ref then f other else other) = l :=
    (List.map_congr_left fun other hmem => if_neg (hl other hmem)).trans (List.map_id l)
  rw [Client.modify, hsplit, List.map_append, List.map_cons,
    hsame kept fun other hmem => hother other (List.mem_append_left _ hmem),
    hsame rest fun other hmem => hother other (List.mem_append_right _ hmem), if_pos rfl]

theorem coapReqs_cancelAndFree_of_split (hnodup : c.refs.Nodup)
    (hsplit : c.coapReqs = kept ++ req :: rest) (href : req.ref = ref) :
    (coapReqCancelAndFree ref c).coapReqs = kept ++ rest := by
  subst href
  have hother := ref_ne_of_split hnodup hsplit
  have hfiltered : (coapReqCancelAndFree req.ref c).coapReqs =
      c.coapReqs.filter fun other => other.ref ≠ req.ref := rfl
  have hsame : (kept ++ rest).filter (fun other => decide (other.ref ≠ req.ref)) = kept ++ rest :=
    List.filter_eq_self.mpr fun other hmem => decide_eq_true (hother other hmem)
  rw [List.filter_append] at hsame
  rw [hfiltered, hsplit, List.filter_append, List.filter_cons_of_neg (by simp), hsame]

/-- The loop ends with the time that is left. -/
theorem waits_of_pollCycles {cycles readings readings' : ℕ} {pending pending' : Pending}
    {send send' : Bool} {timeout : ℤ}
    (hloop : pollCycles e now cycles pending readings send =
      some (.waits timeout send' pending' readings')) :
    timeout = timeLeft pending' now ∧ 0 < timeLeft pending' now := by
  induction cycles generalizing pending readings send with
  | zero => cases hloop
  | succ cycles ih =>
    rw [pollCycles] at hloop
    split at hloop
    · next hleft =>
      obtain ⟨rfl, -, rfl, -⟩ := PollOutcome.waits.inj (Option.some.inj hloop)
      exact ⟨rfl, hleft⟩
    · dsimp only at hloop
      split at hloop
      · exact ih hloop
      · exact PollOutcome.noConfusion (Option.some.inj hloop)

/-- What a visit does to the list and to the least timeout. -/
inductive Visited (e : Env κ σ) (now : UInt32) (kept rest : List (CoapReq κ)) (req : CoapReq κ)
    (s s' : ℤ × Client κ σ) : Prop
  | established : req.Established → s' = s → Visited e now kept rest req s s'
  | waits {pending : Pending} : ¬ req.Established → 0 < timeLeft pending now →
      s'.1 = min s.1 (timeLeft pending now) →
      s'.2.coapReqs = kept ++ { req with pending := pending } :: rest →
      Visited e now kept rest req s s'
  | givenUp : s'.1 = min s.1 int64Max → s'.2.coapReqs = kept ++ rest →
      GivenUp e now s.2 s'.2 req → Visited e now kept rest req s s'

/-- A request that is given up is taken off the list, and its callback leaves the list alone. -/
theorem coapReqs_expires (he : e.TimeoutsScheduleNothing) (hwf : WellFormed c)
    (hsplit : c.coapReqs = kept ++ req :: rest) (pending : Pending) (readings : ℕ) :
    ((PollOutcome.expires pending readings).carryOut e req c).2.coapReqs = kept ++ rest := by
  have hmodified := coapReqs_modify_of_split hwf.nodup hsplit
    fun req => { req with pending := pending }
  have hrefs : (c.modify req.ref fun req => { req with pending := pending }).refs = c.refs :=
    Client.refs_modify c fun _ h => h
  have hinvoked := coapReqs_invoke_timedOut he req.ref req.cb req.userData
    { c.modify req.ref fun req => { req with pending := pending } with readings := readings }
  have hlist := hinvoked.trans hmodified
  have hsame := (congrArg (List.map CoapReq.ref) hinvoked).trans hrefs
  exact coapReqs_cancelAndFree_of_split ((congrArg List.Nodup hsame).mpr hwf.nodup) hlist rfl

theorem visited_of_pollVisit (he : e.TimeoutsScheduleNothing) {s s' : ℤ × Client κ σ}
    (hwf : WellFormed s.2) (hsplit : s.2.coapReqs = kept ++ req :: rest)
    (hvisit : pollVisit e now req.ref s = some s') : Visited e now kept rest req s s' := by
  have hmem : req ∈ s.2.coapReqs := by simp [hsplit]
  have hfind : s.2.find req.ref = some req := Client.find_of_mem hwf.nodup hmem
  unfold pollVisit at hvisit
  rw [hfind] at hvisit
  dsimp only at hvisit
  split at hvisit
  · next hestablished =>
    obtain rfl := Option.some_inj.mp hvisit
    exact .established ⟨hestablished.1, by simpa using hestablished.2⟩ rfl
  · next hwaiting =>
    obtain ⟨polled, hpoll, rfl⟩ := Option.map_eq_some_iff.mp hvisit
    obtain ⟨outcome, hloop, rfl⟩ := Option.map_eq_some_iff.mp hpoll
    have hnot : ¬ req.Established := fun h => hwaiting ⟨h.1, by simp [h.2]⟩
    cases outcome with
    | waits timeout send pending readings =>
      obtain ⟨htimeout, hleft⟩ := waits_of_pollCycles hloop
      have hmodified := coapReqs_modify_of_split hwf.nodup hsplit
        fun req => { req with pending := pending }
      have hlisted : ((PollOutcome.waits timeout send pending readings).carryOut e req
          s.2).2.coapReqs = kept ++ { req with pending := pending } :: rest := by
        rw [PollOutcome.carryOut]
        split <;> exact hmodified
      generalize hcarried : (PollOutcome.waits timeout send pending readings).carryOut e req s.2 =
        polled at hlisted
      have hret := (carryOut_waits hwf hfind timeout send pending readings hcarried).1
      exact .waits hnot hleft (congrArg (min s.1) (hret.trans htimeout)) hlisted
    | expires pending readings =>
      have hpassed : ¬ DeadlineAhead e req.pending s.2.readings now :=
        mt (waits_iff_deadlineAhead hloop).mpr id
      have hlisted := coapReqs_expires he hwf hsplit pending readings
      generalize hcarried : (PollOutcome.expires pending readings).carryOut e req s.2 = polled
        at hlisted
      obtain ⟨hret, -, -, events, hhistory, hgives⟩ :=
        carryOut_expires hwf hfind pending readings hcarried
      exact .givenUp (congrArg (min s.1) hret) hlisted ⟨⟨_, hpassed⟩, events, hhistory, hgives⟩

end Visit

/-! ## The pass -/

section Pass

variable {now : UInt32} {c₀ : Client κ σ} {visited kept rest : List (CoapReq κ)}
  {s s' : ℤ × Client κ σ}

/-- **Visit.** A visit goes one request further. -/
theorem Swept.visit (he : e.TimeoutsScheduleNothing) (hwf₀ : WellFormed c₀)
    (h : Swept e now c₀ visited kept (req :: rest) s)
    (hvisit : pollVisit e now req.ref s = some s') :
    ∃ kept', Swept e now c₀ (visited ++ [req]) kept' rest s' := by
  have hrun := pollVisit_run hvisit
  obtain ⟨hwf', hle⟩ := wellFormed_of_run hrun h.wellFormed
  have hframe : ∀ other < s.2.nextRef, other ≠ req.ref →
      s'.2.history other = s.2.history other := fun other hlt hne => by
    refine (frame_of_run hrun h.wellFormed hlt fun action haction habout => ?_).2
    rcases haction with rfl | rfl | rfl | ⟨userData, rfl⟩ <;> cases habout <;> exact hne rfl
  have hlt : ∀ other ∈ c₀.coapReqs, other.ref < s.2.nextRef := fun other hmem =>
    (hwf₀.refs_lt other.ref (List.mem_map_of_mem hmem)).trans_le h.nextRef_le
  have hbefore : c₀.coapReqs = visited ++ [req] ++ rest := by
    rw [h.before, List.append_assoc, List.singleton_append]
  have hne := ref_ne_of_split h.wellFormed.nodup h.after
  -- what is not visited keeps its history, and so does what has been given up before
  have hhistory : ∀ other ∈ rest, s'.2.history other.ref = c₀.history other.ref := by
    intro other hmem
    rw [hframe other.ref (hlt other (by simp [hbefore, hmem]))
      (hne other (List.mem_append_right _ hmem))]
    exact h.history other (List.mem_cons_of_mem _ hmem)
  have hgone : ∀ other ∈ visited, other.ref ∉ kept.map CoapReq.ref → GivenUp e now c₀ s'.2 other := by
    intro other hmem hnot
    obtain ⟨hpassed, events, hevents, hgives⟩ := h.gone other hmem hnot
    have hother : other.ref ≠ req.ref := by
      have hnodup := hwf₀.nodup
      rw [Client.refs, h.before, List.map_append] at hnodup
      exact fun heq => List.disjoint_of_nodup_append hnodup (List.mem_map_of_mem hmem) (by simp [heq])
    rw [← hframe other.ref (hlt other (by simp [hbefore, hmem])) hother] at hevents
    exact ⟨hpassed, events, hevents, hgives⟩
  have hkeep (req' : CoapReq κ) (huntimed : req'.untimed = req.untimed)
      (hahead : req'.Established ∨ 0 < timeLeft req'.pending now)
      (hlist : s'.2.coapReqs = kept ++ req' :: rest)
      (hleast : s'.1 = leastTimeLeft now (kept ++ [req'])) :
      Swept e now c₀ (visited ++ [req]) (kept ++ [req']) rest s' := by
    have href : req'.untimed.ref = req.untimed.ref := by rw [huntimed]
    have href : req'.ref = req.ref := href
    refine ⟨hbefore, by rw [hlist]; simp, hwf', h.nextRef_le.trans hle, ?_, ?_, ?_, hhistory, hleast⟩
    · intro other hmem
      rcases List.mem_append.mp hmem with hmem | hmem
      · exact h.ahead other hmem
      · exact List.mem_singleton.mp hmem ▸ hahead
    · rw [List.map_append, List.map_append, List.map_singleton, List.map_singleton, huntimed]
      exact h.sublist.append (.refl _)
    · intro other hmem hnot
      rw [List.map_append, List.mem_append, not_or] at hnot
      rcases List.mem_append.mp hmem with hmem | hmem
      · exact hgone other hmem hnot.1
      · exact absurd (by simp [List.mem_singleton.mp hmem, href]) hnot.2
  cases visited_of_pollVisit he h.wellFormed h.after hvisit with
  | established hestablished heq =>
    subst heq
    refine ⟨_, hkeep req rfl (.inl hestablished) h.after ?_⟩
    rw [leastTimeLeft_append, if_pos hestablished, h.least]
  | @waits pending hnot hleft hleast hlist =>
    refine ⟨_, hkeep { req with pending := pending } rfl (.inr hleft) hlist ?_⟩
    have hnot' : ¬ CoapReq.Established { req with pending := pending } := hnot
    rw [leastTimeLeft_append, if_neg hnot', hleast, h.least]
  | givenUp hleast hlist hgivenUp =>
    refine ⟨kept, hbefore, hlist, hwf', h.nextRef_le.trans hle, h.ahead, ?_, ?_, hhistory, ?_⟩
    · rw [List.map_append]
      exact h.sublist.trans (List.sublist_append_left _ _)
    · intro other hmem hnot
      rcases List.mem_append.mp hmem with hmem | hmem
      · exact hgone other hmem hnot
      · obtain rfl := List.mem_singleton.mp hmem
        rw [GivenUp, h.history other List.mem_cons_self] at hgivenUp
        exact hgivenUp
    · rw [hleast, h.least, min_eq_left (leastTimeLeft_le now kept)]

/-- The invariant of the pass: the requests that are left to visit are the last ones listed. -/
def Sweeping (e : Env κ σ) (now : UInt32) (c₀ : Client κ σ) (todo : List ℕ)
    (s : ℤ × Client κ σ) : Prop :=
  ∃ visited kept rest, rest.map CoapReq.ref = todo ∧ Swept e now c₀ visited kept rest s

theorem items_of_sweeping {todo : List ℕ} (h : Sweeping e now c₀ todo s) :
    s.2.refs.Nodup ∧ todo <:+ s.2.refs := by
  obtain ⟨visited, kept, rest, rfl, hswept⟩ := h
  refine ⟨hswept.wellFormed.nodup, ?_⟩
  rw [Client.refs, hswept.after, List.map_append]
  exact List.suffix_append _ _

theorem sweeping_start (hwf : WellFormed c₀) : Sweeping e now c₀ c₀.refs (int64Max, c₀) :=
  ⟨[], [], c₀.coapReqs, rfl, rfl, rfl, hwf, le_rfl, by simp, by simp, by simp, fun _ _ => rfl, rfl⟩

theorem sweeping_visit (he : e.TimeoutsScheduleNothing) (hwf₀ : WellFormed c₀) {ref : ℕ}
    {todo : List ℕ} (h : Sweeping e now c₀ (ref :: todo) s)
    (hvisit : pollVisit e now ref s = some s') : Sweeping e now c₀ todo s' := by
  obtain ⟨visited, kept, rest, htodo, hswept⟩ := h
  cases rest with
  | nil => cases htodo
  | cons req rest =>
    obtain ⟨rfl, rfl⟩ := List.cons.inj htodo
    obtain ⟨kept', hswept'⟩ := hswept.visit he hwf₀ hvisit
    exact ⟨_, kept', rest, rfl, hswept'⟩

/-- With a timeout to begin with that is not zero, the loop of one request ends. -/
theorem pollCycles_total (hack : ∀ reading, initAckTimeout e.config (e.sysRand32Get reading) ≠ 0)
    {cycles : ℕ} {pending : Pending} (readings : ℕ) (send : Bool)
    (hcycles : 2 * pending.retries.toNat + (if pending.timeout = 0 then 2 else 1) ≤ cycles) :
    ∃ outcome, pollCycles e now cycles pending readings send = some outcome := by
  induction cycles generalizing pending readings send with
  | zero => split at hcycles <;> omega
  | succ cycles ih =>
    rw [pollCycles]
    split
    · exact ⟨_, rfl⟩
    · by_cases htimeout : pending.timeout = 0
      · -- the initial transmission sets a timeout, and takes no retransmission away
        rw [if_pos htimeout] at hcycles
        simp only [coapPendingCycle, htimeout, if_true]
        refine ih _ _ ?_
        rw [if_neg (hack readings)]
        exact Nat.le_of_succ_le_succ hcycles
      · rw [if_neg htimeout] at hcycles
        by_cases hretries : pending.retries = 0
        · simp [coapPendingCycle, htimeout, hretries]
        · have hpositive : pending.retries.toNat ≠ 0 := fun h => hretries (UInt8.toNat_inj.mp h)
          have hless : (pending.retries - 1).toNat = pending.retries.toNat - 1 := by
            rw [UInt8.toNat_sub_of_le]
            · rfl
            · rw [UInt8.le_iff_toNat_le]
              exact Nat.pos_of_ne_zero hpositive
          simp only [coapPendingCycle, htimeout, hretries, if_false, if_true]
          refine ih _ _ ?_
          rw [hless]
          split <;> omega

theorem pollVisit_total (hack : ∀ reading, initAckTimeout e.config (e.sysRand32Get reading) ≠ 0)
    {ref : ℕ} (hmem : ref ∈ s.2.refs) : ∃ s', pollVisit e now ref s = some s' := by
  obtain ⟨req, hfind⟩ := s.2.mem_refs_iff.mp hmem
  have hcycles : 2 * req.pending.retries.toNat + (if req.pending.timeout = 0 then 2 else 1) ≤
      2 * req.pending.retries.toNat + 2 := by split <;> omega
  obtain ⟨outcome, hloop⟩ : ∃ outcome, pollCycles e now (2 * req.pending.retries.toNat + 2)
      req.pending s.2.readings false = some outcome := pollCycles_total hack _ _ hcycles
  rw [pollVisit, hfind]
  dsimp only
  split
  · exact ⟨_, rfl⟩
  · rw [coapReqPollPrepare, hloop]
    exact ⟨_, rfl⟩

end Pass

/-- What a pass leaves behind, and what it returns. -/
structure NothingOverdue (e : Env κ σ) (now : UInt32) (c c' : Client κ σ) (timeout : ℤ) : Prop where
  /-- Every deadline is ahead. -/
  ahead : ∀ req ∈ c'.coapReqs, ¬ req.Established → 0 < timeLeft req.pending now
  /-- The requests are the same as before but for their timers, and in the same order. -/
  sublist : (c'.coapReqs.map CoapReq.untimed).Sublist (c.coapReqs.map CoapReq.untimed)
  /-- Those that are gone have been given up. -/
  gone : ∀ req ∈ c.coapReqs, req.ref ∉ c'.refs → GivenUp e now c c' req
  /-- The client may sleep until the first deadline. -/
  least : timeout = leastTimeLeft now c'.coapReqs

/-- **Nothing is overdue after a pass.** A pass over any list ends, and whatever the callbacks of
the requests that are given up do, other than scheduling, what is left has its deadlines ahead,
and the returned value is the least time left. -/
theorem nothingOverdue_of_pollPrepare (e : Env κ σ) (he : e.TimeoutsScheduleNothing)
    (c : Client κ σ) (hwf : WellFormed c) (now : ℤ) :
    (∀ visits timeout c', coapReqsPollPrepare e now visits c = some (timeout, c') →
      NothingOverdue e (uint32OfInt now) c c' timeout) ∧
    ((∀ reading, initAckTimeout e.config (e.sysRand32Get reading) ≠ 0) →
      ∃ result, coapReqsPollPrepare e now c.coapReqs.length c = some result) := by
  have hitems (todo : List ℕ) (s : ℤ × Client κ σ) (h : Sweeping e (uint32OfInt now) c todo s) :=
    items_of_sweeping h
  refine ⟨fun visits timeout c' h => ?_, fun hack => ?_⟩
  · obtain ⟨visited, kept, rest, hrest, hswept⟩ := SafeIteration.forEachSafe_sweep hitems
      (fun _ _ _ _ h hvisit => sweeping_visit he hwf h hvisit) (sweeping_start hwf) h
    obtain rfl := List.map_eq_nil_iff.mp hrest
    have hbefore : c.coapReqs = visited := by simpa using hswept.before
    have hafter : c'.coapReqs = kept := by simpa using hswept.after
    subst hafter
    refine ⟨fun req hmem hnot => (hswept.ahead req hmem).resolve_left hnot, ?_, ?_, hswept.least⟩
    · rw [hbefore]
      exact hswept.sublist
    · rw [hbefore]
      exact hswept.gone
  · have hbody (ref : ℕ) (todo : List ℕ) (s : ℤ × Client κ σ)
        (h : Sweeping e (uint32OfInt now) c (ref :: todo) s) :
        ∃ s', pollVisit e (uint32OfInt now) ref s = some s' ∧
          Sweeping e (uint32OfInt now) c todo s' := by
      have hlisted := (items_of_sweeping h).2.subset List.mem_cons_self
      obtain ⟨s', hvisit⟩ : ∃ s', pollVisit e (uint32OfInt now) ref s = some s' :=
        pollVisit_total hack hlisted
      exact ⟨s', hvisit, sweeping_visit he hwf h hvisit⟩
    have hlength : c.refs.length = c.coapReqs.length := List.length_map _
    rw [← hlength]
    have hstart : Sweeping e (uint32OfInt now) c c.refs (int64Max, c) := sweeping_start hwf
    exact SafeIteration.forEachSafe_sweep_total (s := (int64Max, c)) hitems hbody hstart

/-- A first notification. -/
def firstNotification : RxPacket where
  type := .nonCon
  code := 69
  id := 0
  token := firstToken
  options := [(.observe, 1)]
  payload := []

/-- An environment whose clock stands still at first, and later at 29 seconds. -/
def Env.later : Env Unit Unit :=
  { Env.quiet with kUptimeGet := fun reading => if reading < 20 then 0 else 29000 }

/-- An observation has been established, a request has been sent four times, and another request
has just been submitted. -/
def threeRequests : List (Op Unit) :=
  [.onConnect, .submit (.getA () true), .processRx firstNotification, .submit (.getA () false),
    .pollPrepare 0 2, .pollPrepare 2000 2, .pollPrepare 6000 2, .pollPrepare 14000 2,
    .submit (.getA () false)]

/-- After 30 seconds the second request is given up, and the third has a second left. -/
theorem nothingOverdue_of_threeRequests :
    ∃ c c', execute .later threeRequests () = some c ∧ c.refs = [0, 1, 2] ∧
      coapReqsPollPrepare .later 30000 3 c = some (1000, c') ∧ c'.refs = [0, 2] ∧
      (∃ req ∈ c'.coapReqs, req.Established) ∧
      NothingOverdue .later (uint32OfInt 30000) c c' 1000 := by
  obtain ⟨c, hrun⟩ := Option.isSome_iff_exists.mp
    (show (execute .later threeRequests ()).isSome = true by decide +kernel)
  have hfacts : (execute .later threeRequests ()).map (fun c => (c.refs,
      (coapReqsPollPrepare .later 30000 3 c).map fun polled => (polled.1, polled.2.refs,
        polled.2.coapReqs.any fun req => req.Established))) =
      some ([0, 1, 2], some (1000, [0, 2], true)) := by decide +kernel
  rw [hrun, Option.map_some, Option.some_inj] at hfacts
  obtain ⟨hrefs, hpoll⟩ := Prod.mk.inj hfacts
  obtain ⟨⟨timeout, c'⟩, hpolled, hafter⟩ := Option.map_eq_some_iff.mp hpoll
  obtain ⟨rfl, hafter⟩ := Prod.mk.inj hafter
  obtain ⟨hkept, hestablished⟩ := Prod.mk.inj hafter
  have hquiet : Env.later.TimeoutsScheduleNothing := fun _ _ => trivial
  exact ⟨c, c', hrun, hrefs, hpolled, hkept, by simpa using hestablished,
    (nothingOverdue_of_pollPrepare .later hquiet c
      (wellFormed_of_reachable (reachable_of_execute _ hrun)) 30000).1 3 1000 c' hpolled⟩

end Golioth.Requests
