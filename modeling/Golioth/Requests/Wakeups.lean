/-
# Waking the loop

`golioth_coap_req_schedule` wakes the loop of the client when it has put a request on
the list. A callback may do so in the middle of a pass over the list, and what the
pass returns then does not take account of the new request. This file compares what
a pass returns with the list it leaves, whatever the callbacks do.
-/
import Golioth.Requests.Polling

namespace Golioth.Requests

open Golioth.Coap CS

variable {κ σ : Type} {e : Env κ σ} {c : Client κ σ} {now : UInt32} {ref : ℕ}

/-! ## Counting -/

/-- A submission that has succeeded, which calls `client->wakeup`. -/
def Event.wakes : Event → Bool
  | .scheduled _ _ err => err = 0
  | _ => false

/-- How often `client->wakeup` has been called. -/
def wakeups (c : Client κ σ) : ℕ := c.log.countP Event.wakes

theorem wakeups_emit (event : Event) (h : event.wakes = false) (c : Client κ σ) :
    wakeups (c.emit event) = wakeups c := by
  simp [wakeups, Client.emit, List.countP_append, h]

/-- A submission wakes the loop and lists its request, or it does neither. -/
theorem wakeups_submit (submission : Submission κ) (c : Client κ σ) :
    wakeups (submit e submission c).2 = wakeups c + 1 ∨
      wakeups (submit e submission c).2 = wakeups c ∧
        (submit e submission c).2.coapReqs = c.coapReqs := by
  have hsubmitted := submitted e submission c
  generalize submit e submission c = result at hsubmitted
  cases hsubmitted with
  | @rejected err readings log events herr hevents hlog =>
    have hquiet : events.countP Event.wakes = 0 := by
      refine List.countP_eq_zero.mpr fun event hmem => ?_
      rw [hevents event hmem]
      exact Bool.false_ne_true
    refine .inr ⟨?_, rfl⟩
    show log.countP Event.wakes = wakeups c
    rw [hlog, List.countP_append, List.countP_append, hquiet]
    simp [wakeups, Event.wakes, herr]
  | listed _ _ =>
    left
    simp [wakeups, List.countP_append, Event.wakes]

/-- The loop has been woken, or the list is as it was. -/
def WokenOrSame (c c' : Client κ σ) : Prop :=
  wakeups c < wakeups c' ∨ wakeups c' = wakeups c ∧ c'.coapReqs = c.coapReqs

theorem WokenOrSame.refl (c : Client κ σ) : WokenOrSame c c := .inr ⟨rfl, rfl⟩

theorem WokenOrSame.trans {c c' c'' : Client κ σ} (h : WokenOrSame c c')
    (h' : WokenOrSame c' c'') : WokenOrSame c c'' := by
  rcases h with hlt | ⟨hcount, hlist⟩
  · exact .inl (h'.elim hlt.trans fun h' => hlt.trans_eq h'.1.symm)
  · exact h'.imp (hcount ▸ ·) fun h' => ⟨h'.1.trans hcount, h'.2.trans hlist⟩

theorem wokenOrSame_submit (submission : Submission κ) (c : Client κ σ) :
    WokenOrSame c (submit e submission c).2 :=
  (wakeups_submit submission c).imp (fun h => by rw [h]; exact Nat.lt_succ_self _) id

/-- A callback that cannot ask for a block changes the list by submissions alone. -/
theorem wokenOrSame_invokeLast (ref : ℕ) (cb : Option κ) (rsp : Rsp) (c : Client κ σ) :
    WokenOrSame c (invokeLast e ref cb rsp c).2 := by
  have hrun : WokenOrSame (c.emit (.called ref rsp))
      ((e.callback cb rsp).run (answerWith e fun _ c => (0, c)) (c.emit (.called ref rsp))).2 :=
    CS.Prog.run_rel (answerWith e fun _ c => (0, c)) WokenOrSame.refl WokenOrSame.trans
      (fun command c => ?_) (e.callback cb rsp) (c.emit (.called ref rsp))
  · rcases hrun with hlt | ⟨hcount, hlist⟩
    · refine .inl ?_
      rw [wakeups_emit _ rfl] at hlt
      exact hlt.trans_eq (wakeups_emit _ rfl _).symm
    · exact .inr ⟨(wakeups_emit _ rfl _).trans (hcount.trans (wakeups_emit _ rfl c)), hlist⟩
  · cases command with
    | getNext status => exact .refl c
    | submit submission => exact wokenOrSame_submit submission c
    | get => exact .refl c
    | set app => exact .inr ⟨rfl, rfl⟩

/-! ## A pass -/

/-- The requests `todo` have not been visited yet, and what the pass has found is right of those
that have been. -/
structure Sighted (now : UInt32) (todo : List ℕ) (s : ℤ × Client κ σ) : Prop where
  wellFormed : WellFormed s.2
  split : ∃ kept rest, s.2.coapReqs = kept ++ rest ∧ rest.map CoapReq.ref = todo ∧
    ∀ req ∈ kept, ¬ req.Established → s.1 ≤ timeLeft req.pending now ∧
      0 < timeLeft req.pending now

theorem Sighted.items {todo : List ℕ} {s : ℤ × Client κ σ} (h : Sighted now todo s) :
    s.2.refs.Nodup ∧ todo <:+ s.2.refs := by
  obtain ⟨kept, rest, hlist, rfl, -⟩ := h.split
  refine ⟨h.wellFormed.nodup, ?_⟩
  rw [Client.refs, hlist, List.map_append]
  exact List.suffix_append _ _

/-- No visit takes a wake-up back. -/
theorem wakeups_le_pollVisit {s s' : ℤ × Client κ σ} (hvisit : pollVisit e now ref s = some s') :
    wakeups s.2 ≤ wakeups s'.2 := by
  unfold pollVisit at hvisit
  split at hvisit
  · cases hvisit
  · next req hfind =>
    split at hvisit
    · obtain rfl := Option.some_inj.mp hvisit
      exact le_rfl
    · obtain ⟨polled, hpoll, rfl⟩ := Option.map_eq_some_iff.mp hvisit
      obtain ⟨outcome, -, rfl⟩ := Option.map_eq_some_iff.mp hpoll
      cases outcome with
      | waits timeout send pending readings =>
        rw [PollOutcome.carryOut]
        dsimp only
        split
        · exact (wakeups_emit _ rfl _).ge
        · exact le_rfl
      | expires pending readings =>
        have hinvoked := wokenOrSame_invokeLast (e := e) req.ref req.cb (timedOutRsp req.userData)
          { s.2.modify req.ref fun req => { req with pending := pending } with
            readings := readings }
        rw [PollOutcome.carryOut]
        refine le_trans ?_ (wakeups_emit (.freed req.ref) rfl _).ge
        exact hinvoked.elim le_of_lt fun h => h.1.ge

/-- **Visit.** A visit goes one request further, unless a request is submitted in it. -/
theorem Sighted.visit {todo : List ℕ} {s s' : ℤ × Client κ σ} (h : Sighted now (ref :: todo) s)
    (hvisit : pollVisit e now ref s = some s') :
    wakeups s.2 < wakeups s'.2 ∨ Sighted now todo s' := by
  obtain ⟨kept, rest, hlist, htodo, hkept⟩ := h.split
  have hwf' := (wellFormed_of_run (pollVisit_run hvisit) h.wellFormed).1
  cases rest with
  | nil => cases htodo
  | cons req rest =>
    obtain ⟨rfl, rfl⟩ := List.cons.inj htodo
    have hmem : req ∈ s.2.coapReqs := by simp [hlist]
    have hfind : s.2.find req.ref = some req := Client.find_of_mem h.wellFormed.nodup hmem
    unfold pollVisit at hvisit
    rw [hfind] at hvisit
    dsimp only at hvisit
    split at hvisit
    · next hestablished =>
      obtain rfl := Option.some_inj.mp hvisit
      -- an established observation does not wait for an answer
      have hdone : req.Established := ⟨hestablished.1, by simpa using hestablished.2⟩
      refine .inr ⟨hwf', kept ++ [req], rest, by simp [hlist], rfl, fun other hother hnot => ?_⟩
      rcases List.mem_append.mp hother with hother | hother
      · exact hkept other hother hnot
      · exact absurd (List.mem_singleton.mp hother ▸ hdone) hnot
    · obtain ⟨polled, hpoll, rfl⟩ := Option.map_eq_some_iff.mp hvisit
      obtain ⟨outcome, hloop, rfl⟩ := Option.map_eq_some_iff.mp hpoll
      have hbefore : ∀ other ∈ kept, ¬ other.Established → ∀ least,
          min s.1 least ≤ timeLeft other.pending now ∧ 0 < timeLeft other.pending now :=
        fun other hother hnot least =>
          (hkept other hother hnot).imp (min_le_of_left_le ·) id
      cases outcome with
      | waits timeout send pending readings =>
        -- the request stays, and what it has left enters the minimum
        obtain ⟨htimeout, hleft⟩ := waits_of_pollCycles hloop
        have hmodified := coapReqs_modify_of_split h.wellFormed.nodup hlist
          fun req => { req with pending := pending }
        refine .inr ⟨hwf', kept ++ [{ req with pending := pending }], rest, ?_, rfl,
          fun other hother hnot => ?_⟩
        · rw [List.append_assoc, List.singleton_append]
          dsimp only [PollOutcome.carryOut]
          split <;> exact hmodified
        · rcases List.mem_append.mp hother with hother | hother
          · exact hbefore other hother hnot _
          · obtain rfl := List.mem_singleton.mp hother
            exact ⟨(min_le_right _ _).trans htimeout.le, hleft⟩
      | expires pending readings =>
        have hmodified := coapReqs_modify_of_split h.wellFormed.nodup hlist
          fun req => { req with pending := pending }
        -- given up: its callback may submit, which wakes the loop, and it is freed after
        have hrefs : (s.2.modify req.ref fun req => { req with pending := pending }).refs =
            s.2.refs := Client.refs_modify s.2 fun _ h => h
        have hinvoked := wokenOrSame_invokeLast (e := e) req.ref req.cb (timedOutRsp req.userData)
          { s.2.modify req.ref fun req => { req with pending := pending } with
            readings := readings }
        refine hinvoked.imp (fun hlt => ?_) fun ⟨hcount, hsame⟩ => ⟨hwf', kept, rest, ?_, rfl, ?_⟩
        · exact hlt.trans_eq (wakeups_emit (.freed req.ref) rfl _).symm
        · have hnodup := congrArg List.Nodup ((congrArg (List.map CoapReq.ref) hsame).trans hrefs)
          exact coapReqs_cancelAndFree_of_split (hnodup.mpr h.wellFormed.nodup)
            (hsame.trans hmodified) rfl
        · exact fun other hother hnot => hbefore other hother hnot _

/-- What a pass returns is positive. -/
theorem timeout_pos_of_pollPrepare {time : ℤ} {visits : ℕ} {polled : ℤ × Client κ σ}
    (h : coapReqsPollPrepare e time visits c = some polled) : 0 < polled.1 := by
  refine SafeIteration.forEachSafe_rel (r := fun s s' : ℤ × Client κ σ => 0 < s.1 → 0 < s'.1)
    (fun _ => id) (fun h h' => h' ∘ h) (fun ref s s' hvisit hpos => ?_) h
    (show (0 : ℤ) < int64Max by decide)
  unfold pollVisit at hvisit
  split at hvisit
  · cases hvisit
  · next req hfind =>
    split at hvisit
    · obtain rfl := Option.some_inj.mp hvisit
      exact hpos
    · obtain ⟨polled, hpoll, rfl⟩ := Option.map_eq_some_iff.mp hvisit
      obtain ⟨outcome, hloop, rfl⟩ := Option.map_eq_some_iff.mp hpoll
      refine lt_min hpos ?_
      cases outcome with
      | waits timeout send pending readings =>
        obtain ⟨htimeout, hleft⟩ := waits_of_pollCycles hloop
        exact hleft.trans_eq htimeout.symm
      | expires pending readings => exact show (0 : ℤ) < int64Max by decide

/-- **Pass.** Unless a callback has submitted a request, what a pass returns is no more than the
time that is left for any request on the list. -/
theorem timeLeft_of_pollPrepare (hwf : WellFormed c) {time timeout : ℤ} {visits : ℕ}
    {c' : Client κ σ} (h : coapReqsPollPrepare e time visits c = some (timeout, c')) :
    wakeups c < wakeups c' ∨ ∀ req ∈ c'.coapReqs, ¬ req.Established →
      timeout ≤ timeLeft req.pending (uint32OfInt time) ∧
        0 < timeLeft req.pending (uint32OfInt time) := by
  have hescaped : ∀ ref (s s' : ℤ × Client κ σ), wakeups c < wakeups s.2 →
      pollVisit e (uint32OfInt time) ref s = some s' → wakeups c < wakeups s'.2 :=
    fun ref s s' hlt hvisit => hlt.trans_le (wakeups_le_pollVisit hvisit)
  have hitems : ∀ todo (s : ℤ × Client κ σ),
      Sighted (uint32OfInt time) todo s ∧ wakeups c ≤ wakeups s.2 →
        s.2.refs.Nodup ∧ todo <:+ s.2.refs := fun todo s h => h.1.items
  have hswept := SafeIteration.forEachSafe_sweep_or hescaped hitems (fun ref todo s s' h hvisit => ?_)
    ⟨⟨hwf, [], c.coapReqs, rfl, rfl, by simp⟩, le_rfl⟩ h
  · refine hswept.imp id fun ⟨hsighted, _⟩ => ?_
    obtain ⟨kept, rest, hlist, hrest, hkept⟩ := hsighted.split
    obtain rfl := List.map_eq_nil_iff.mp hrest
    rw [List.append_nil] at hlist
    rw [hlist]
    exact hkept
  · exact (h.1.visit hvisit).imp h.2.trans_lt fun hsighted =>
      ⟨hsighted, h.2.trans (wakeups_le_pollVisit hvisit)⟩

end Golioth.Requests
