/-
# Notifications out of order

A notification carries a number of 24 bits that wraps around. The receive loop
passes it to the response handler if its number is newer than that of the last
one passed on, or if that one is more than 128 seconds old. Over a whole stream
these are the notifications that the rule of RFC 7641 section 3.4 chooses, which
compares numbers on a circle.
-/
import Golioth.CS.SerialNumber
import Golioth.Requests.Following

namespace Golioth.Requests

open Golioth.Coap CS

variable {κ σ : Type} {e : Env κ σ} {c c' : Client κ σ} {ref : ℕ} {req req' : CoapReq κ}
  {rx : RxPacket}

/-! ## The reference rule -/

/-- A notification as the receive loop sees it: its number and the time, in
milliseconds, at which it arrived. -/
structure Note where
  seq : ℤ
  uptime : ℤ
  deriving DecidableEq

/-- A number of 24 bits. -/
def Note.InRange (note : Note) : Prop := 0 ≤ note.seq ∧ note.seq < 2 ^ 24

/-- The rule of RFC 7641 section 3.4: a notification replaces the last one if its
number is newer, or if more than 128 seconds have passed. -/
def replaces (last new : Note) : Bool :=
  SerialNumber.Newer (2 ^ 23) last.seq new.seq ∨ last.uptime + 128 * 1000 < new.uptime

/-- What a request remembers of the last notification. -/
def replyOf : Option Note → Reply
  | none => { seq := 0, ts := -coapObserveTsDiffNewer }
  | some note => { seq := note.seq, ts := note.uptime }

/-- The comparisons of the code are the reference rule. Before the first
notification, the artificial time stamp lets every one pass. -/
theorem coapReplyIsNewer_eq {last : Option Note} {new : Note}
    (hlast : ∀ note ∈ last, note.InRange) (hnew : new.InRange) (huptime : 0 < new.uptime) :
    coapReplyIsNewer (replyOf last) new.seq new.uptime =
      LastAccepted.accepts replaces last new := by
  cases last with
  | none =>
    rw [coapReplyIsNewer, replyOf, neg_add_cancel]
    simp [huptime, LastAccepted.accepts]
  | some note =>
    obtain ⟨hlow, hhigh⟩ := hlast note rfl
    have hhalf : (2 : ℤ) * 2 ^ 23 = 2 ^ 24 := rfl
    have hnewer : SerialNumber.Newer (2 ^ 23) note.seq new.seq ↔ _ :=
      SerialNumber.newer_iff hlow (hhalf ▸ hhigh) hnew.1 (hhalf ▸ hnew.2)
    rw [Bool.eq_iff_iff]
    simp only [coapReplyIsNewer, sequenceNumberIsNewer, replyOf, LastAccepted.accepts, replaces,
      decide_eq_true_eq, hnewer, coapObserveTsDiffNewer, gt_iff_lt]
    exact or_comm

/-! ## The calls of the response handler -/

/-- The call of the response handler a received packet leads to: the request it is
called for, and the client as the call finds it. -/
def handed (e : Env κ σ) (rx : RxPacket) (c : Client κ σ) : Option (ℕ × Client κ σ) :=
  (answered e rx c).bind fun req =>
    let seq := coapGetOptionInt rx .observe
    let uptime := e.kUptimeGet c.readings
    if seq = -Errno.enoent then some (req.ref, c)
    else if coapReplyIsNewer req.reply seq uptime then
      some (req.ref, c.tick.modify req.ref fun req =>
        { req with reply := { seq := seq, ts := uptime } })
    else none

/-- A packet has no effect but through the call of the response handler. -/
theorem coapReqProcessRx_eq (rx : RxPacket) (c : Client κ σ) :
    coapReqProcessRx e rx c =
      match handed e rx c with
      | some (ref, c₁) => coapReqReplyHandler e ref rx c₁
      | none => if (answered e rx c).isSome then c.tick else c := by
  unfold coapReqProcessRx handed
  cases answered e rx c with
  | none => rfl
  | some req =>
    simp only [Option.bind_some, Option.isSome_some, if_true]
    split
    · rfl
    · split <;> rfl

/-- What the receive loop makes of an operation, if it is a notification for the
request: the notification, and whether the response handler is called. -/
def noteOf (e : Env κ σ) (ref : ℕ) : Op κ → Client κ σ → Option (Note × Bool)
  | .processRx rx, c => (answered e rx c).bind fun req =>
    if req.ref = ref ∧ coapGetOptionInt rx .observe ≠ -Errno.enoent then
      some (⟨coapGetOptionInt rx .observe, e.kUptimeGet c.readings⟩, (handed e rx c).isSome)
    else none
  | _, _ => none

/-- The steps of a client together with the notifications for one request. -/
def ObservedStep (e : Env κ σ) (ref : ℕ) (label : Op κ × Option (Note × Bool))
    (c c' : Client κ σ) : Prop :=
  Step e label.1 c c' ∧ label.2 = noteOf e ref label.1 c

/-- The notifications in a run. -/
def notes (labels : List (Op κ × Option (Note × Bool))) : List (Note × Bool) :=
  labels.filterMap Prod.snd

/-! ## What a request remembers -/

/-- The response handler leaves alone what the request remembers. -/
theorem reply_handler (hwf : WellFormed c) (hfind : c.find ref = some req) (rx : RxPacket)
    (hfind' : (coapReqReplyHandler e ref rx c).find ref = some req') :
    req'.reply = req.reply := by
  rw [coapReqReplyHandler_eq e hwf hfind] at hfind'
  have hconsistent := consistent_verdict e.zephyr req rx
  cases hverdict : verdict e.zephyr req rx with
  | ignore blockCtx =>
    rw [hverdict, (carryOut_ignore hfind blockCtx).1, Option.some_inj] at hfind'
    rw [← hfind']
  | deliver blockCtx rsp err =>
    rw [hverdict] at hfind' hconsistent
    obtain ⟨ret, -, hkept⟩ := carryOut_deliver (e := e) hwf hfind blockCtx err hconsistent.1
    rw [hkept] at hfind'
    split at hfind'
    · rw [← Option.some_inj.mp hfind']
    · cases hfind'
  | offer blockCtx rsp =>
    rw [hverdict] at hfind'
    cases hobserve : req.isObserve with
    | false =>
      obtain ⟨ret, req'', hprepared, -, -, hkept⟩ :=
        carryOut_offer (e := e) hwf hfind hobserve blockCtx rsp
      rw [hkept] at hfind'
      split at hfind'
      · cases hfind'
      · obtain rfl := Option.some_inj.mp hfind'
        exact hprepared.same.reply
    | true =>
      rw [find_carryOut_offer_observed hwf hfind hobserve] at hfind'
      cases hfind'

private theorem reply_of_actions {p : Action κ → Prop}
    (hp : ∀ action, p action → action.about = some ref → action = .rearm ref ∨
      action = .send ref ∨ ∃ rsp, action = .finish ref rsp)
    (hwf : WellFormed c) (hlt : ref < c.nextRef) (hrun : CS.RunOf (Acts e) p c c')
    {reply : Reply} (hreply : ∀ req, c.find ref = some req → req.reply = reply) :
    ∀ req, c'.find ref = some req → req.reply = reply := by
  have h := hrun.invariant (fun d => WellFormed d ∧ ref < d.nextRef ∧
    ∀ req, d.find ref = some req → req.reply = reply) ?_ ⟨hwf, hlt, hreply⟩
  · exact h.2.2
  · rintro action s t haction ⟨hwf, hlt, hreply⟩ hacts
    refine ⟨hacts.wellFormed hwf, hlt.trans_le (hacts.nextRef_le hwf), fun req hfind => ?_⟩
    by_cases habout : action.about = some ref
    · rcases hp action haction habout with rfl | rfl | ⟨rsp, rfl⟩
      · cases hacts with
        | rearm _ pending =>
          have hself : (s.modify ref fun req => { req with pending := pending }).find ref = _ :=
            Client.find_modify_self s fun _ h => h
          rw [hself] at hfind
          obtain ⟨req', hfind', rfl⟩ := Option.map_eq_some_iff.mp hfind
          exact hreply req' hfind'
      · cases hacts with
        | send _ => exact hreply req hfind
      · cases hacts with
        | finish _ _ _ =>
          rw [find_coapReqCancelAndFree_self] at hfind
          cases hfind
    · rw [(hacts.frame hwf hlt habout).1] at hfind
      exact hreply req hfind

/-- What is not a notification for the request leaves alone what it remembers. -/
theorem reply_of_step (hwf : WellFormed c) (hlt : ref < c.nextRef) {op : Op κ}
    (hstep : Step e op c c') (hnote : noteOf e ref op c = none) {reply : Reply}
    (hreply : ∀ req, c.find ref = some req → req.reply = reply) :
    ∀ req, c'.find ref = some req → req.reply = reply := by
  cases op with
  | submit submission =>
    refine reply_of_actions (fun action haction habout => ?_) hwf hlt (perform_run hwf hstep) hreply
    obtain rfl : action = .submit submission := haction
    cases habout
  | processRx rx =>
    obtain rfl := Option.some_inj.mp hstep
    by_cases hanswered : ∃ req, answered e rx c = some req ∧ req.ref = ref
    · obtain ⟨req, hanswered, rfl⟩ := hanswered
      have hobserve : coapGetOptionInt rx .observe = -Errno.enoent := by
        by_contra hobserve
        rw [noteOf, hanswered, Option.bind_some, if_pos ⟨rfl, hobserve⟩] at hnote
        cases hnote
      have hfind := find_answered hwf hanswered
      intro req' hfind'
      have hrun : coapReqProcessRx e rx c = coapReqReplyHandler e req.ref rx c := by
        rw [coapReqProcessRx, hanswered]
        exact if_pos hobserve
      rw [hrun] at hfind'
      rw [reply_handler hwf hfind rx hfind']
      exact hreply req hfind
    · rw [(processRx_frame hwf hlt fun req h href => hanswered ⟨req, h, href⟩).1]
      exact hreply
  | pollPrepare now visits =>
    refine reply_of_actions (fun action haction habout => ?_) hwf hlt (perform_run hwf hstep) hreply
    rcases haction with rfl | ⟨ref', rfl | rfl | ⟨userData, rfl⟩⟩
    · cases habout
    · exact .inl (by rw [Option.some_inj.mp habout])
    · exact .inr (.inl (by rw [Option.some_inj.mp habout]))
    · exact .inr (.inr ⟨_, by rw [Option.some_inj.mp habout]⟩)
  | onConnect =>
    refine reply_of_actions (fun action haction habout => ?_) hwf hlt (perform_run hwf hstep) hreply
    obtain rfl : action = .internal := haction
    cases habout
  | onDisconnect =>
    refine reply_of_actions (fun action haction habout => ?_) hwf hlt (perform_run hwf hstep) hreply
    rcases haction with rfl | ⟨ref', userData, rfl⟩
    · cases habout
    · exact .inr (.inr ⟨_, by rw [Option.some_inj.mp habout]⟩)

/-- The request remembers the last notification that was passed on. -/
structure Remembers (ref : ℕ) (last : Option Note) (c : Client κ σ) : Prop where
  wellFormed : WellFormed c
  ref_lt : ref < c.nextRef
  reply : ∀ req, c.find ref = some req → req.reply = replyOf last

/-- **Step.** A notification is passed on if the reference rule accepts it, and is
then the one remembered; one that is not passed on changes nothing. -/
theorem remembers_of_note {last : Option Note} (h : Remembers ref last c)
    (hlast : ∀ note ∈ last, note.InRange) {op : Op κ} (hstep : Step e op c c') {note : Note}
    {passed : Bool} (hnote : noteOf e ref op c = some (note, passed)) (hrange : note.InRange)
    (huptime : 0 < note.uptime) :
    passed = LastAccepted.accepts replaces last note ∧
      Remembers ref (LastAccepted.update last note passed) c' := by
  cases op with
  | processRx rx =>
    have hwf' := wellFormed_step h.wellFormed hstep
    have hle : c.nextRef ≤ c'.nextRef :=
      (wellFormed_of_run (perform_run h.wellFormed hstep) h.wellFormed).2
    obtain rfl := Option.some_inj.mp hstep
    obtain ⟨req, hanswered, hreq⟩ := Option.bind_eq_some_iff.mp hnote
    split at hreq
    · next hthis =>
      obtain ⟨rfl, hobserve⟩ := hthis
      obtain ⟨rfl, rfl⟩ := Prod.mk.inj (Option.some_inj.mp hreq)
      have hfind := find_answered h.wellFormed hanswered
      -- the code's comparison of sequence numbers and times is that of the rule
      have hnewer := coapReplyIsNewer_eq hlast hrange huptime
      rw [← h.reply req hfind] at hnewer
      have hhanded : handed e rx c =
          if LastAccepted.accepts replaces last
              ⟨coapGetOptionInt rx .observe, e.kUptimeGet c.readings⟩ then
            some (req.ref, c.tick.modify req.ref fun req => { req with
              reply := { seq := coapGetOptionInt rx .observe, ts := e.kUptimeGet c.readings } })
          else none := by
        rw [handed, hanswered, Option.bind_some, if_neg hobserve, ← hnewer]
      have hrun := coapReqProcessRx_eq (e := e) rx c
      rw [hhanded] at hrun
      rw [hhanded]
      split
      · next haccepts =>
        rw [if_pos haccepts] at hrun
        refine ⟨haccepts.symm, hwf', h.ref_lt.trans_le hle, fun req' hfind' => ?_⟩
        -- passed on: the reply remembers this notification, whatever the handler does then
        have hwf₁ : WellFormed c.tick :=
          ⟨h.wellFormed.nodup, h.wellFormed.refs_lt, h.wellFormed.log_lt⟩
        have hwf₂ := Acts.wellFormed (e := e) (.track req.ref
          (fun _ => { seq := coapGetOptionInt rx .observe, ts := e.kUptimeGet c.readings }) id) hwf₁
        have hfind₂ := find_track (c := c.tick) hfind
          (fun _ => { seq := coapGetOptionInt rx .observe, ts := e.kUptimeGet c.readings }) id
        rw [hrun] at hfind'
        exact reply_handler hwf₂ hfind₂ rx hfind'
      · next haccepts =>
        -- held back: nothing of the request changes
        rw [if_neg haccepts, hanswered] at hrun
        refine ⟨by simpa using haccepts, hwf', h.ref_lt.trans_le hle, fun req' hfind' => ?_⟩
        rw [hrun] at hfind'
        exact h.reply req' hfind'
    · cases hreq
  | submit submission => cases hnote
  | pollPrepare now visits => cases hnote
  | onConnect => cases hnote
  | onDisconnect => cases hnote

/-- **Run.** The notifications passed on are those the reference rule accepts. -/
theorem decides_of_run {labels : List (Op κ × Option (Note × Bool))} {last : Option Note}
    (h : Remembers ref last c) (hlast : ∀ note ∈ last, note.InRange)
    (hnotes : ∀ note ∈ notes labels, note.1.InRange ∧ 0 < note.1.uptime)
    (hrun : Run (ObservedStep e ref) labels c c') :
    LastAccepted.Decides replaces last (notes labels) ∧
      Remembers ref (LastAccepted.lastAccepted last (notes labels)) c' := by
  induction hrun generalizing last with
  | nil => exact ⟨trivial, h⟩
  | @cons label labels s t u hstep hrest ih =>
    obtain ⟨op, note⟩ := label
    obtain ⟨hstep, hnote⟩ := hstep
    cases note with
    | none =>
      have hle := (wellFormed_of_run (perform_run h.wellFormed hstep) h.wellFormed).2
      exact ih ⟨wellFormed_step h.wellFormed hstep, h.ref_lt.trans_le hle,
        reply_of_step h.wellFormed h.ref_lt hstep hnote.symm h.reply⟩ hlast hnotes
    | some note =>
      obtain ⟨hrange, huptime⟩ := hnotes note List.mem_cons_self
      obtain ⟨haccepts, hremembers⟩ :=
        remembers_of_note h hlast hstep hnote.symm hrange huptime
      have hlast' : ∀ z ∈ LastAccepted.update last note.1 note.2, z.InRange := by
        intro z hz
        rw [LastAccepted.update] at hz
        split at hz
        · exact Option.some_inj.mp hz ▸ hrange
        · exact hlast z hz
      obtain ⟨hdecides, hend⟩ := ih hremembers hlast'
        fun note hmem => hnotes note (List.mem_cons_of_mem _ hmem)
      exact ⟨⟨haccepts, hdecides⟩, hend⟩

/-- A notification is a retransmission of one passed on before: it has the same
number and arrives within 128 seconds, and what was passed on in between is newer. -/
structure Retransmits (x : Note) (between : List (Note × Bool)) (y : Note) : Prop where
  seq : y.seq = x.seq
  uptime : y.uptime ≤ x.uptime + 128 * 1000
  between : ∀ z ∈ between, z.2 = true → SerialNumber.Newer (2 ^ 23) x.seq z.1.seq

private theorem not_replaces_of_retransmits {x y : Note} {between : List (Note × Bool)}
    (h : Retransmits x between y) (hmono : ∀ z ∈ between, x.uptime ≤ z.1.uptime) :
    LastAccepted.accepts replaces (LastAccepted.lastAccepted (some x) between) y = false := by
  have hlast : ∀ z ∈ LastAccepted.lastAccepted (some x) between,
      (z = x ∨ SerialNumber.Newer (2 ^ 23) x.seq z.seq) ∧ x.uptime ≤ z.uptime :=
    LastAccepted.lastAccepted_of_accepted
      (p := fun z => (z = x ∨ SerialNumber.Newer (2 ^ 23) x.seq z.seq) ∧ x.uptime ≤ z.uptime)
      (by simp) fun z hz hpassed => ⟨.inr (h.between z hz hpassed), hmono z hz⟩
  have hsome : ∃ z, LastAccepted.lastAccepted (some x) between = some z :=
    Option.isSome_iff_exists.mp (LastAccepted.isSome_lastAccepted rfl)
  obtain ⟨z, hz⟩ := hsome
  obtain ⟨hseq, huptime⟩ := hlast z hz
  have hnewer : ¬ SerialNumber.Newer (2 ^ 23) z.seq y.seq := by
    rw [h.seq]
    rcases hseq with rfl | hseq
    · exact SerialNumber.not_newer_self _ _
    · exact hseq.asymm
  have hlate := h.uptime
  rw [hz, LastAccepted.accepts, replaces, decide_eq_false_iff_not, not_or]
  exact ⟨hnewer, by omega⟩

/-- **Reordering.** From the submission of a request on, in every run, the
notifications for it that are passed to the response handler are those the
reference rule chooses, the first one always; the request remembers the last one
passed on, so that the others leave no trace; and no retransmission is passed on. -/
theorem passed_iff_chosen {app : σ} (hreach : Reachable e app c) {submission : Submission κ}
    (hok : (submit e submission c).1 = 0) {labels : List (Op κ × Option (Note × Bool))}
    (hrun : Run (ObservedStep e c.nextRef) labels (submit e submission c).2 c')
    (hnotes : ∀ note ∈ notes labels, note.1.InRange ∧ 0 < note.1.uptime)
    (hmono : (notes labels).Pairwise fun x y => x.1.uptime ≤ y.1.uptime) :
    LastAccepted.Decides replaces none (notes labels) ∧
      (∀ req, c'.find c.nextRef = some req →
        req.reply = replyOf (LastAccepted.lastAccepted none (notes labels))) ∧
      ∀ before x between y after, notes labels = before ++ x :: between ++ y :: after →
        x.2 = true → Retransmits x.1 between y.1 → y.2 = false := by
  have hwf := wellFormed_of_reachable hreach
  have hstart : Remembers c.nextRef none (submit e submission c).2 := by
    refine ⟨(effect_submit none hwf submission).wellFormed, nextRef_lt_submit submission c,
      fun req hfind => ?_⟩
    obtain ⟨req', reading, hreqs, hreply, -⟩ := coapReqs_of_submit_ok e hok
    have hnone := hwf.find_eq_none le_rfl
    rw [Client.find] at hnone hfind
    rw [hreqs, List.find?_append, hnone, Option.none_or] at hfind
    rw [List.mem_singleton.mp (List.mem_of_find?_eq_some hfind), hreply]
    rfl
  obtain ⟨hdecides, hend⟩ := decides_of_run hstart (by simp) hnotes hrun
  refine ⟨hdecides, hend.reply, fun before x between y after hsplit hx hretransmits => ?_⟩
  rw [hsplit] at hdecides hmono
  rw [hdecides.after_accepted hx]
  refine not_replaces_of_retransmits hretransmits fun z hz => ?_
  have hafter := (List.pairwise_append.mp hmono).1
  have hsorted := (List.pairwise_append.mp hafter).2.1
  exact (List.pairwise_cons.mp hsorted).1 z hz

/-- The quiet environment with a clock that advances at every reading. -/
def Env.running : Env Unit Unit := { Env.quiet with kUptimeGet := fun reading => reading + 1 }

/-- A notification without a body. -/
def numbered (seq : ℤ) : RxPacket where
  type := .nonCon
  code := 69
  id := 0
  token := firstToken
  options := [(.observe, seq)]
  payload := []

/-- Three notifications, the second with a number that has wrapped around, the
third a repetition of the second. -/
def wrappingNotes : List (Op Unit × Option (Note × Bool)) :=
  [(.processRx (numbered 16777215), some (⟨16777215, 6⟩, true)),
    (.processRx (numbered 1), some (⟨1, 7⟩, true)),
    (.processRx (numbered 1), some (⟨1, 8⟩, false))]

theorem passed_iff_chosen_wrapping :
    LastAccepted.Decides replaces none (notes wrappingNotes) ∧
      Retransmits ⟨1, 7⟩ [] ⟨1, 8⟩ := by
  have hreach : Reachable Env.running () (coapReqsOnConnect (Client.init ())) :=
    reachable_of_execute (e := Env.running) (show execute _ [.onConnect] () = some _ from rfl)
  have hok : (submit Env.running (.getA () true) (coapReqsOnConnect (Client.init ()))).1 = 0 := by
    decide
  have hrun : Run (ObservedStep Env.running 0) wrappingNotes
      (submit Env.running (.getA () true) (coapReqsOnConnect (Client.init ()))).2 _ :=
    .cons ⟨rfl, by decide⟩ (.cons ⟨rfl, by decide⟩ (.single ⟨rfl, by decide⟩))
  have hnotes : ∀ note ∈ notes wrappingNotes, note.1.InRange ∧ 0 < note.1.uptime := by
    unfold Note.InRange
    decide
  exact ⟨(passed_iff_chosen hreach hok hrun hnotes (by decide)).1,
    ⟨rfl, by decide, fun _ h => absurd h List.not_mem_nil⟩⟩

end Golioth.Requests
