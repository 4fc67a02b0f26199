/-
# The image is complete when the upgrade is requested

The blocks of the image arrive over a network that loses, repeats and reorders packets;
notifications of the desired firmware, reports and requests of other code come in between,
the connection may break off, writes to the flash may fail, and the main thread looks at the
semaphore whenever it likes. The invariant ties what the slot has been given to the blocks
that have been delivered, and the semaphore to the last of them.
-/
import Golioth.Dfu.OneDownload
import Golioth.Requests.Blockwise

namespace Golioth.Dfu

open Golioth.Coap Golioth.Requests
open CS.Pieces (join)

variable {F S E κ : Type} {d : Sample F S E κ} {e : Env κ (App F)} {c c' : Client κ (App F)}
  {ref : ℕ} {req : CoapReq κ} {area given : F → List UInt8} {named : List UInt8 → Option (ℕ × ℕ)}
  {payload : List UInt8} {szx : ℕ}

/-! ## The invariant -/

/-- While the request of the download is listed, the slot has been given what has been
delivered. -/
def Stores (d : Sample F S E κ) (area given : F → List UInt8) (flash : F)
    (listed : Option (CoapReq κ)) (events : List Event) : Prop :=
  ∀ req, listed = some req → req.cb = some d.dataReceived ∧ (progress events ≠ 0 →
    Takes d.flash area given flash ∧ given flash = join (pieces (successes events)))

/-- A download has been started with the request at an address, which is the only one; once the
image has been received, it is in the slot. -/
structure Downloading (d : Sample F S E κ) (e : Env κ (App F)) (area given : F → List UInt8)
    (named : List UInt8 → Option (ℕ × ℕ)) (payload : List UInt8) (szx ref : ℕ)
    (c : Client κ (App F)) : Prop where
  follows : Follows (fun listed events => Transfer e named payload szx ref listed events ∧
    Stores d area given c.app.flash listed events) ref c
  started : c.app.downloadingStarted = true
  only : ∀ ref' req, c.find ref' = some req → req.cb = some d.dataReceived → ref' = ref
  waiting : (c.find ref).isSome → ¬ c.app.Done
  stored : c.app.Done → c.app.Unrequested → payload <+: area c.app.flash

/-- **The invariant.** -/
def Sound (d : Sample F S E κ) (e : Env κ (App F)) (area given : F → List UInt8)
    (named : List UInt8 → Option (ℕ × ℕ)) (payload : List UInt8) (szx : ℕ)
    (c : Client κ (App F)) : Prop :=
  WellFormed c ∧ (Idle d c ∨ ∃ ref, Downloading d e area given named payload szx ref c)

/-! ## What leaves the invariant alone -/

theorem Downloading.keep (h : Downloading d e area given named payload szx ref c)
    (happ : SameImage c.app c'.app) (hadds : AddsNone d.dataReceived c c')
    (hfollows : Follows (fun listed events => Transfer e named payload szx ref listed events ∧
      Stores d area given c.app.flash listed events) ref c') :
    Downloading d e area given named payload szx ref c' where
  follows := happ.flash.symm ▸ hfollows
  started := happ.started.trans h.started
  only ref' req hfind hcb := by
    obtain ⟨req', hfind', hcb'⟩ := hadds ref' req hfind hcb
    exact h.only ref' req' hfind' hcb'
  waiting hlisted hdone := by
    obtain ⟨req, hfind⟩ := Option.isSome_iff_exists.mp hlisted
    obtain ⟨hcb, -⟩ := hfollows.holds.2 req hfind
    obtain ⟨req', hfind', -⟩ := hadds ref req hfind hcb
    exact h.waiting (Option.isSome_iff_exists.mpr ⟨req', hfind'⟩) (happ.done.mp hdone)
  stored hdone hunrequested := by
    rw [happ.flash]
    exact h.stored (happ.done.mp hdone) (happ.unrequested hunrequested)

theorem Downloading.congr (h : Downloading d e area given named payload szx ref c)
    (happ : SameImage c.app c'.app) (hadds : AddsNone d.dataReceived c c')
    (hwf : WellFormed c') (hle : c.nextRef ≤ c'.nextRef) (hfind : c'.find ref = c.find ref)
    (hhistory : c'.history ref = c.history ref) :
    Downloading d e area given named payload szx ref c' :=
  h.keep happ hadds (h.follows.congr hwf hle hfind hhistory)

private theorem keeps_stores (flash : F) :
    Keeps (Stores (κ := κ) d area given flash) ref where
  rearm req events pending h := by
    intro req' hreq'
    obtain rfl := Option.some_inj.mp hreq'
    exact h req rfl
  note req events reply h := by
    intro req' hreq'
    obtain rfl := Option.some_inj.mp hreq'
    exact h req rfl
  send req events h := by
    have hsame : successes (events ++ [.sent ref req.request.data]) = successes events := by
      simp [successes, invocations]
    intro req' hreq'
    rw [progress, hsame]
    exact h req' hreq'
  close req events rsp ret herr _ h := by
    rintro req' hreq'
    cases hreq'

/-! ## Blocks of the image -/

/-- If the callback turns a block down, the request is gone. -/
private theorem find_carryOut_of_failed (hruns : Runs d e) (hwf : WellFormed c)
    (hfind : c.find req.ref = some req) (hcb : req.cb = some d.dataReceived)
    (blockCtx : BlockContext) {rsp : Rsp} (hfailed : (received d.flash rsp c.app).1 ≠ 0) :
    ((Verdict.offer blockCtx rsp).carryOut e req c).find req.ref = none := by
  have hret := (invoke_tracked hruns hfind hcb blockCtx rsp rfl).1
  have htracked : Acts e (.track req.ref) c
      (c.modify req.ref fun req => { req with blockCtx := blockCtx }) :=
    .track req.ref id fun _ => blockCtx
  obtain ⟨req', hfind', -⟩ := find_invoke (e := e) (htracked.wellFormed hwf)
    (find_track hfind id fun _ => blockCtx) req.cb rsp
  rw [← hret] at hfailed
  rw [Verdict.carryOut, if_pos hfailed, labelCancelAndFree_of_find hfind',
    if_neg fun h => hfailed h.2]
  exact find_coapReqCancelAndFree_self _

private theorem done_writeData {lib : FlashLib F} {rsp : Rsp} {app : App F}
    (hdone : (writeData lib rsp app).2.Done) :
    app.Done ∨ (writeData lib rsp app).1 = 0 ∧ rsp.getNext = false := by
  obtain ⟨flash, semDownloaded, happ, hgiven⟩ := writeData_app lib rsp app
  rw [happ] at hdone
  cases hdone with
  | given hsem => exact (hgiven hsem).imp_left .given
  | downloaded hmain => exact .inl (.downloaded hmain)
  | updating hmain => exact .inl (.updating hmain)
  | requested err hmain => exact .inl (.requested err hmain)

/-- After a response either the request is gone, with the image in the slot if it has been
received, or the slot still holds what has been delivered. -/
private theorem Downloading.respond (h : Downloading d e area given named payload szx ref c)
    (hwf : WellFormed c') (hle : c.nextRef ≤ c'.nextRef)
    (hstarted : c'.app.downloadingStarted = c.app.downloadingStarted)
    (hadds : AddsNone d.dataReceived c c')
    (htransfer : Transfer e named payload szx ref (c'.find ref) (c'.history ref))
    (hnow : c'.find ref = none ∧ (c'.app.Done → payload <+: area c'.app.flash) ∨
      ¬ c'.app.Done ∧ Stores d area given c'.app.flash (c'.find ref) (c'.history ref)) :
    Downloading d e area given named payload szx ref c' where
  follows := by
    refine ⟨hwf, h.follows.ref_lt.trans_le hle, htransfer, ?_⟩
    rcases hnow with ⟨hgone, -⟩ | ⟨-, hstores⟩
    · rintro req hreq
      rw [hgone] at hreq
      cases hreq
    · exact hstores
  started := hstarted.trans h.started
  only ref' req hfind hcb := by
    obtain ⟨req', hfind', hcb'⟩ := hadds ref' req hfind hcb
    exact h.only ref' req' hfind' hcb'
  waiting hlisted := by
    rcases hnow with ⟨hgone, -⟩ | ⟨hwaiting, -⟩
    · rw [hgone] at hlisted
      cases hlisted
    · exact hwaiting
  stored hdone _ := by
    rcases hnow with ⟨-, hstored⟩ | ⟨hwaiting, -⟩
    · exact hstored hdone
    · exact absurd hdone hwaiting

/-- **Response.** What `data_received` makes of a block keeps the invariant. -/
private theorem downloading_carryOut (hruns : Runs d e) (hflash : FlashContract d.flash area given)
    (h : Downloading d e area given named payload szx ref c) (hfind : c.find ref = some req)
    {v : Verdict} (hconsistent : v.Consistent req.isObserve)
    (houtcome : Requests.Outcome e named payload szx (progress (c.history ref)) req v)
    (htransfer : Transfer e named payload szx ref ((v.carryOut e req c).find ref)
      ((v.carryOut e req c).history ref)) :
    Downloading d e area given named payload szx ref (v.carryOut e req c) := by
  obtain rfl := Client.ref_of_find hfind
  have hwf := h.follows.wellFormed
  have hholds := h.follows.holds
  rw [hfind] at hholds
  obtain ⟨htransferred, hstores⟩ := hholds
  obtain ⟨hcb, hgiven⟩ := hstores req rfl
  have hobserve := (htransferred.ongoing req rfl).1.isObserve
  have hwaiting := h.waiting (Option.isSome_iff_exists.mpr ⟨req, hfind⟩)
  obtain ⟨happ, hadds⟩ := app_carryOut hruns hfind hcb v
  obtain ⟨hwf', hle⟩ := wellFormed_of_run (carryOut_run (e := e) hwf hfind hconsistent) hwf
  set before := join (pieces (successes (c.history req.ref))) with hbefore
  have hwritten : ∀ rsp : Rsp, rsp.off = progress (c.history req.ref) →
      (writeData d.flash rsp c.app).1 = 0 →
        Takes d.flash area given (writeData d.flash rsp c.app).2.flash ∧
          given (writeData d.flash rsp c.app).2.flash = before ++ rsp.data ∧
          (rsp.getNext = false →
            before ++ rsp.data <+: area (writeData d.flash rsp c.app).2.flash) := by
    intro rsp hoff hok
    refine writeData_ok hflash (fun hzero => ?_) (fun hpos => hgiven (hoff ▸ hpos)) hok
    exact List.length_eq_zero_iff.mp (hoff.symm.trans hzero)
  have hstarted : (v.carryOut e req c).app.downloadingStarted = c.app.downloadingStarted := by
    rw [happ]
    cases v.rsp with
    | none => rfl
    | some rsp =>
      obtain ⟨flash, semDownloaded, hwrite, -⟩ := writeData_app d.flash rsp c.app
      rw [Option.elim_some, received]
      split
      · rfl
      · rw [hwrite]
  refine h.respond hwf' hle hstarted hadds htransfer ?_
  cases houtcome with
  | rejected blockCtx =>
    -- the request ends with an error, of which `data_received` makes nothing
    have herr : Rsp.err { userData := req.userData, err := -Errno.ebadmsg } ≠ 0 :=
      show -Errno.ebadmsg ≠ 0 by decide
    have hlast : Rsp.getNext { userData := req.userData, err := -Errno.ebadmsg } = false := rfl
    obtain ⟨ret, -, hgone⟩ := carryOut_deliver (e := e) hwf hfind blockCtx (-Errno.ebadmsg) hlast
    rw [if_neg fun h => herr h.2] at hgone
    refine .inl ⟨hgone, fun hdone => ?_⟩
    rw [happ, Verdict.rsp, Option.elim_some, received, if_pos herr] at hdone
    exact absurd hdone hwaiting
  | stale blockCtx _ =>
    obtain ⟨hkept, hlog⟩ := carryOut_ignore (e := e) hfind blockCtx
    rw [happ, hkept, Client.history, hlog]
    refine .inr ⟨hwaiting, fun req' hreq' => ?_⟩
    obtain rfl := Option.some_inj.mp hreq'
    exact ⟨hcb, hgiven⟩
  | last blockCtx rsp herr hlast hoff hdata =>
    -- the semaphore is given only if the write succeeds, which flushes the whole image
    obtain ⟨ret, -, hgone⟩ := carryOut_deliver (e := e) hwf hfind blockCtx 0 hlast
    rw [if_neg (by simp [hobserve])] at hgone
    refine .inl ⟨hgone, fun hdone => ?_⟩
    rw [happ, Verdict.rsp, Option.elim_some, received, if_neg (not_not.mpr herr)] at hdone ⊢
    obtain ⟨hok, -⟩ := (done_writeData hdone).resolve_left hwaiting
    have hwhole : before ++ rsp.data = payload :=
      htransferred.delivers.consecutive.join_of_last hdata
    exact hwhole ▸ (hwritten rsp hoff hok).2.2 hlast
  | more blockCtx rsp herr hnext hoff hdata _ =>
    -- the semaphore is given for the last block only
    have hopen : ¬ (writeData d.flash rsp c.app).2.Done := fun hdone => by
      have hend := ((done_writeData hdone).resolve_left hwaiting).2
      rw [hnext] at hend
      cases hend
    rw [Verdict.rsp, Option.elim_some, received, if_neg (not_not.mpr herr)] at happ
    by_cases hok : (writeData d.flash rsp c.app).1 = 0
    · obtain ⟨ret, req', hprepared, -, hhistory, hkept⟩ := carryOut_offer (e := e) hwf hfind
        hobserve blockCtx rsp
      have hone : successes (.called req.ref rsp :: .returned req.ref rsp ret ::
          if ret ≠ 0 then [.freed req.ref] else []) = [rsp] := by
        split <;> simp [successes, invocations, herr]
      obtain ⟨htakes, hgiven', -⟩ := hwritten rsp hoff hok
      rw [happ]
      refine .inr ⟨hopen, fun req'' hreq'' => ?_⟩
      rw [hkept] at hreq''
      split at hreq''
      · cases hreq''
      · obtain rfl := Option.some_inj.mp hreq''
        refine ⟨hprepared.same.cb.trans hcb, fun _ => ⟨htakes, ?_⟩⟩
        rw [hgiven', hhistory, successes_append, hone, hbefore]
        simp [pieces]
    · have hfailed : (received d.flash rsp c.app).1 ≠ 0 := by
        rw [received, if_neg (not_not.mpr herr)]
        exact hok
      refine .inl ⟨find_carryOut_of_failed hruns hwf hfind hcb blockCtx hfailed, fun hdone => ?_⟩
      rw [happ] at hdone
      exact absurd hdone hopen

/-! ## Steps of the sample -/

/-- A download that has just begun has delivered nothing. -/
theorem Begun.downloading (h : Begun d e ref c) (hnaming : NamingContract e.zephyr named) :
    Downloading d e area given named payload szx ref c := by
  refine ⟨⟨h.wellFormed, h.ref_lt, ?_⟩, h.started, h.only, fun _ => h.waiting,
    fun hdone => absurd hdone h.waiting⟩
  rcases h.submitted with ⟨args, hcb, hscheduled⟩ | ⟨hnone, events, observe, err, hevents, hhistory⟩
  · have htransfer : Follows (Transfer e named payload szx ref) ref c :=
      transfer_of_scheduled hnaming h.wellFormed hscheduled rfl rfl
    refine ⟨htransfer.holds, fun req hfind => ?_⟩
    obtain ⟨req', hbuilt, hfind'⟩ := hscheduled.listed
    obtain rfl := Option.some_inj.mp (hfind'.symm.trans hfind)
    rw [hscheduled.history]
    exact ⟨hbuilt.cb.trans hcb, fun hprogress => absurd rfl hprogress⟩
  · have hfreed : ∀ {events : List Event}, (∀ event ∈ events, event = .freed ref) →
        invocations events = [] := by
      intro events hevents
      induction events with
      | nil => rfl
      | cons event events ih =>
        rw [hevents event List.mem_cons_self]
        exact ih fun event hmem => hevents event (List.mem_cons_of_mem _ hmem)
    have hsuccesses : successes (events ++ [.scheduled ref observe err]) = [] := by
      rw [successes, invocations_append, hfreed hevents]
      rfl
    rw [hnone, hhistory]
    refine ⟨⟨hsuccesses ▸ ⟨trivial, by simp⟩, by simp, fun data hsent => ?_⟩, by simp [Stores]⟩
    rcases List.mem_append.mp hsent with hmem | hmem
    · cases hevents _ hmem
    · cases List.mem_singleton.mp hmem

/-- Every response to the request of the download is a block of the image that an earlier packet
of the request asks for, and other code makes no request with its callback. -/
def Served (d : Sample F S E κ) (e : Env κ (App F)) (named : List UInt8 → Option (ℕ × ℕ))
    (payload : List UInt8) (szx : ℕ) : DfuOp κ → Client κ (App F) → Prop
  | .client (.submit submission), _ => submission.cb ≠ some d.dataReceived
  | .client (.processRx rx), c => ∀ req, answered e rx c = some req →
      req.cb = some d.dataReceived →
        ∃ data, .sent req.ref data ∈ c.log ∧ IsBlock payload szx (blockAsked named data) rx
  | _, _ => True

theorem Served.reserved {op : DfuOp κ} (h : Served d e named payload szx op c) :
    Reserved d op c := by
  cases op with
  | client op =>
    cases op with
    | submit submission => exact h
    | _ => trivial
  | _ => trivial

/-- **Step.** A packet for the request of the download. -/
private theorem downloading_of_block (hheader : e.zephyr.HeaderContract)
    (hupdate : e.zephyr.UpdateContract) (hnext : e.zephyr.NextBlockContract)
    (hnaming : NamingContract e.zephyr named)
    (hszx : szx ≤ goliothEstimatedCoapBlockSize e.config.rxBufferLen) (hruns : Runs d e)
    (hflash : FlashContract d.flash area given)
    (h : Downloading d e area given named payload szx req.ref c) {rx : RxPacket}
    (hanswered : answered e rx c = some req) {data : List UInt8}
    (hsent : .sent req.ref data ∈ c.log) (hblock : IsBlock payload szx (blockAsked named data) rx) :
    Downloading d e area given named payload szx req.ref (coapReqProcessRx e rx c) := by
  have hwf := h.follows.wellFormed
  rcases processRx_decides hwf hanswered with htick | ⟨c₁, reply, hwf₁, hbystander, hnextRef, hlog,
    hfind₁, -, hrun⟩
  · rw [htick]
    exact h.congr (.of_eq rfl) (bystander_tick c).listed ⟨hwf.nodup, hwf.refs_lt, hwf.log_lt⟩ le_rfl
      rfl rfl
  · have hhistory : c₁.history req.ref = c.history req.ref := by
      rw [Client.history, hlog, Client.history]
    have hkeeps : Keeps (fun listed events => Transfer e named payload szx req.ref listed events ∧
        Stores d area given c.app.flash listed events) req.ref :=
      keeps_transfer.and (keeps_stores c.app.flash)
    have hholds := h.follows.holds
    rw [find_answered hwf hanswered] at hholds
    have hnoted := hkeeps.note req _ reply hholds
    have h₁ : Downloading d e area given named payload szx req.ref c₁ :=
      h.keep (.of_eq hbystander.app) hbystander.listed
        ⟨hwf₁, hnextRef ▸ h.follows.ref_lt, by rw [hfind₁, hhistory]; exact hnoted⟩
    -- the block is for a packet sent earlier, so it starts at the offset or before
    have hasked := hholds.1.sent data (List.mem_filter.mpr ⟨hsent, by simp [Event.ref]⟩)
    have houtcome : ∀ reply, Ongoing e named payload szx (progress (c.history req.ref))
        { req with reply := reply } → Requests.Outcome e named payload szx
          (progress (c.history req.ref)) { req with reply := reply } (verdict e.zephyr req rx) :=
      fun reply hongoing => outcome_of_block hupdate hnext hszx hongoing hblock hasked
        hholds.1.delivers.progress_le
    have htransfer := survives_transfer hheader hnaming hszx houtcome c₁ reply hwf₁ hfind₁ hhistory
      hnoted.1
    have hongoing := (hnoted.1.ongoing _ rfl).1
    rw [hrun]
    refine downloading_carryOut hruns hflash h₁ hfind₁ (consistent_verdict e.zephyr req rx) ?_
      htransfer
    rw [hhistory]
    exact houtcome reply hongoing

/-- **Step.** An operation after a download has been started. -/
private theorem downloading_of_client (hheader : e.zephyr.HeaderContract)
    (hupdate : e.zephyr.UpdateContract) (hnext : e.zephyr.NextBlockContract)
    (hnaming : NamingContract e.zephyr named)
    (hszx : szx ≤ goliothEstimatedCoapBlockSize e.config.rxBufferLen) (hruns : Runs d e)
    (hflash : FlashContract d.flash area given)
    (h : Downloading d e area given named payload szx ref c) {op : Op κ}
    (hserved : Served d e named payload szx (.client op) c) (hstep : Step e op c c') :
    Downloading d e area given named payload szx ref c' := by
  have hwf := h.follows.wellFormed
  -- a step that is none of the download's leaves the slot and the request as they are
  have hquiet : Bystander d.dataReceived c c' →
      (∀ rx req, op = .processRx rx → answered e rx c = some req → req.ref ≠ ref) →
      Downloading d e area given named payload szx ref c' := by
    intro hbystander hother
    refine h.keep (.of_eq hbystander.app) hbystander.listed
      (h.follows.step (keeps_transfer.and (keeps_stores c.app.flash)) ?_ hstep)
    intro rx req hop hanswered href
    exact absurd href (hother rx req hop hanswered)
  by_cases hreceive : ∃ rx, op = .processRx rx
  · obtain ⟨rx, rfl⟩ := hreceive
    obtain rfl := Option.some_inj.mp hstep
    cases hanswered : answered e rx c with
    | none => exact (processRx_of_unanswered hanswered).symm ▸ h
    | some req =>
      have hfind := find_answered hwf hanswered
      by_cases hdata : req.cb = some d.dataReceived
      · -- only the download has this callback, so the response is a block of the image
        obtain rfl := h.only req.ref req hfind hdata
        obtain ⟨data, hsent, hblock⟩ := hserved req hanswered hdata
        exact downloading_of_block hheader hupdate hnext hnaming hszx hruns hflash h hanswered
          hsent hblock
      · refine hquiet ?_ fun rx' req' hop hanswered' href => ?_
        · -- a response to another request, whose callback is not the one that writes
          rcases processRx_decides hwf hanswered with htick | ⟨c₁, reply, hwf₁, hbystander, -, -,
            hfind₁, -, hrun⟩
          · exact htick.symm ▸ bystander_tick c
          · refine hrun.symm ▸ hbystander.trans (bystander_carryOut _ hfind₁ ?_)
            intro rsp c₂ happ hcalls
            refine bystander_of_started hruns ?_ hdata rsp hcalls
            rw [happ, hbystander.app, h.started]
        · cases hop
          obtain rfl := Option.some_inj.mp (hanswered'.symm.trans hanswered)
          rw [href] at hfind
          exact hdata (h.follows.holds.2 req' hfind).1
  · refine hquiet (bystander_step hwf (bystander_of_failure hruns) ?_ ?_ hstep) ?_
    · rintro submission rfl
      exact hserved
    · rintro rx rfl
      exact hreceive ⟨rx, rfl⟩
    · rintro rx req rfl
      exact absurd ⟨rx, rfl⟩ hreceive

/-- Nothing more is expected of the slot once the upgrade has been requested. -/
private theorem Downloading.requested (h : Downloading d e area given named payload szx ref c)
    (hmain : c.app.main = .updating) (hbeside : Beside d.dataReceived c c')
    {err : ℤ} (hrequested : c'.app.main = .requested err)
    (hstarted : c'.app.downloadingStarted = c.app.downloadingStarted) :
    Downloading d e area given named payload szx ref c' := by
  have hlt := h.follows.ref_lt
  have hgone : c'.find ref = none := by
    rw [hbeside.find_old ref hlt, ← Option.not_isSome_iff_eq_none]
    exact fun hlisted => h.waiting hlisted (.updating hmain)
  have htransfer := h.follows.holds.1
  rw [← hbeside.find_old ref hlt, ← hbeside.history_old ref hlt] at htransfer
  refine ⟨⟨hbeside.wellFormed, hlt.trans_le hbeside.nextRef_le, htransfer, ?_⟩,
    hstarted.trans h.started, ?_, fun hlisted => ?_,
    fun _ hunrequested => absurd hrequested (hunrequested err)⟩
  · intro req hlisted
    rw [hgone] at hlisted
    cases hlisted
  · intro ref' req hfind hcb
    obtain ⟨req', hfind', hcb'⟩ := hbeside.adds ref' req hfind hcb
    exact h.only ref' req' hfind' hcb'
  · rw [hgone] at hlisted
    cases hlisted

theorem Downloading.beside (h : Downloading d e area given named payload szx ref c)
    (hbeside : Beside d.dataReceived c c') (happ : SameImage c.app c'.app) :
    Downloading d e area given named payload szx ref c' :=
  h.congr happ hbeside.adds hbeside.wellFormed hbeside.nextRef_le
    (hbeside.find_old ref h.follows.ref_lt) (hbeside.history_old ref h.follows.ref_lt)

/-! ## Whole runs -/

/-- **Step.** Every step of the sample keeps the invariant. -/
private theorem sound_step (hheader : e.zephyr.HeaderContract)
    (hupdate : e.zephyr.UpdateContract) (hnext : e.zephyr.NextBlockContract)
    (hnaming : NamingContract e.zephyr named)
    (hszx : szx ≤ goliothEstimatedCoapBlockSize e.config.rxBufferLen) (hruns : Runs d e)
    (hflash : FlashContract d.flash area given) (h : Sound d e area given named payload szx c)
    {op : DfuOp κ} (hserved : Served d e named payload szx op c) (hstep : DfuStep d e op c c') :
    Sound d e area given named payload szx c' := by
  obtain ⟨hwf, hidle | ⟨ref, hdown⟩⟩ := h
  · refine ⟨wellFormed_dfuStep hruns hwf hstep, ?_⟩
    exact (begun_of_step hruns hwf hidle hserved.reserved hstep).imp_right
      fun ⟨ref, hbegun⟩ => ⟨ref, hbegun.downloading hnaming⟩
  · refine ⟨wellFormed_dfuStep hruns hwf hstep, .inr ⟨ref, ?_⟩⟩
    cases op with
    | client op =>
      exact downloading_of_client hheader hupdate hnext hnaming hszx hruns hflash hdown hserved
        hstep
    | connect =>
      obtain rfl := Option.some_inj.mp hstep
      obtain ⟨hbeside, happ⟩ := beside_goliothOnConnect hruns hwf
      exact hdown.beside hbeside (happ ▸ .connected c.app)
    | main =>
      obtain ⟨hbeside, hmoves⟩ := mainStep_cases hruns hwf hstep
      by_cases hmain : c.app.main = .updating
      · obtain ⟨err, hrequested, hstarted⟩ := requested_of_moves hmoves hmain
        exact hdown.requested hmain hbeside hrequested hstarted
      · exact hdown.beside hbeside (sameImage_of_moves hmoves hmain)

/-- **The image is complete.** Let the sample run with any other code, over any network, and with
its threads in any order, and let every response to the request of the download be the block of
the image that an earlier packet of the request asks for, of a size that is no larger than the
client expects. When the semaphore says that the image
has been downloaded, and from then on until the upgrade is requested, so whenever the main thread
reports the image as downloaded and when it calls `boot_request_upgrade`, the slot begins with the
whole image. -/
theorem image_of_downloaded (hheader : e.zephyr.HeaderContract)
    (hupdate : e.zephyr.UpdateContract) (hnext : e.zephyr.NextBlockContract)
    (hnaming : NamingContract e.zephyr named)
    (hszx : szx ≤ goliothEstimatedCoapBlockSize e.config.rxBufferLen) (hruns : Runs d e)
    (hflash : FlashContract d.flash area given) {flash : F} {ops : List (DfuOp κ)}
    (hrun : CS.Run (CS.Guarded (Served d e named payload szx) (DfuStep d e)) ops
      (Client.init (App.init flash)) c)
    (hdone : c.app.Done) (hunrequested : c.app.Unrequested) : payload <+: area c.app.flash := by
  have hsound := hrun.invariant (Sound d e area given named payload szx)
    (fun _ _ _ h hstep => sound_step hheader hupdate hnext hnaming hszx hruns hflash h hstep.1
      hstep.2) ⟨wellFormed_init _, .inl (idle_init d flash)⟩
  rcases hsound.2 with hidle | ⟨ref, hdown⟩
  · exact absurd hdone hidle.waiting
  · exact hdown.stored hdone hunrequested

/-! ## The run goes on -/

def respondBlock (num : ℕ) : DfuOp Callback :=
  .client (.processRx { blockOfTwenty num with token := tokenOf 15 })

/-- Both blocks arrive, the first of them twice, and so does another notification; the main thread
reports the image as downloaded, and then that it is updating. -/
def downloadRun : List (DfuOp Callback) :=
  startRun ++
    [respond 9 [] [], respondBlock 0, .main, .client (.pollPrepare 0 5), respondBlock 0,
      notifyDesired 2, respondBlock 1, respond 26 [] [], .main, .client (.pollPrepare 0 5),
      respond 36 [] [], .main]

/-- A response to the download is the block of the twenty bytes that some packet of it asks for. -/
def servedCheck : DfuOp Callback → Client Callback (App Reference.Slot) → Bool
  | .client (.submit _), _ => false
  | .client (.processRx rx), c =>
    match answered sampleEnv rx c with
    | none => true
    | some req => decide (req.cb ≠ some .dataReceived) || c.log.any fun event =>
      match event with
      | .sent ref data => decide (ref = req.ref ∧ blockAsked Reference.named data < 2 ∧
          rx = { blockOfTwenty (blockAsked Reference.named data) with token := tokenOf 15 })
      | _ => false
  | _, _ => true

theorem served_of_check (op : DfuOp Callback) (c : Client Callback (App Reference.Slot))
    (hcheck : servedCheck op c = true) :
    Served sample sampleEnv Reference.named twentyBytes 0 op c := by
  cases op with
  | client op =>
    cases op with
    | submit submission => cases hcheck
    | processRx rx =>
      intro req hanswered hcb
      simp only [servedCheck, hanswered, Bool.or_eq_true, decide_eq_true_eq] at hcheck
      obtain ⟨event, hmem, hevent⟩ := List.any_eq_true.mp (hcheck.resolve_left fun h => h hcb)
      split at hevent
      · next ref data =>
        obtain ⟨rfl, hnum, rfl⟩ := of_decide_eq_true hevent
        refine ⟨data, hmem, ⟨show coapCodeToPosix 69 = 0 by decide, by omega, rfl, rfl,
          .inl rfl, rfl⟩⟩
      · cases hevent
    | _ => trivial
  | _ => trivial

theorem image_of_downloaded_downloadRun :
    ∃ c, CS.Run (CS.Guarded (Served sample sampleEnv Reference.named twentyBytes 0)
        (DfuStep sample sampleEnv)) downloadRun (Client.init (App.init oldSlot)) c ∧
      c.app.main = .updating ∧ twentyBytes <+: c.app.flash.bytes := by
  have hfacts : (CS.Run.executeIf servedCheck (dfuPerform sample sampleEnv) downloadRun
      (Client.init (App.init oldSlot))).map (fun c => c.app.main) = some .updating := by
    decide +kernel
  obtain ⟨c, hrun, hmain⟩ := Option.map_eq_some_iff.mp hfacts
  have hguarded := CS.Run.of_executeIf served_of_check hrun
  refine ⟨c, hguarded, hmain, ?_⟩
  exact image_of_downloaded Reference.headerContract Reference.updateContract
    Reference.nextBlockContract Reference.namingContract (Nat.zero_le _) runs_sample
    Reference.flashContract hguarded (.updating hmain) fun err => by simp [hmain]

end Golioth.Dfu
