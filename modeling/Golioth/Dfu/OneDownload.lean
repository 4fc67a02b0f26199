/-
# There is one download

The flag `downloading_started` keeps the sample from starting a second download, whatever
the server notifies it of, and keeps the version as it is while the main thread reports
it. The flag is never taken back: a download that fails is not tried again.
-/
import Golioth.Dfu.Threads
import Golioth.Fw.Manifest
import Golioth.Requests.Sync

namespace Golioth.Dfu

open Golioth.Coap Golioth.Requests

variable {F S E κ : Type} {d : Sample F S E κ} {e : Env κ (App F)} {c c' : Client κ (App F)}
  {ref : ℕ} {req : CoapReq κ}

/-! ## Before a download and at its start -/

/-- The image has been received: the semaphore says so, or the main thread has taken it. -/
inductive App.Done (app : App F) : Prop
  | given : app.semDownloaded = true → app.Done
  | downloaded : app.main = .downloaded → app.Done
  | updating : app.main = .updating → app.Done
  | requested (err : ℤ) : app.main = .requested err → app.Done

/-- The upgrade has not been requested yet. -/
def App.Unrequested (app : App F) : Prop := ∀ err, app.main ≠ .requested err

/-- No download has been started. -/
structure Idle (d : Sample F S E κ) (c : Client κ (App F)) : Prop where
  started : c.app.downloadingStarted = false
  waiting : ¬ c.app.Done
  unlisted : ∀ ref req, c.find ref = some req → req.cb ≠ some d.dataReceived

/-- A download has just been started, with the request at an address, which is the only one; it has
been accepted or turned away, and nothing has happened to it since. -/
structure Begun (d : Sample F S E κ) (e : Env κ (App F)) (ref : ℕ) (c : Client κ (App F)) :
    Prop where
  wellFormed : WellFormed c
  ref_lt : ref < c.nextRef
  started : c.app.downloadingStarted = true
  waiting : ¬ c.app.Done
  only : ∀ ref' req, c.find ref' = some req → req.cb = some d.dataReceived → ref' = ref
  submitted : (∃ args : DownloadArgs κ, args.cb = some d.dataReceived ∧
      Scheduled e (.fwDownload args) ref c) ∨
    c.find ref = none ∧ ∃ events observe err, (∀ event ∈ events, event = .freed ref) ∧
      c.history ref = events ++ [.scheduled ref observe err]

theorem App.done_iff {app : App F} :
    app.Done ↔ app.semDownloaded = true ∨ app.main = .downloaded ∨ app.main = .updating ∨
      ∃ err, app.main = .requested err := by
  constructor
  · rintro (hgiven | hmain | hmain | ⟨err, hmain⟩)
    · exact .inl hgiven
    · exact .inr (.inl hmain)
    · exact .inr (.inr (.inl hmain))
    · exact .inr (.inr (.inr ⟨err, hmain⟩))
  · rintro (hgiven | hmain | hmain | ⟨err, hmain⟩)
    · exact .given hgiven
    · exact .downloaded hmain
    · exact .updating hmain
    · exact .requested err hmain

theorem Idle.bystander (h : Idle d c) (hbystander : Bystander d.dataReceived c c') :
    Idle d c' where
  started := hbystander.app ▸ h.started
  waiting := hbystander.app ▸ h.waiting
  unlisted ref req hfind hcb := by
    obtain ⟨req', hfind', hcb'⟩ := hbystander.listed ref req hfind hcb
    exact h.unlisted ref req' hfind' hcb'

/-- The state of the sample may change, as long as the flash and what the main thread knows of the
image do not. -/
structure SameImage (app app' : App F) : Prop where
  flash : app'.flash = app.flash
  started : app'.downloadingStarted = app.downloadingStarted
  done : app'.Done ↔ app.Done
  unrequested : app'.Unrequested → app.Unrequested

theorem SameImage.of_eq {app app' : App F} (h : app' = app) : SameImage app app' := by
  subst h
  exact ⟨rfl, rfl, .rfl, id⟩

theorem SameImage.connected (app : App F) : SameImage app { app with semConnected := true } :=
  ⟨rfl, rfl, by simp [App.done_iff], id⟩

theorem Idle.beside (h : Idle d c) (hbeside : Beside d.dataReceived c c')
    (happ : SameImage c.app c'.app) : Idle d c' where
  started := happ.started.trans h.started
  waiting := happ.done.not.mpr h.waiting
  unlisted ref req hfind hcb := by
    obtain ⟨req', hfind', hcb'⟩ := hbeside.adds ref req hfind hcb
    exact h.unlisted ref req' hfind' hcb'

/-- The main thread takes over from the semaphore, and then asks for the upgrade. -/
theorem sameImage_of_moves {lib : FlashLib F} {app app' : App F}
    (hmoves : MainMoves lib app app') (hbefore : app.main ≠ .updating) : SameImage app app' := by
  have hunrequested : ∀ stage, app.main = stage → (∀ err, stage ≠ .requested err) →
      app.Unrequested := fun stage hmain hstage err => hmain ▸ hstage err
  cases hmoves with
  | idle reporting hmain =>
    exact ⟨rfl, rfl, by simp [App.done_iff, hmain], fun _ => hunrequested _ hmain (by simp)⟩
  | downloading reporting hmain =>
    exact ⟨rfl, rfl, by simp [App.done_iff, hmain], fun _ => hunrequested _ hmain (by simp)⟩
  | downloaded reporting hmain hsem =>
    exact ⟨rfl, rfl, by simp [App.done_iff, hsem], fun _ => hunrequested _ hmain (by simp)⟩
  | updating reporting hmain =>
    exact ⟨rfl, rfl, by simp [App.done_iff, hmain], fun _ => hunrequested _ hmain (by simp)⟩
  | requested hmain => exact absurd hmain hbefore

/-- Another request is dealt with. -/
theorem Begun.congr (h : Begun d e ref c) (hbystander : Bystander d.dataReceived c c')
    (hwf : WellFormed c') (hle : c.nextRef ≤ c'.nextRef) (hfind : c'.find ref = c.find ref)
    (hhistory : c'.history ref = c.history ref) : Begun d e ref c' where
  wellFormed := hwf
  ref_lt := h.ref_lt.trans_le hle
  started := hbystander.app ▸ h.started
  waiting := hbystander.app ▸ h.waiting
  only ref' req hreq hcb := by
    obtain ⟨req', hreq', hcb'⟩ := hbystander.listed ref' req hreq hcb
    exact h.only ref' req' hreq' hcb'
  submitted := by
    rw [hfind, hhistory]
    refine h.submitted.imp_left fun ⟨args, hcb, hscheduled⟩ => ⟨args, hcb, ?_, ?_⟩
    · obtain ⟨req, hbuilt, hreq⟩ := hscheduled.listed
      exact ⟨req, hbuilt, hfind.trans hreq⟩
    · exact hhistory.trans hscheduled.history

/-- A submission of the download, accepted or not, starts it. -/
private theorem begun_of_submit (hwf : WellFormed c)
    (hstarted : c.app.downloadingStarted = true) (hwaiting : ¬ c.app.Done)
    (hunlisted : ∀ ref req, c.find ref = some req → req.cb ≠ some d.dataReceived)
    {args : DownloadArgs κ} (hcb : args.cb = some d.dataReceived) :
    Begun d e c.nextRef (submit e (.fwDownload args) c).2 := by
  have happ := app_submit e (.fwDownload args) c
  have heffect := effect_submit (e := e) none hwf (.fwDownload args)
  have hnext := nextRef_submit e (.fwDownload args) c
  refine ⟨heffect.wellFormed, by omega, by rw [happ]; exact hstarted, by rw [happ]; exact hwaiting,
    ?_, ?_⟩
  · intro ref' req hfind hreq
    by_cases hold : ref' < c.nextRef
    · rw [heffect.find_old ref' hold (by simp)] at hfind
      exact absurd hreq (hunlisted ref' req hfind)
    · have hnew := heffect.wellFormed.refs_lt ref' ((Client.mem_refs_iff _).mpr ⟨req, hfind⟩)
      omega
  · by_cases hok : (submit e (.fwDownload args) c).1 = 0
    · exact .inl ⟨args, hcb, scheduled_of_submit hwf hok⟩
    · have hnone := find_of_rejected hwf hok
      cases heffect.fresh c.nextRef le_rfl (by omega) with
      | listed submission req hbuilt hfind hhistory =>
        rw [hnone] at hfind
        cases hfind
      | rejected observe err events herr hevents _ hhistory =>
        exact .inr ⟨hnone, events, observe, err, hevents, hhistory⟩

/-- What `golioth_desired_update` makes of a client that is idle. -/
private theorem begun_of_responds (hwf : WellFormed c)
    (h : Idle d c) {rsp : Rsp} {result : ℤ × Client κ (App F)}
    (hresponds : Responds d e rsp c result) :
    Idle d result.2 ∨ ∃ ref, c.nextRef ≤ ref ∧
      Begun d e ref result.2 := by
  have hwaiting : ∀ {app : App F}, app.semDownloaded = c.app.semDownloaded →
      app.main = c.app.main → ¬ app.Done := by
    intro app hsem hmain hdone
    cases hdone with
    | given hgiven => exact h.waiting (.given (hsem ▸ hgiven))
    | downloaded hstage => exact h.waiting (.downloaded (hmain ▸ hstage))
    | updating hstage => exact h.waiting (.updating (hmain ▸ hstage))
    | requested err hstage => exact h.waiting (.requested err (hmain ▸ hstage))
  cases hresponds with
  | ignores ret version hversion => exact .inl ⟨h.started, hwaiting rfl rfl, h.unlisted⟩
  | starts version args hfresh hargs =>
    refine .inr ⟨c.nextRef, le_rfl, ?_⟩
    set app : App F := { c.app with
      version := version, semDownloading := true, downloadingStarted := true }
    have hset : WellFormed { c with app := app } := ⟨hwf.nodup, hwf.refs_lt, hwf.log_lt⟩
    exact begun_of_submit hset rfl (hwaiting rfl rfl) h.unlisted hargs

/-- A download that was started for one request goes on when the other is dealt with. -/
private theorem Begun.label (h : Begun d e ref c)
    (hwf : WellFormed c) {other : ℕ} (hother : other < c.nextRef) (hne : other ≠ ref) (err : ℤ) :
    Begun d e ref (labelCancelAndFree other err c) := by
  have hbystander := bystander_label (k := d.dataReceived) c other err
  have hkeep : ∀ c', labelCancelAndFree other err c = c' → WellFormed c' → c'.nextRef = c.nextRef →
      c'.find ref = c.find ref → c'.history ref = c.history ref →
        Begun d e ref (labelCancelAndFree other err c) := by
    rintro _ rfl hwf' hnext hfind hhistory
    exact h.congr hbystander hwf' hnext.ge hfind hhistory
  unfold labelCancelAndFree at hkeep ⊢
  split
  · exact h
  · next req hfind =>
    simp only [hfind] at hkeep
    split
    · next hstays =>
      rw [if_pos hstays] at hkeep
      exact hkeep _ rfl (hwf.modify fun _ h => h) rfl
        (Client.find_modify_of_ne c (fun _ h => h) hne.symm) rfl
    · next hends =>
      rw [if_neg hends] at hkeep
      refine hkeep _ rfl (wellFormed_coapReqCancelAndFree hwf hother) rfl
        (find_coapReqCancelAndFree_of_ne c hne.symm) ?_
      rw [history_coapReqCancelAndFree, if_neg hne, List.append_nil]

/-- A decision on a response to the observation of the desired firmware. -/
private theorem begun_of_desired (hruns : Runs d e) (hwf : WellFormed c) (h : Idle d c)
    (hfind : c.find req.ref = some req) (hcb : req.cb = some d.goliothDesiredUpdate)
    (v : Verdict) :
    Idle d (v.carryOut e req c) ∨ ∃ ref, Begun d e ref (v.carryOut e req c) := by
  have hlt := hwf.refs_lt req.ref (c.mem_refs_iff.mpr ⟨req, hfind⟩)
  have htracked : ∀ blockCtx, Idle d
      (c.modify req.ref fun req => { req with blockCtx := blockCtx }) := fun blockCtx =>
    h.bystander (bystander_modify c (fun _ _ => rfl) fun _ h => h)
  have hcalled : ∀ blockCtx rsp called, invoke e req.ref req.cb rsp
      (c.modify req.ref fun req => { req with blockCtx := blockCtx }) = called →
        WellFormed called.2 ∧ c.nextRef ≤ called.2.nextRef ∧ (Idle d called.2 ∨
          ∃ ref, c.nextRef ≤ ref ∧ Begun d e ref called.2) := by
    rintro blockCtx rsp _ rfl
    have hwf₁ : WellFormed (c.modify req.ref fun req => { req with blockCtx := blockCtx }) :=
      hwf.modify fun _ h => h
    have hfind₁ := find_track hfind id fun _ => blockCtx
    refine ⟨wellFormed_invoke hwf₁ hfind₁ req.cb rsp, nextRef_invoke_le hwf₁ hfind₁ req.cb rsp, ?_⟩
    have hwf₂ := wellFormed_invoke (e := e) hwf₁ hfind₁ req.cb rsp
    rw [hcb] at hwf₂ ⊢
    obtain ⟨result, hresponds, hinvoke⟩ := invoke_goliothDesiredUpdate hruns req.ref rsp
      (c.modify req.ref fun req => { req with blockCtx := blockCtx })
    rw [hinvoke] at hwf₂ ⊢
    have hwf₃ : WellFormed (Client.emit _ (.called req.ref rsp)) := hwf₁.emit hlt
    rcases begun_of_responds hwf₃ ((htracked blockCtx).bystander (bystander_emit _ _))
      hresponds with hidle | ⟨ref, hge, hbegun⟩
    · exact .inl (hidle.bystander (bystander_emit _ _))
    · have hne : Event.ref (.returned req.ref rsp result.1) ≠ ref := (hlt.trans_le hge).ne
      refine .inr ⟨ref, hge, hbegun.congr (bystander_emit _ _) hwf₂ le_rfl rfl ?_⟩
      rw [Client.history_emit, if_neg hne, List.append_nil]
  have hlabel : ∀ (called : ℤ × Client κ (App F)) err, (WellFormed called.2 ∧
      c.nextRef ≤ called.2.nextRef ∧ (Idle d called.2 ∨
        ∃ ref, c.nextRef ≤ ref ∧ Begun d e ref called.2)) →
      Idle d (labelCancelAndFree req.ref err called.2) ∨
        ∃ ref, Begun d e ref (labelCancelAndFree req.ref err called.2) := by
    rintro called err ⟨hwf', hle, hidle | ⟨ref, hge, hbegun⟩⟩
    · exact .inl (hidle.bystander (bystander_label _ _ _))
    · exact .inr ⟨ref, hbegun.label hwf' (hlt.trans_le hle) (hlt.trans_le hge).ne err⟩
  cases v with
  | ignore blockCtx => exact .inl (htracked blockCtx)
  | deliver blockCtx rsp err => exact hlabel _ err (hcalled blockCtx rsp _ rfl)
  | offer blockCtx rsp =>
    rw [Verdict.carryOut]
    have hbegun := hcalled blockCtx rsp _ rfl
    split
    · exact hlabel _ _ hbegun
    · split
      · exact hlabel _ _ hbegun
      · rcases hbegun.2.2 with hidle | ⟨ref, -, hbegun⟩
        · exact .inl hidle
        · exact .inr ⟨ref, hbegun⟩

/-! ## Steps before a download -/

theorem processRx_of_unanswered {rx : RxPacket} (hnone : answered e rx c = none) :
    coapReqProcessRx e rx c = c := by
  rw [coapReqProcessRx, hnone]

/-- **Step.** An operation while no download has been started. -/
private theorem begun_of_client (hruns : Runs d e) (hwf : WellFormed c) (h : Idle d c) {op : Op κ}
    (hsubmit : ∀ submission, op = .submit submission → submission.cb ≠ some d.dataReceived)
    (hstep : Step e op c c') : Idle d c' ∨ ∃ ref, Begun d e ref c' := by
  by_cases hreceive : ∃ rx, op = .processRx rx
  · obtain ⟨rx, rfl⟩ := hreceive
    obtain rfl := Option.some_inj.mp hstep
    cases hanswered : answered e rx c with
    | none => exact .inl ((processRx_of_unanswered hanswered).symm ▸ h)
    | some req =>
      rcases processRx_decides hwf hanswered with htick | ⟨c₁, reply, hwf₁, hbystander, -, -,
        hfind₁, -, hrun⟩
      · exact .inl (htick.symm ▸ h.bystander (bystander_tick c))
      · have h₁ := h.bystander hbystander
        have hdata := h₁.unlisted req.ref _ hfind₁
        have hnoted : c₁.find ({ req with reply := reply } : CoapReq κ).ref = some _ := hfind₁
        rw [hrun]
        -- only one callback starts a download
        by_cases hdesired : req.cb = some d.goliothDesiredUpdate
        · exact begun_of_desired hruns hwf₁ h₁ hnoted hdesired _
        · exact .inl (h₁.bystander (bystander_carryOut _ hfind₁ fun rsp c₂ _ hcalls =>
            bystander_invoke (spares_other hruns hdata hdesired) rsp hcalls))
  · refine .inl (h.bystander (bystander_step hwf (bystander_of_failure hruns) hsubmit ?_ hstep))
    rintro rx rfl
    exact hreceive ⟨rx, rfl⟩

/-- Other code makes no request with the callback of the download. -/
def Reserved (d : Sample F S E κ) : DfuOp κ → Client κ (App F) → Prop
  | .client (.submit submission), _ => submission.cb ≠ some d.dataReceived
  | _, _ => True

/-- **Step.** A download starts by itself only, if at all. -/
theorem begun_of_step (hruns : Runs d e) (hwf : WellFormed c) (h : Idle d c) {op : DfuOp κ}
    (hreserved : Reserved d op c) (hstep : DfuStep d e op c c') :
    Idle d c' ∨ ∃ ref, Begun d e ref c' := by
  cases op with
  | client op =>
    refine begun_of_client hruns hwf h ?_ hstep
    rintro submission rfl
    exact hreserved
  | connect =>
    obtain rfl := Option.some_inj.mp hstep
    obtain ⟨hbeside, happ⟩ := beside_goliothOnConnect hruns hwf
    exact .inl (h.beside hbeside (happ ▸ .connected c.app))
  | main =>
    obtain ⟨hbeside, hmoves⟩ := mainStep_cases hruns hwf hstep
    exact .inl (h.beside hbeside
      (sameImage_of_moves hmoves fun hmain => h.waiting (.updating hmain)))

/-! ## After the start -/

theorem invoke_tracked (hruns : Runs d e) (hfind : c.find req.ref = some req)
    (hcb : req.cb = some d.dataReceived) (blockCtx : BlockContext) (rsp : Rsp)
    {called : ℤ × Client κ (App F)}
    (hcalled : invoke e req.ref req.cb rsp
      (c.modify req.ref fun req => { req with blockCtx := blockCtx }) = called) :
    called.1 = (received d.flash rsp c.app).1 ∧ called.2.app = (received d.flash rsp c.app).2 ∧
      AddsNone d.dataReceived c called.2 := by
  have hcalls : ListedWith req.ref (some d.dataReceived)
      (c.modify req.ref fun req => { req with blockCtx := blockCtx }) :=
    ⟨_, find_track hfind id fun _ => blockCtx, hcb⟩
  have htracked : Bystander d.dataReceived c
      (c.modify req.ref fun req => { req with blockCtx := blockCtx }) :=
    bystander_modify c (fun _ _ => rfl) fun _ h => h
  obtain ⟨hret, happ, hadds⟩ := invoke_dataReceived hruns rsp hcalls
  rw [hcb] at hcalled
  subst hcalled
  exact ⟨hret, happ, htracked.listed.trans hadds⟩

/-- What a decision about the request of the download does to the sample. -/
theorem app_carryOut (hruns : Runs d e) (hfind : c.find req.ref = some req)
    (hcb : req.cb = some d.dataReceived) (v : Verdict) :
    (v.carryOut e req c).app =
        (v.rsp.elim c.app fun rsp => (received d.flash rsp c.app).2) ∧
      AddsNone d.dataReceived c (v.carryOut e req c) := by
  have hlabel : ∀ err (called : ℤ × Client κ (App F)) app, called.2.app = app →
      AddsNone d.dataReceived c called.2 → (labelCancelAndFree req.ref err called.2).app = app ∧
        AddsNone d.dataReceived c (labelCancelAndFree req.ref err called.2) := by
    intro err called app happ hadds
    have hbystander := bystander_label (k := d.dataReceived) called.2 req.ref err
    exact ⟨hbystander.app.trans happ, hadds.trans hbystander.listed⟩
  cases v with
  | ignore blockCtx =>
    have htracked : Bystander d.dataReceived c
        (c.modify req.ref fun req => { req with blockCtx := blockCtx }) :=
      bystander_modify c (fun _ _ => rfl) fun _ h => h
    exact ⟨rfl, htracked.listed⟩
  | deliver blockCtx rsp err =>
    obtain ⟨-, happ, hadds⟩ := invoke_tracked hruns hfind hcb blockCtx rsp rfl
    exact hlabel err _ _ happ hadds
  | offer blockCtx rsp =>
    rw [Verdict.carryOut]
    generalize hcalled : invoke e req.ref req.cb rsp
      (c.modify req.ref fun req => { req with blockCtx := blockCtx }) = called
    obtain ⟨-, happ, hadds⟩ := invoke_tracked hruns hfind hcb blockCtx rsp hcalled
    split
    · exact hlabel _ called _ happ hadds
    · split
      · exact hlabel _ called _ happ hadds
      · exact ⟨happ, hadds⟩

/-- The sample has started a download, for a version that stays the same, and makes no other. -/
structure Latched (d : Sample F S E κ) (c c' : Client κ (App F)) : Prop where
  started : c'.app.downloadingStarted = true
  version : c'.app.version = c.app.version
  adds : AddsNone d.dataReceived c c'

private theorem latched_of_bystander (hstarted : c.app.downloadingStarted = true)
    (hbystander : Bystander d.dataReceived c c') : Latched d c c' :=
  ⟨hbystander.app ▸ hstarted, by rw [hbystander.app], hbystander.listed⟩

private theorem received_app (lib : FlashLib F) (rsp : Rsp) (app : App F) :
    (received lib rsp app).2.downloadingStarted = app.downloadingStarted ∧
      (received lib rsp app).2.version = app.version := by
  rw [received]
  split
  · exact ⟨rfl, rfl⟩
  · obtain ⟨flash, semDownloaded, hwrite, -⟩ := writeData_app lib rsp app
    rw [hwrite]
    exact ⟨rfl, rfl⟩

/-- **Step.** A packet, whatever it answers. -/
private theorem latched_of_processRx (hruns : Runs d e) (hwf : WellFormed c)
    (hstarted : c.app.downloadingStarted = true) (rx : RxPacket) :
    Latched d c (coapReqProcessRx e rx c) := by
  cases hanswered : answered e rx c with
  | none =>
    rw [processRx_of_unanswered hanswered]
    exact latched_of_bystander hstarted (.refl c)
  | some req =>
    rcases processRx_decides (k := d.dataReceived) hwf hanswered with htick | ⟨c₁, reply, -,
      hbystander, -, -, hfind₁, -, hrun⟩
    · rw [htick]
      exact latched_of_bystander hstarted (bystander_tick c)
    · have hnoted : c₁.find ({ req with reply := reply } : CoapReq κ).ref = some _ := hfind₁
      rw [hrun]
      by_cases hdata : req.cb = some d.dataReceived
      · obtain ⟨happ, hadds⟩ := app_carryOut hruns hnoted hdata (verdict e.zephyr req rx)
        have hsame : (Option.elim (verdict e.zephyr req rx).rsp c₁.app fun rsp =>
              (received d.flash rsp c₁.app).2).downloadingStarted = c.app.downloadingStarted ∧
            (Option.elim (verdict e.zephyr req rx).rsp c₁.app fun rsp =>
              (received d.flash rsp c₁.app).2).version = c.app.version := by
          rw [← hbystander.app]
          cases (verdict e.zephyr req rx).rsp with
          | none => exact ⟨rfl, rfl⟩
          | some rsp => exact received_app d.flash rsp c₁.app
        rw [← happ] at hsame
        exact ⟨hsame.1.trans hstarted, hsame.2, hbystander.listed.trans hadds⟩
      · refine latched_of_bystander hstarted
          (hbystander.trans (bystander_carryOut _ hnoted fun rsp c₂ happ hcalls => ?_))
        refine bystander_of_started hruns ?_ hdata rsp hcalls
        rw [happ, hbystander.app, hstarted]

private theorem latched_of_moves {lib : FlashLib F} {app app' : App F}
    (hmoves : MainMoves lib app app') :
    app'.downloadingStarted = app.downloadingStarted ∧ app'.version = app.version := by
  cases hmoves <;> exact ⟨rfl, rfl⟩

/-- **Step.** Every step of the sample leaves the download as it is. -/
private theorem latched_step (hruns : Runs d e) (hwf : WellFormed c)
    (hstarted : c.app.downloadingStarted = true) {op : DfuOp κ} (hreserved : Reserved d op c)
    (hstep : DfuStep d e op c c') : WellFormed c' ∧ Latched d c c' := by
  cases op with
  | client op =>
    refine ⟨wellFormed_step hwf hstep, ?_⟩
    by_cases hreceive : ∃ rx, op = .processRx rx
    · obtain ⟨rx, rfl⟩ := hreceive
      obtain rfl := Option.some_inj.mp hstep
      exact latched_of_processRx hruns hwf hstarted rx
    · refine latched_of_bystander hstarted
        (bystander_step hwf (bystander_of_failure hruns) ?_ ?_ hstep)
      · rintro submission rfl
        exact hreserved
      · rintro rx rfl
        exact hreceive ⟨rx, rfl⟩
  | connect =>
    obtain rfl := Option.some_inj.mp hstep
    obtain ⟨hbeside, happ⟩ := beside_goliothOnConnect hruns hwf
    exact ⟨hbeside.wellFormed, by rw [happ]; exact hstarted, by rw [happ], hbeside.adds⟩
  | main =>
    obtain ⟨hbeside, hmoves⟩ := mainStep_cases hruns hwf hstep
    obtain ⟨hsame, hversion⟩ := latched_of_moves hmoves
    exact ⟨hbeside.wellFormed, hsame.trans hstarted, hversion, hbeside.adds⟩

/-- The state of the sample when it starts. -/
theorem idle_init (d : Sample F S E κ) (flash : F) :
    Idle d (Client.init (App.init flash) : Client κ (App F)) where
  started := rfl
  waiting := by simp [App.done_iff, Client.init, App.init]
  unlisted ref req hfind := by cases hfind

/-- There has been one download at most. -/
structure OneDownload (d : Sample F S E κ) (e : Env κ (App F)) (c : Client κ (App F)) : Prop where
  unlisted : c.app.downloadingStarted = false →
    ∀ ref req, c.find ref = some req → req.cb ≠ some d.dataReceived
  only : ∀ ref ref' req req', c.find ref = some req → req.cb = some d.dataReceived →
    c.find ref' = some req' → req'.cb = some d.dataReceived → ref = ref'
  later : c.app.downloadingStarted = true → ∀ ops c',
    CS.Run (CS.Guarded (Reserved d) (DfuStep d e)) ops c c' → Latched d c c'

/-- **There is one download.** The sample makes no request with `data_received` before it starts a
download, and has one at most. Once it has started a download it makes no other, whatever the
server notifies it of, however the download ends and whatever the network delivers, and the
version that the main thread reports stays the one the download was started for. -/
theorem one_download (hruns : Runs d e) {flash : F} {ops : List (DfuOp κ)}
    (hrun : CS.Run (CS.Guarded (Reserved d) (DfuStep d e)) ops (Client.init (App.init flash)) c) :
    OneDownload d e c := by
  have hinv := hrun.invariant (fun s => WellFormed s ∧ (Idle d s ∨
      s.app.downloadingStarted = true ∧ ∃ ref, ∀ ref' req, s.find ref' = some req →
        req.cb = some d.dataReceived → ref' = ref))
    (fun op s t h hstep => ?_) ⟨wellFormed_init _, .inl (idle_init d flash)⟩
  · obtain ⟨hwf, hphase⟩ := hinv
    refine ⟨fun hfresh => ?_, fun ref ref' req req' hfind hcb hfind' hcb' => ?_,
      fun hstarted ops' c' hlater => ?_⟩
    · rcases hphase with hidle | ⟨hstarted, -⟩
      · exact hidle.unlisted
      · rw [hstarted] at hfresh
        cases hfresh
    · rcases hphase with hidle | ⟨-, first, honly⟩
      · exact absurd hcb (hidle.unlisted ref req hfind)
      · exact (honly ref req hfind hcb).trans (honly ref' req' hfind' hcb').symm
    · refine (hlater.invariant (fun s => WellFormed s ∧ Latched d c s)
        (fun op s t h hstep => ?_)
        ⟨hwf, hstarted, rfl, fun ref req hfind hcb => ⟨req, hfind, hcb⟩⟩).2
      obtain ⟨hwf', hlatched⟩ := latched_step hruns h.1 h.2.started hstep.1 hstep.2
      exact ⟨hwf', hlatched.started, hlatched.version.trans h.2.version,
        h.2.adds.trans hlatched.adds⟩
  · obtain ⟨hwf, hidle | ⟨hstarted, ref, honly⟩⟩ := h
    · refine ⟨wellFormed_dfuStep hruns hwf hstep.2, ?_⟩
      exact (begun_of_step hruns hwf hidle hstep.1 hstep.2).imp_right
        fun ⟨ref, hbegun⟩ => ⟨hbegun.started, ref, hbegun.only⟩
    · obtain ⟨hwf', hlatched⟩ := latched_step hruns hwf hstarted hstep.1 hstep.2
      refine ⟨hwf', .inr ⟨hlatched.started, ref, fun ref' req hfind hcb => ?_⟩⟩
      obtain ⟨req', hfind', hcb'⟩ := hlatched.adds ref' req hfind hcb
      exact honly ref' req' hfind' hcb'

/-! ## A run of the sample -/

/-- The callbacks of the sample. -/
inductive Callback
  | dataReceived
  | goliothDesiredUpdate
  | goliothReqSyncCb
  deriving DecidableEq

/-- The sample as version `1.0`. -/
def sample : Sample Reference.Slot Zcbor.Reference.State Zcbor.Reference.Output Callback where
  flash := Reference.flashLib
  zcborDecode := Zcbor.Reference.library
  zcborEncode := Fw.Reference.reportEncoder
  currentVersionStr := ascii "1.0"
  dfuInitialResult := .initial
  stack := List.replicate 64 0
  updateCtx := 7
  dataReceived := .dataReceived
  goliothDesiredUpdate := .goliothDesiredUpdate
  goliothReqSyncCb := .goliothReqSyncCb

def sampleEnv : Env Callback (App Reference.Slot) := .calm fun callback rsp =>
  match callback with
  | .dataReceived => dataReceived sample.flash rsp
  | .goliothDesiredUpdate => goliothDesiredUpdate sample rsp
  | .goliothReqSyncCb => (goliothReqSyncCb none rsp ⟨false, 0, ()⟩).1.program

theorem runs_sample : Runs sample sampleEnv where
  dataReceived _ := rfl
  goliothDesiredUpdate _ := rfl
  others k hdata hdesired rsp := by
    cases k with
    | dataReceived => exact absurd rfl hdata
    | goliothDesiredUpdate => exact absurd rfl hdesired
    | goliothReqSyncCb =>
      change CS.Prog.Only (CbCmd.Spares Callback.dataReceived)
        (goliothReqSyncCb none rsp ⟨false, 0, ()⟩).1.program
      unfold SyncReturn.program
      split
      · exact ⟨trivial, fun _ => trivial⟩
      · trivial
  desired_ne := by decide
  sync_ne := by decide

/-- The slot holds another image, and is not erased. -/
def oldSlot : Reference.Slot where
  bytes := List.replicate 64 0
  size := List.length_replicate
  image := []

def tokenOf (reading : UInt8) : Token := ⟨[reading, 0, 0, 0, 0, 0, 0, 0], Nat.le_refl 8⟩

/-- A response to the request whose token was read then. -/
def respond (reading : UInt8) (options : List (OptionNum × ℤ)) (payload : List UInt8) :
    DfuOp Callback :=
  .client (.processRx
    { type := .ack, code := 69, id := 0, token := tokenOf reading, options := options
      payload := payload })

/-- The desired firmware is version `v`, at `u`. -/
def notifyDesired (observe : ℤ) : DfuOp Callback :=
  respond 2 [(.observe, observe)] (Fw.sample [Fw.packagePair, Fw.versionPair, Fw.uriPair]).payload

/-- The sample connects, reports, is notified of the desired firmware, and asks for it. -/
def startRun : List (DfuOp Callback) :=
  [.connect, .client (.pollPrepare 0 5), .main, notifyDesired 1, .client (.pollPrepare 0 5)]

def reservedCheck : DfuOp Callback → Client Callback (App Reference.Slot) → Bool
  | .client (.submit _), _ => false
  | _, _ => true

theorem reserved_of_check (op : DfuOp Callback) (c : Client Callback (App Reference.Slot))
    (hcheck : reservedCheck op c = true) : Reserved sample op c := by
  cases op with
  | client op =>
    cases op with
    | submit submission => cases hcheck
    | _ => trivial
  | _ => trivial

theorem one_download_startRun :
    ∃ c, CS.Run (CS.Guarded (Reserved sample) (DfuStep sample sampleEnv)) startRun
        (Client.init (App.init oldSlot)) c ∧
      c.app.downloadingStarted = true ∧ c.refs = [0, 1, 2] ∧ OneDownload sample sampleEnv c := by
  have hfacts : (CS.Run.executeIf reservedCheck (dfuPerform sample sampleEnv) startRun
      (Client.init (App.init oldSlot))).map (fun c => (c.app.downloadingStarted, c.refs)) =
        some (true, [0, 1, 2]) := by decide +kernel
  obtain ⟨c, hrun, hstate⟩ := Option.map_eq_some_iff.mp hfacts
  have hguarded := CS.Run.of_executeIf reserved_of_check hrun
  exact ⟨c, hguarded, (Prod.mk.inj hstate).1, (Prod.mk.inj hstate).2,
    one_download runs_sample hguarded⟩

end Golioth.Dfu
