/-
# The threads of the sample

A step of the main thread, or of the thread of the client when it has connected, may make a
request of its own, but leaves alone the requests there are. What it makes of the state of
the sample is one of a few moves.
-/
import Golioth.Dfu.Callbacks

namespace Golioth.Dfu

open Golioth.Coap Golioth.Fw Golioth.Requests Golioth.Services

variable {F S E κ : Type} {d : Sample F S E κ} {e : Env κ (App F)} {c c' c'' : Client κ (App F)}
  {k : κ} {ref : ℕ}

/-! ## Beside the requests there are -/

/-- What leaves the requests there are alone, and adds none with the callback `k`. -/
structure Beside (k : κ) (c c' : Client κ (App F)) : Prop where
  wellFormed : WellFormed c'
  nextRef_le : c.nextRef ≤ c'.nextRef
  find_old : ∀ ref < c.nextRef, c'.find ref = c.find ref
  history_old : ∀ ref < c.nextRef, c'.history ref = c.history ref
  adds : AddsNone k c c'

theorem Beside.trans (h : Beside k c c') (h' : Beside k c' c'') : Beside k c c'' where
  wellFormed := h'.wellFormed
  nextRef_le := h.nextRef_le.trans h'.nextRef_le
  find_old ref hlt := (h'.find_old ref (hlt.trans_le h.nextRef_le)).trans (h.find_old ref hlt)
  history_old ref hlt :=
    (h'.history_old ref (hlt.trans_le h.nextRef_le)).trans (h.history_old ref hlt)
  adds := h.adds.trans h'.adds

theorem beside_set (hwf : WellFormed c) (connected : Bool) (app : App F) :
    Beside k c { c with coapReqsConnected := connected, app := app } where
  wellFormed := ⟨hwf.nodup, hwf.refs_lt, hwf.log_lt⟩
  nextRef_le := le_rfl
  find_old _ _ := rfl
  history_old _ _ := rfl
  adds _ req hfind hcb := ⟨req, hfind, hcb⟩

theorem beside_submit (hwf : WellFormed c) {submission : Submission κ}
    (hcb : submission.cb ≠ some k) : Beside k c (submit e submission c).2 := by
  have heffect := effect_submit (e := e) none hwf submission
  exact ⟨heffect.wellFormed, heffect.nextRef_le, fun ref hlt => heffect.find_old ref hlt (by simp),
    fun ref hlt => heffect.history_old ref hlt (by simp), (bystander_submit hcb c).listed⟩

/-! ## Steps of the threads -/

theorem beside_goliothOnConnect (hruns : Runs d e) (hwf : WellFormed c) :
    Beside d.dataReceived c (goliothOnConnect d e (coapReqsOnConnect c)) ∧
      (goliothOnConnect d e (coapReqsOnConnect c)).app = { c.app with semConnected := true } := by
  have hset : Beside d.dataReceived c { c with
      coapReqsConnected := true, app := { c.app with semConnected := true } } :=
    beside_set hwf true _
  have hne : (Submission.reqCb (goliothFwObserveDesiredArgs (some d.goliothDesiredUpdate)
      d.updateCtx)).cb ≠ some d.dataReceived := fun h => hruns.desired_ne (Option.some_inj.mp h)
  exact ⟨hset.trans (beside_submit hset.wellFormed hne), app_submit e _ _⟩

theorem beside_reportState (hruns : Runs d e) (hwf : WellFormed c) (report : FwReport) :
    Beside d.dataReceived c (reportState d e report c) ∧
      ∃ reporting, (reportState d e report c).app = { c.app with reporting := reporting } := by
  have hset : ∀ app, Beside d.dataReceived c { c with app := app } := fun app =>
    beside_set hwf c.coapReqsConnected app
  unfold reportState
  split
  · exact ⟨hset _, _, rfl⟩
  · next zse _ =>
    have hne : (Submission.reqCb (goliothFwReportStateArgs (some d.goliothReqSyncCb) 0
        (ascii "main") (d.zcborEncode.encoded zse))).cb ≠ some d.dataReceived := fun h =>
      hruns.sync_ne (Option.some_inj.mp h)
    exact ⟨(hset _).trans (beside_submit (hset _).wellFormed hne), _, app_submit e _ _⟩

/-- What a step of the main thread makes of the state of the sample. -/
inductive MainMoves (lib : FlashLib F) (app : App F) : App F → Prop
  | idle (reporting : Option ℕ) : app.main = .connecting →
      MainMoves lib app { app with semConnected := false, main := .idle, reporting := reporting }
  | downloading (reporting : Option ℕ) : app.main = .idle →
      MainMoves lib app
        { app with semDownloading := false, main := .downloading, reporting := reporting }
  | downloaded (reporting : Option ℕ) : app.main = .downloading → app.semDownloaded = true →
      MainMoves lib app
        { app with semDownloaded := false, main := .downloaded, reporting := reporting }
  | updating (reporting : Option ℕ) : app.main = .downloaded →
      MainMoves lib app { app with main := .updating, reporting := reporting }
  | requested : app.main = .updating →
      MainMoves lib app
        { app with
          flash := (lib.bootRequestUpgrade app.flash).2
          main := .requested (lib.bootRequestUpgrade app.flash).1 }

theorem mainStep_cases (hruns : Runs d e) (hwf : WellFormed c) (hstep : mainStep d e c = some c') :
    Beside d.dataReceived c c' ∧ MainMoves d.flash c.app c'.app := by
  have hreport : ∀ (app : App F) report, Beside d.dataReceived c
        (reportState d e report { c with app := app }) ∧
      ∃ reporting, (reportState d e report { c with app := app }).app =
        { app with reporting := reporting } := by
    intro app report
    have hset : Beside d.dataReceived c { c with app := app } :=
      beside_set hwf c.coapReqsConnected app
    obtain ⟨hbeside, happ⟩ := beside_reportState hruns hset.wellFormed report
    exact ⟨hset.trans hbeside, happ⟩
  unfold mainStep at hstep
  dsimp only at hstep
  split at hstep
  · cases hstep
  · split at hstep
    · next hmain =>
      split at hstep
      · cases hstep
      · obtain rfl := Option.some_inj.mp hstep
        obtain ⟨hbeside, reporting, happ⟩ := hreport _ _
        exact ⟨hbeside, happ ▸ .idle reporting hmain⟩
    · next hmain =>
      split at hstep
      · cases hstep
      · obtain rfl := Option.some_inj.mp hstep
        obtain ⟨hbeside, reporting, happ⟩ := hreport _ _
        exact ⟨hbeside, happ ▸ .downloading reporting hmain⟩
    · next hmain =>
      split at hstep
      · cases hstep
      · next hsem =>
        obtain rfl := Option.some_inj.mp hstep
        obtain ⟨hbeside, reporting, happ⟩ := hreport _ _
        exact ⟨hbeside, happ ▸ .downloaded reporting hmain (not_not.mp hsem)⟩
    · next hmain =>
      obtain rfl := Option.some_inj.mp hstep
      obtain ⟨hbeside, reporting, happ⟩ := hreport _ _
      exact ⟨hbeside, happ ▸ .updating reporting hmain⟩
    · next hmain =>
      obtain rfl := Option.some_inj.mp hstep
      exact ⟨beside_set hwf c.coapReqsConnected _, .requested hmain⟩
    · cases hstep

theorem requested_of_moves {lib : FlashLib F} {app app' : App F} (hmoves : MainMoves lib app app')
    (hmain : app.main = .updating) :
    ∃ err, app'.main = .requested err ∧ app'.downloadingStarted = app.downloadingStarted := by
  cases hmoves with
  | requested _ => exact ⟨_, rfl, rfl⟩
  | idle reporting hother => rw [hmain] at hother; cases hother
  | downloading reporting hother => rw [hmain] at hother; cases hother
  | downloaded reporting hother hsem => rw [hmain] at hother; cases hother
  | updating reporting hother => rw [hmain] at hother; cases hother

theorem wellFormed_dfuStep (hruns : Runs d e) (hwf : WellFormed c) {op : DfuOp κ}
    (hstep : DfuStep d e op c c') : WellFormed c' := by
  cases op with
  | client op => exact wellFormed_step hwf hstep
  | connect =>
    obtain rfl := Option.some_inj.mp hstep
    exact (beside_goliothOnConnect hruns hwf).1.wellFormed
  | main => exact (mainStep_cases hruns hwf hstep).1.wellFormed

end Golioth.Dfu
