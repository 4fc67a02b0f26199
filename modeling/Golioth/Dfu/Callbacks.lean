/-
# What the callbacks of the sample do

One spec for each callback, whatever state it is called in. `data_received` writes to the
flash, and does nothing else that the rest of the sample could see; `golioth_desired_update`
does nothing, or copies a version, or starts a download; and no other callback writes to the
state of the sample. A failure changes nothing, whichever callback is told of it.
-/
import Golioth.Dfu.Update

namespace Golioth.Dfu

open Golioth.Coap Golioth.Requests

variable {F S E κ : Type} {d : Sample F S E κ} {e : Env κ (App F)} {c : Client κ (App F)}
  {ref : ℕ} {req : CoapReq κ}

/-! ## Data -/

/-- What `data_received` returns, and what it makes of the sample. -/
def received (lib : FlashLib F) (rsp : Rsp) (app : App F) : ℤ × App F :=
  if rsp.err ≠ 0 then (0, app) else writeData lib rsp app

/-- A write concerns the flash, and the semaphore if it is the last and succeeds. -/
theorem writeData_app (lib : FlashLib F) (rsp : Rsp) (app : App F) :
    ∃ flash semDownloaded,
      (writeData lib rsp app).2 = { app with flash := flash, semDownloaded := semDownloaded } ∧
      (semDownloaded = true → app.semDownloaded = true ∨
        (writeData lib rsp app).1 = 0 ∧ rsp.getNext = false) := by
  unfold writeData
  generalize (if rsp.off = 0 then flashImgPrepare lib app.flash else (0, app.flash)) = prepared
  dsimp only
  split
  · exact ⟨_, _, rfl, .inl⟩
  · split
    · exact ⟨_, _, rfl, .inl⟩
    · refine ⟨_, _, rfl, fun h => ?_⟩
      simpa using h

/-- A write to a slot that takes the image so far adds to it. -/
theorem writeData_ok {lib : FlashLib F} {area given : F → List UInt8} {before : List UInt8}
    (hflash : FlashContract lib area given) {rsp : Rsp} {app : App F}
    (hfirst : rsp.off = 0 → before = [])
    (hlater : rsp.off ≠ 0 → Takes lib area given app.flash ∧ given app.flash = before)
    (hok : (writeData lib rsp app).1 = 0) :
    Takes lib area given (writeData lib rsp app).2.flash ∧
      given (writeData lib rsp app).2.flash = before ++ rsp.data ∧
      (rsp.getNext = false → before ++ rsp.data <+: area (writeData lib rsp app).2.flash) := by
  have hprepared : ∀ prepared, (if rsp.off = 0 then flashImgPrepare lib app.flash
      else (0, app.flash)) = prepared → prepared.1 = 0 →
        Takes lib area given prepared.2 ∧ given prepared.2 = before := by
    rintro _ rfl hprepared
    split at hprepared
    · next hoff =>
      rw [if_pos hoff, hfirst hoff]
      exact takes_of_prepare hflash hprepared
    · next hoff =>
      rw [if_neg hoff]
      exact hlater hoff
  unfold writeData at hok ⊢
  generalize hprepare : (if rsp.off = 0 then flashImgPrepare lib app.flash
    else (0, app.flash)) = prepared at hok ⊢
  dsimp only at hok ⊢
  split at hok
  · next hfailed => exact absurd hok hfailed
  · next hready =>
    rw [if_neg hready]
    obtain ⟨htakes, hgiven⟩ := hprepared prepared hprepare (not_not.mp hready)
    split at hok
    · next hfailed => exact absurd hok hfailed
    · next hwritten =>
      rw [if_neg hwritten]
      obtain ⟨htakes', hgiven', hflushed⟩ := hflash.write _ _ _ htakes (not_not.mp hwritten)
      rw [hgiven] at hgiven'
      refine ⟨htakes', hgiven', fun hlast => ?_⟩
      rw [← hgiven']
      exact hflushed (by simp [hlast])

/-- A callback that returns at once does nothing. -/
theorem invoke_of_ret {k : κ} {cb : Option κ} {rsp : Rsp} {ret : ℤ}
    (hret : e.callback cb rsp = .ret ret) (c : Client κ (App F)) :
    Bystander k c (invoke e ref cb rsp c).2 ∧ (invoke e ref cb rsp c).1 = ret := by
  have hinvoke : invoke e ref cb rsp c =
      (ret, (c.emit (.called ref rsp)).emit (.returned ref rsp ret)) := by
    unfold invoke invokeLast
    split <;> rw [invokeWith, hret] <;> rfl
  rw [hinvoke]
  exact ⟨(bystander_emit c _).trans (bystander_emit _ _), rfl⟩

/-- The code of `data_received`: what it has received, and whether it asks for more. -/
private theorem run_dataReceived (lib : FlashLib F)
    (getNext : ℤ → Client κ (App F) → ℤ × Client κ (App F)) (rsp : Rsp) (c : Client κ (App F)) :
    ((dataReceived lib rsp).run (answerWith e getNext) c).1 = (received lib rsp c.app).1 ∧
      (((dataReceived lib rsp).run (answerWith e getNext) c).2 =
          { c with app := (received lib rsp c.app).2 } ∨
        ((dataReceived lib rsp).run (answerWith e getNext) c).2 =
          (getNext 0 { c with app := (received lib rsp c.app).2 }).2) := by
  rw [dataReceived, received]
  by_cases herr : rsp.err ≠ 0
  · rw [if_pos herr, if_pos herr]
    exact ⟨rfl, .inl rfl⟩
  · rw [if_neg herr, if_neg herr]
    generalize hwritten : writeData lib rsp c.app = written
    have hrun : CS.Prog.run (answerWith e getNext)
        (.call .get fun app => .call (.set (writeData lib rsp app).2) fun _ =>
          if (writeData lib rsp app).1 ≠ 0 then .ret (writeData lib rsp app).1
          else if rsp.getNext then .call (.getNext 0) fun _ => .ret 0 else .ret 0) c =
        CS.Prog.run (answerWith e getNext) (if written.1 ≠ 0 then .ret written.1
          else if rsp.getNext then .call (.getNext 0) fun _ => .ret 0 else .ret 0)
          { c with app := written.2 } := by
      rw [← hwritten]
      rfl
    rw [hrun]
    split
    · exact ⟨rfl, .inl rfl⟩
    · next hok =>
      split
      · exact ⟨(not_not.mp hok).symm, .inr rfl⟩
      · exact ⟨(not_not.mp hok).symm, .inl rfl⟩

private theorem invokeWith_dataReceived (hruns : Runs d e)
    {getNext : ℤ → Client κ (App F) → ℤ × Client κ (App F)}
    (hgetNext : ∀ c, ListedWith ref (some d.dataReceived) c →
      Bystander d.dataReceived c (getNext 0 c).2)
    (rsp : Rsp) (h : ListedWith ref (some d.dataReceived) c) :
    (invokeWith e (answerWith e getNext) ref (some d.dataReceived) rsp c).1 =
        (received d.flash rsp c.app).1 ∧
      (invokeWith e (answerWith e getNext) ref (some d.dataReceived) rsp c).2.app =
        (received d.flash rsp c.app).2 ∧
      AddsNone d.dataReceived c
        (invokeWith e (answerWith e getNext) ref (some d.dataReceived) rsp c).2 := by
  have hcode : e.callback (some d.dataReceived) rsp = dataReceived d.flash rsp :=
    hruns.dataReceived rsp
  have hwritten : ∀ app, AddsNone d.dataReceived c { c.emit (.called ref rsp) with app := app } :=
    fun _ ref' req' hfind hcb => ⟨req', hfind, hcb⟩
  obtain ⟨hret, hrun⟩ := run_dataReceived (e := e) d.flash getNext rsp (c.emit (.called ref rsp))
  rw [invokeWith, hcode]
  refine ⟨hret, ?_⟩
  rcases hrun with hrun | hrun
  · rw [hrun]
    exact ⟨rfl, hwritten (received d.flash rsp c.app).2⟩
  · have hasked := hgetNext
      { c.emit (.called ref rsp) with app := (received d.flash rsp c.app).2 } h
    rw [hrun]
    exact ⟨hasked.app, (hwritten (received d.flash rsp c.app).2).trans hasked.listed⟩

/-- **`data_received`.** -/
theorem invoke_dataReceived (hruns : Runs d e) (rsp : Rsp)
    (h : ListedWith ref (some d.dataReceived) c) :
    (invoke e ref (some d.dataReceived) rsp c).1 = (received d.flash rsp c.app).1 ∧
      (invoke e ref (some d.dataReceived) rsp c).2.app = (received d.flash rsp c.app).2 ∧
      AddsNone d.dataReceived c (invoke e ref (some d.dataReceived) rsp c).2 := by
  have hfailed : ∀ (rsp : Rsp) (c : Client κ (App F)), rsp.err ≠ 0 →
      ListedWith ref (some d.dataReceived) c →
        ListedWith ref (some d.dataReceived) (invokeLast e ref (some d.dataReceived) rsp c).2 ∧
          Bystander d.dataReceived c (invokeLast e ref (some d.dataReceived) rsp c).2 := by
    intro rsp c herr hcalls
    have hret : e.callback (some d.dataReceived) rsp = .ret 0 := by
      rw [Env.callback, hruns.dataReceived, dataReceived, if_pos herr]
    rw [invokeLast, invokeWith, hret]
    exact ⟨hcalls, (bystander_emit c _).trans (bystander_emit _ _)⟩
  unfold invoke
  split
  · exact invokeWith_dataReceived hruns
      (fun c hcalls => (bystander_coapReqNextBlock hfailed 0 hcalls).2) rsp h
  · exact invokeWith_dataReceived hruns (fun c _ => .refl c) rsp h

/-! ## The desired firmware -/

/-- What `golioth_desired_update` comes to: it has copied a version, at most, or it has requested
the download. -/
inductive Responds (d : Sample F S E κ) (e : Env κ (App F)) (rsp : Rsp) (c : Client κ (App F)) :
    ℤ × Client κ (App F) → Prop
  | ignores (ret : ℤ) (version : List UInt8) :
      (c.app.downloadingStarted = true → version = c.app.version) →
      Responds d e rsp c (ret, { c with app := { c.app with version := version } })
  | starts (version : List UInt8) (args : DownloadArgs κ) : c.app.downloadingStarted = false →
      args.cb = some d.dataReceived →
      Responds d e rsp c (submit e (.fwDownload args)
        { c with app := { c.app with
          version := version, semDownloading := true, downloadingStarted := true } })

private theorem responds_actOnDesired (d : Sample F S E κ)
    (getNext : ℤ → Client κ (App F) → ℤ × Client κ (App F)) (rsp : Rsp) {c : Client κ (App F)}
    (hfresh : c.app.downloadingStarted = false) (parsed : Zcbor.Walked S (Fw.FwVars S)) :
    Responds d e rsp c
      ((actOnDesired d rsp.userData parsed c.app).run (answerWith e getNext) c) := by
  have hversion : ∀ version, c.app.downloadingStarted = true → version = c.app.version := by
    intro version hstarted
    rw [hfresh] at hstarted
    cases hstarted
  unfold actOnDesired
  dsimp only
  split
  · exact .ignores 0 c.app.version fun _ => rfl
  · split
    · exact .ignores _ _ (hversion _)
    · exact .starts _ _ hfresh rfl
  · exact .ignores _ _ (hversion _)

theorem responds_goliothDesiredUpdate (d : Sample F S E κ)
    (getNext : ℤ → Client κ (App F) → ℤ × Client κ (App F)) (rsp : Rsp) (c : Client κ (App F)) :
    Responds d e rsp c ((goliothDesiredUpdate d rsp).run (answerWith e getNext) c) := by
  unfold goliothDesiredUpdate
  by_cases herr : rsp.err ≠ 0
  · rw [if_pos herr]
    exact .ignores 0 c.app.version fun _ => rfl
  · rw [if_neg herr]
    change Responds d e rsp c (CS.Prog.run (answerWith e getNext)
      (if c.app.downloadingStarted = true then .ret 0
        else actOnDesired d rsp.userData (parseDesired d rsp.data c.app.version) c.app) c)
    split
    · exact .ignores 0 c.app.version fun _ => rfl
    · next hstarted =>
      exact responds_actOnDesired d getNext rsp (Bool.eq_false_of_not_eq_true hstarted) _

/-- **`golioth_desired_update`.** Between its two events a callback responds. -/
theorem invoke_goliothDesiredUpdate (hruns : Runs d e) (ref : ℕ) (rsp : Rsp)
    (c : Client κ (App F)) :
    ∃ result, Responds d e rsp (c.emit (.called ref rsp)) result ∧
      invoke e ref (some d.goliothDesiredUpdate) rsp c =
        (result.1, result.2.emit (.returned ref rsp result.1)) := by
  have hcode : e.callback (some d.goliothDesiredUpdate) rsp = goliothDesiredUpdate d rsp :=
    hruns.goliothDesiredUpdate rsp
  unfold invoke invokeLast
  split <;> rw [invokeWith, hcode] <;>
    exact ⟨_, responds_goliothDesiredUpdate d _ rsp _, rfl⟩

/-! ## Bystanders -/

/-- **Failures.** A callback that is told of a failure is a bystander. -/
theorem bystander_of_failure (hruns : Runs d e) (c : Client κ (App F)) (ref : ℕ)
    (req : CoapReq κ) (rsp : Rsp) (herr : rsp.err ≠ 0) (hfind : c.find ref = some req) :
    Bystander d.dataReceived c (invoke e ref req.cb rsp c).2 := by
  cases hcb : req.cb with
  | none =>
    have hret : e.callback none rsp = .ret 0 := rfl
    exact (invoke_of_ret hret c).1
  | some k =>
    by_cases hdata : k = d.dataReceived
    · subst hdata
      have hret : e.callback (some d.dataReceived) rsp = .ret 0 := by
        rw [Env.callback, hruns.dataReceived, dataReceived, if_pos herr]
      exact (invoke_of_ret hret c).1
    · by_cases hdesired : k = d.goliothDesiredUpdate
      · subst hdesired
        have hret : e.callback (some d.goliothDesiredUpdate) rsp = .ret 0 := by
          rw [Env.callback, hruns.goliothDesiredUpdate, goliothDesiredUpdate, if_pos herr]
        exact (invoke_of_ret hret c).1
      · exact bystander_invoke (hruns.others k hdata hdesired) rsp ⟨req, hfind, hcb⟩

/-- Other code spares the state of the sample. -/
theorem spares_other (hruns : Runs d e) {cb : Option κ} (hdata : cb ≠ some d.dataReceived)
    (hdesired : cb ≠ some d.goliothDesiredUpdate) : Spares e d.dataReceived cb := by
  cases cb with
  | none => exact fun _ => trivial
  | some k =>
    exact hruns.others k (fun h => hdata (congrArg some h)) fun h => hdesired (congrArg some h)

/-- **Latch.** After a download has started, every callback but `data_received` is a bystander. -/
theorem bystander_of_started (hruns : Runs d e) (hstarted : c.app.downloadingStarted = true)
    {cb : Option κ} (hcb : cb ≠ some d.dataReceived) (rsp : Rsp) (h : ListedWith ref cb c) :
    Bystander d.dataReceived c (invoke e ref cb rsp c).2 := by
  by_cases hdesired : cb = some d.goliothDesiredUpdate
  · subst hdesired
    obtain ⟨result, hresponds, hinvoke⟩ := invoke_goliothDesiredUpdate hruns ref rsp c
    rw [hinvoke]
    cases hresponds with
    | ignores ret version hversion =>
      obtain rfl := hversion hstarted
      exact ((bystander_emit c _).trans (bystander_emit _ (.returned ref rsp ret)))
    | starts version args hfresh hargs =>
      rw [Client.app_emit, hstarted] at hfresh
      cases hfresh
  · exact bystander_invoke (spares_other hruns hcb hdesired) rsp h

end Golioth.Dfu
