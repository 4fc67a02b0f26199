/-
# A firmware update

The sample `dfu`. Its callbacks run in the thread of the client: one is told of the
desired firmware and starts a download, the other is handed the blocks of the image and
writes them to the flash. The main thread waits for the one, and then for the other, and
asks the bootloader for the upgrade. Between the two threads are three semaphores and
what the sample remembers of the update.
-/
import Golioth.Dfu.Flash
import Golioth.Fw.Report
import Golioth.Requests.Bystanders
import Golioth.Zcbor.Termination

namespace Golioth.Dfu

open Golioth.Coap Golioth.Fw Golioth.Requests Golioth.Services Golioth.Zcbor

variable {F S E κ : Type}

/-! ## The state of the sample -/

/-- `struct dfu_ctx`. -/
structure DfuCtx (F : Type) where
  flash : F
  version : List UInt8
  downloadingStarted : Bool

/-- Where the main thread is: the semaphore it takes next, or the last of its calls. -/
inductive MainStage
  | connecting
  | idle
  | downloading
  | downloaded
  | updating
  | requested (err : ℤ)
  deriving DecidableEq, Repr

/-- The state of the sample: `update_ctx`, the semaphores, whose counts are zero or one, and the
main thread, with the request of the report it waits for. -/
structure App (F : Type) extends DfuCtx F where
  semConnected : Bool
  semDownloading : Bool
  semDownloaded : Bool
  main : MainStage
  reporting : Option ℕ

/-- The state of the sample when it starts. -/
def App.init (flash : F) : App F where
  flash := flash
  version := List.replicate 65 0
  downloadingStarted := false
  semConnected := false
  semDownloading := false
  semDownloaded := false
  main := .connecting
  reporting := none

/-- What the sample calls, and its callbacks as the request module knows them. -/
structure Sample (F S E κ : Type) where
  flash : FlashLib F
  zcborDecode : ZcborDecode S
  zcborEncode : ReportEncode E
  currentVersionStr : List UInt8
  dfuInitialResult : DfuResult
  /-- What the stack holds from the buffer `uri` on. -/
  stack : List UInt8
  /-- The address of `update_ctx`. -/
  updateCtx : ℕ
  dataReceived : κ
  goliothDesiredUpdate : κ
  /-- `golioth_req_sync_cb` -/
  goliothReqSyncCb : κ

/-! ## The callbacks -/

/-- What `data_received` does to the sample with data. -/
def writeData (lib : FlashLib F) (rsp : Rsp) (app : App F) : ℤ × App F :=
  let last := !rsp.getNext
  let prepared := if rsp.off = 0 then flashImgPrepare lib app.flash else (0, app.flash)
  if prepared.1 ≠ 0 then (prepared.1, { app with flash := prepared.2 })
  else
    let written := lib.flashImgBufferedWrite rsp.data last prepared.2
    if written.1 ≠ 0 then (written.1, { app with flash := written.2 })
    else (0, { app with flash := written.2, semDownloaded := app.semDownloaded || last })

/-- `data_received`. -/
def dataReceived (lib : FlashLib F) (rsp : Rsp) : CbProg κ (App F) :=
  if rsp.err ≠ 0 then .ret 0
  else
    .call .get fun app =>
    .call (.set (writeData lib rsp app).2) fun _ =>
      if (writeData lib rsp app).1 ≠ 0 then .ret (writeData lib rsp app).1
      else if rsp.getNext then .call (.getNext 0) fun _ => .ret 0
      else .ret 0

/-- `uri_strip_leading_slash`: the memory from the URI on, and its length. -/
def uriStripLeadingSlash (uri : List UInt8) (uriLen : ℕ) : List UInt8 × ℕ :=
  if 0 < uriLen ∧ uri.headD 0 = (ascii "/").headD 0 then (uri.tail, uriLen - 1) else (uri, uriLen)

/-- The call of `golioth_fw_desired_parse`, whose length has 16 bits. -/
def parseDesired (d : Sample F S E κ) (data version : List UInt8) : Walked S (FwVars S) :=
  let payload := data.take (data.length % 2 ^ 16)
  goliothFwDesiredParse d.zcborDecode payload.length payload
    { sequenceNumber := { value := 0 }
      version := { value := version, valueLen := 64 }
      uri := { value := d.stack, valueLen := 64 } }

/-- The call returns, whatever the server sends. -/
theorem ret_parseDesired {d : Sample F S E κ} (hlib : d.zcborDecode.Consumes)
    (data version : List UInt8) : ∃ err, (parseDesired d data version).1 = some err :=
  (ends_zcborMapDecode hlib (walks_manifestEntries hlib) le_rfl 1 3 _).1

/-- Whether the desired version is the one that is running. -/
def isCurrent (d : Sample F S E κ) (version : List UInt8) (versionLen : ℕ) : Bool :=
  versionLen = (cString d.currentVersionStr).length ∧
    Rpc.strncmp versionLen d.currentVersionStr version = 0

/-- `golioth_desired_update` from where it has parsed the manifest. -/
def actOnDesired (d : Sample F S E κ) (userData : ℕ) (parsed : Walked S (FwVars S)) (app : App F) :
    CbProg κ (App F) :=
  let versionLen := parsed.2.out.version.valueLen
  -- the buffer is written to also when parsing fails later on
  let app := { app with version := parsed.2.out.version.value }
  match parsed.1 with
  | none => .ret 0 -- the walk through a manifest returns
  | some 0 =>
    let app := { app with version := app.version.set versionLen 0 }
    if isCurrent d app.version versionLen then .call (.set app) fun _ => .ret (-Errno.ealready)
    else
      let uri := uriStripLeadingSlash parsed.2.out.uri.value parsed.2.out.uri.valueLen
      .call (.set { app with semDownloading := true, downloadingStarted := true }) fun _ =>
      .call (.submit (.fwDownload
        { uri := uri.1, uriLen := uri.2, cb := some d.dataReceived, userData := userData }))
        fun err => .ret err
  | some err => .call (.set app) fun _ => .ret (if err = -Errno.enoent then 0 else err)

/-- `golioth_desired_update`. -/
def goliothDesiredUpdate (d : Sample F S E κ) (rsp : Rsp) : CbProg κ (App F) :=
  if rsp.err ≠ 0 then .ret 0
  else
    .call .get fun app =>
      if app.downloadingStarted then .ret 0
      else actOnDesired d rsp.userData (parseDesired d rsp.data app.version) app

/-- `golioth_on_connect`. -/
def goliothOnConnect (d : Sample F S E κ) (e : Env κ (App F)) (c : Client κ (App F)) :
    Client κ (App F) :=
  (submit e (.reqCb (goliothFwObserveDesiredArgs (some d.goliothDesiredUpdate) d.updateCtx))
    { c with app := { c.app with semConnected := true } }).2

/-! ## The main thread -/

/-- `golioth_fw_report_state` up to where it waits; it returns when its request is gone. -/
def reportState (d : Sample F S E κ) (e : Env κ (App F)) (report : FwReport)
    (c : Client κ (App F)) : Client κ (App F) :=
  match fwReportStateEncode d.zcborEncode report (d.zcborEncode.newEncodeState encodeBufLen 1) with
  | .error _ => { c with app := { c.app with reporting := none } }
  | .ok zse =>
    (submit e (.reqCb (goliothFwReportStateArgs (some d.goliothReqSyncCb) 0 (ascii "main")
      (d.zcborEncode.encoded zse)))
      { c with app := { c.app with reporting := some c.nextRef } }).2

/-- `main` from one call on which it may wait to the next. A report does not come to an end
before its request does, and what it returns is only logged. -/
def mainStep (d : Sample F S E κ) (e : Env κ (App F)) (c : Client κ (App F)) :
    Option (Client κ (App F)) :=
  let report (targetVersion : Option (List UInt8)) (state : FwState) (result : DfuResult) :
      FwReport := ⟨some d.currentVersionStr, targetVersion, state, result⟩
  -- the thread waits in the report it has made last
  if (c.app.reporting.bind c.find).isSome then none
  else
    match c.app.main with
    | .connecting =>
      if ¬ c.app.semConnected then none
      else some (reportState d e (report none .idle d.dfuInitialResult)
        { c with app := { c.app with semConnected := false, main := .idle } })
    | .idle =>
      if ¬ c.app.semDownloading then none
      else some (reportState d e (report (some c.app.version) .downloading .initial)
        { c with app := { c.app with semDownloading := false, main := .downloading } })
    | .downloading =>
      if ¬ c.app.semDownloaded then none
      else some (reportState d e (report (some c.app.version) .downloaded .initial)
        { c with app := { c.app with semDownloaded := false, main := .downloaded } })
    | .downloaded =>
      some (reportState d e (report (some c.app.version) .updating .initial)
        { c with app := { c.app with main := .updating } })
    | .updating =>
      let requested := d.flash.bootRequestUpgrade c.app.flash
      some { c with app := { c.app with flash := requested.2, main := .requested requested.1 } }
    | .requested _ => none

/-! ## The system -/

/-- The steps of the sample: an operation of the request module, a connection, which goes on with
`golioth_on_connect`, and a step of the main thread. -/
inductive DfuOp (κ : Type)
  | client (op : Op κ)
  | connect
  | main

def dfuPerform (d : Sample F S E κ) (e : Env κ (App F)) :
    DfuOp κ → Client κ (App F) → Option (Client κ (App F))
  | .client op, c => perform e op c
  | .connect, c => some (goliothOnConnect d e (coapReqsOnConnect c))
  | .main, c => mainStep d e c

def DfuStep (d : Sample F S E κ) (e : Env κ (App F)) (op : DfuOp κ) (c c' : Client κ (App F)) :
    Prop :=
  dfuPerform d e op c = some c'

/-- The code behind the function pointers: that of the sample, and other code, which does not
write to the state of the sample and does not hand out its callback. -/
structure Runs (d : Sample F S E κ) (e : Env κ (App F)) : Prop where
  dataReceived : ∀ rsp, e.code d.dataReceived rsp = dataReceived d.flash rsp
  goliothDesiredUpdate : ∀ rsp, e.code d.goliothDesiredUpdate rsp = goliothDesiredUpdate d rsp
  others : ∀ k, k ≠ d.dataReceived → k ≠ d.goliothDesiredUpdate →
    Spares e d.dataReceived (some k)
  desired_ne : d.goliothDesiredUpdate ≠ d.dataReceived
  sync_ne : d.goliothReqSyncCb ≠ d.dataReceived

end Golioth.Dfu
