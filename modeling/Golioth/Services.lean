/-
# The requests of the services

LightDB, streams, firmware updates, remote procedure calls and settings all make their
requests through `golioth_coap_req_cb`, each with a method, a path under one of its own, a
content format and flags. A server tells them apart by what it finds in the message, and the
message tells all of them apart: whatever a service asks for reads back as that.
-/
import Golioth.Requests.Room
import Golioth.Rpc.Dispatch
import Golioth.Settings.Response

namespace Golioth.Services

open Golioth.Coap Golioth.Requests
open CS.OptionFormat (Entry)
open Coap.Reference (intBytes bytesInt bytesInt_intBytes)

variable {κ σ : Type}

/-! ## The calls -/

/-- `enum golioth_content_format`. -/
inductive ContentFormat
  | appOctetStream
  | appJson
  | appCbor
  deriving DecidableEq, Repr

def ContentFormat.value : ContentFormat → ℕ
  | .appOctetStream => 42
  | .appJson => 50
  | .appCbor => 60

/-- What a caller of a service asks for; `P` is what its paths are. -/
inductive ServiceCall (P : Type)
  | lightdbGet (path : P) (format : ContentFormat)
  | lightdbSet (path : P) (format : ContentFormat) (data : List UInt8)
  | lightdbObserve (path : P) (format : ContentFormat)
  | lightdbDelete (path : P)
  | streamPush (path : P) (format : ContentFormat) (data : List UInt8)
  | fwObserveDesired
  | fwReportState (packageName : P) (data : List UInt8)
  | rpcObserve
  | rpcResponse (data : List UInt8)
  | settingsObserve
  | settingsResponse (data : List UInt8)
  deriving DecidableEq, Repr

/-- The same call with other paths. -/
def ServiceCall.map {P Q : Type} (f : P → Q) : ServiceCall P → ServiceCall Q
  | .lightdbGet path format => .lightdbGet (f path) format
  | .lightdbSet path format data => .lightdbSet (f path) format data
  | .lightdbObserve path format => .lightdbObserve (f path) format
  | .lightdbDelete path => .lightdbDelete (f path)
  | .streamPush path format data => .streamPush (f path) format data
  | .fwObserveDesired => .fwObserveDesired
  | .fwReportState packageName data => .fwReportState (f packageName) data
  | .rpcObserve => .rpcObserve
  | .rpcResponse data => .rpcResponse data
  | .settingsObserve => .settingsObserve
  | .settingsResponse data => .settingsResponse data

/-! ## Their requests -/

section Args

variable (cb : Option κ) (userData : ℕ)

/-- The arguments `golioth_coap_req_lightdb_cb` gives to `golioth_coap_req_cb`, and
`golioth_coap_req_lightdb_sync` to `golioth_coap_req_sync`. -/
def coapReqLightdbArgs (method : Method) (path : List UInt8) (format : ContentFormat)
    (data : Option (List UInt8)) (flagObserve flagNoRespBody : Bool) : ReqArgs κ where
  method := method
  pathv := [ascii ".d", path]
  format := format.value
  data := data
  dataLen := (data.getD []).length
  cb := cb
  userData := userData
  flagObserve := flagObserve
  flagNoRespBody := flagNoRespBody

/-- `golioth_lightdb_get_cb`, `golioth_lightdb_get`. -/
def goliothLightdbGetArgs (path : List UInt8) (format : ContentFormat) : ReqArgs κ :=
  coapReqLightdbArgs cb userData .get path format none false false

/-- `golioth_lightdb_set_cb`, `golioth_lightdb_set`. -/
def goliothLightdbSetArgs (path : List UInt8) (format : ContentFormat) (data : List UInt8) :
    ReqArgs κ :=
  coapReqLightdbArgs cb userData .post path format (some data) false true

/-- `golioth_lightdb_observe_cb`. -/
def goliothLightdbObserveArgs (path : List UInt8) (format : ContentFormat) : ReqArgs κ :=
  coapReqLightdbArgs cb userData .get path format none true false

/-- `golioth_lightdb_delete_cb`, `golioth_lightdb_delete`. -/
def goliothLightdbDeleteArgs (path : List UInt8) : ReqArgs κ :=
  coapReqLightdbArgs cb userData .delete path .appOctetStream none false true

/-- `golioth_stream_push_cb`, `golioth_stream_push`. -/
def goliothStreamPushArgs (path : List UInt8) (format : ContentFormat) (data : List UInt8) :
    ReqArgs κ where
  method := .post
  pathv := [ascii ".s", path]
  format := format.value
  data := some data
  dataLen := data.length
  cb := cb
  userData := userData
  flagObserve := false
  flagNoRespBody := true

/-- `golioth_fw_report_state_cb`, `golioth_fw_report_state`, with what has been encoded. -/
def goliothFwReportStateArgs (packageName data : List UInt8) : ReqArgs κ where
  method := .post
  pathv := [ascii ".u/c", packageName]
  format := ContentFormat.appCbor.value
  data := some data
  dataLen := data.length
  cb := cb
  userData := userData
  flagObserve := false
  flagNoRespBody := false

/-- An observation of a path of its own. -/
def observeArgs (path : List UInt8) : ReqArgs κ where
  method := .get
  pathv := [path]
  format := ContentFormat.appCbor.value
  data := none
  dataLen := 0
  cb := cb
  userData := userData
  flagObserve := true
  flagNoRespBody := false

/-- `golioth_fw_observe_desired`. -/
def goliothFwObserveDesiredArgs : ReqArgs κ := observeArgs cb userData (ascii ".u/desired")

/-- `golioth_rpc_observe`. -/
def goliothRpcObserveArgs : ReqArgs κ := observeArgs cb userData (ascii ".rpc")

/-- `golioth_settings_observe`. -/
def goliothSettingsObserveArgs : ReqArgs κ := observeArgs cb userData (ascii ".c")

/-- The arguments of a call. The responses have a callback of their own. -/
def ServiceCall.args : ServiceCall (List UInt8) → ReqArgs κ
  | .lightdbGet path format => goliothLightdbGetArgs cb userData path format
  | .lightdbSet path format data => goliothLightdbSetArgs cb userData path format data
  | .lightdbObserve path format => goliothLightdbObserveArgs cb userData path format
  | .lightdbDelete path => goliothLightdbDeleteArgs cb userData path
  | .streamPush path format data => goliothStreamPushArgs cb userData path format data
  | .fwObserveDesired => goliothFwObserveDesiredArgs cb userData
  | .fwReportState packageName data => goliothFwReportStateArgs cb userData packageName data
  | .rpcObserve => goliothRpcObserveArgs cb userData
  | .rpcResponse data => Rpc.sendResponseArgs userData data
  | .settingsObserve => goliothSettingsObserveArgs cb userData
  | .settingsResponse data => Settings.sendCoapResponseArgs userData data

end Args

/-! ## What a server reads -/

/-- The values of the options with a number. -/
def valuesOf (number : OptionNum) (options : List Entry) : List (List UInt8) :=
  (options.filter fun option => option.1 = number.value).map Prod.snd

/-- The format an option names. -/
def readFormat (value : List UInt8) : Option ContentFormat :=
  [ContentFormat.appOctetStream, .appJson, .appCbor].find? fun format =>
    format.value = bytesInt value

/-- What a server finds in a message. -/
structure Parts where
  code : UInt8
  observes : Bool
  path : List (List UInt8)
  contentFormat : List (Option ContentFormat)
  accept : List (Option ContentFormat)
  payload : List UInt8
  deriving DecidableEq

def partsOf (message : Message) : Parts where
  code := message.code
  observes := (valuesOf .observe message.options).any fun value => bytesInt value = 0
  path := valuesOf .uriPath message.options
  contentFormat := (valuesOf .contentFormat message.options).map readFormat
  accept := (valuesOf .accept message.options).map readFormat
  payload := message.payload.getD []

/-- A GET for a path that is answered in the format. -/
def readGet (observes : Bool) (path : List (List UInt8)) (format : ContentFormat) :
    Option (ServiceCall (List (List UInt8))) :=
  match path with
  | [] => none
  | service :: rest =>
    if service = ascii ".d" then
      some (if observes then .lightdbObserve rest format else .lightdbGet rest format)
    else if ¬ observes then none
    else if service = ascii ".u" ∧ rest = [ascii "desired"] then some .fwObserveDesired
    else if service = ascii ".rpc" ∧ rest = [] then some .rpcObserve
    else if service = ascii ".c" ∧ rest = [] then some .settingsObserve
    else none

/-- A POST to a path of a payload in the format. -/
def readPost (path : List (List UInt8)) (format : ContentFormat) (payload : List UInt8) :
    Option (ServiceCall (List (List UInt8))) :=
  match path with
  | [] => none
  | service :: rest =>
    if service = ascii ".d" then some (.lightdbSet rest format payload)
    else if service = ascii ".s" then some (.streamPush rest format payload)
    else if service = ascii ".rpc" ∧ rest = [ascii "status"] then some (.rpcResponse payload)
    else if service = ascii ".c" ∧ rest = [ascii "status"] then some (.settingsResponse payload)
    else if service = ascii ".u" ∧ rest.head? = some (ascii "c") then
      some (.fwReportState rest.tail payload)
    else none

/-- A DELETE of a path. -/
def readDelete (path : List (List UInt8)) : Option (ServiceCall (List (List UInt8))) :=
  match path with
  | [] => none
  | service :: rest => if service = ascii ".d" then some (.lightdbDelete rest) else none

/-- The call a message stands for. -/
def readCall (parts : Parts) : Option (ServiceCall (List (List UInt8))) :=
  if parts.code = Method.get.code then
    parts.accept.head?.join.bind fun format => readGet parts.observes parts.path format
  else if parts.code = Method.post.code then
    parts.contentFormat.head?.join.bind fun format => readPost parts.path format parts.payload
  else if parts.code = Method.delete.code then readDelete parts.path
  else none

/-! ## Reading a request back -/

section Reading

variable {args : ReqArgs κ} {cb : Option κ} {userData : ℕ}

@[simp] theorem valuesOf_append (number : OptionNum) (options options' : List Entry) :
    valuesOf number (options ++ options') = valuesOf number options ++ valuesOf number options' := by
  simp [valuesOf]

/-- What a server finds in a request. -/
def argsParts (args : ReqArgs κ) : Parts where
  code := args.method.code
  observes := decide (args.method = .get) && args.flagObserve
  path := args.segments
  contentFormat := if args.method ≠ .get ∧ args.method ≠ .delete
    then [readFormat (intBytes args.format)] else []
  accept := if args.flagNoRespBody then [] else [readFormat (intBytes args.format)]
  payload := args.payload.getD []

/-- Options that all have one number. -/
theorem valuesOf_uniform {own : OptionNum} {options : List Entry}
    (h : ∀ option ∈ options, option.1 = own.value) (number : OptionNum) :
    valuesOf number options =
      if own.value = number.value then options.map Prod.snd else [] := by
  rw [valuesOf]
  split
  · next heq =>
    rw [List.filter_eq_self.mpr]
    intro option hmem
    rw [decide_eq_true_eq, h option hmem, heq]
  · next hne =>
    rw [List.filter_eq_nil_iff.mpr, List.map_nil]
    intro option hmem
    rw [decide_eq_true_eq, h option hmem]
    exact hne

/-- The options of a request by their numbers. -/
theorem valuesOf_options (args : ReqArgs κ) :
    valuesOf .observe args.options = args.observeOption.map Prod.snd ∧
      valuesOf .uriPath args.options = args.segments ∧
      valuesOf .contentFormat args.options = args.contentFormatOption.map Prod.snd ∧
      valuesOf .accept args.options = args.acceptOption.map Prod.snd := by
  have hobserve : ∀ option ∈ args.observeOption, option.1 = OptionNum.observe.value := by
    rw [ReqArgs.observeOption]
    split <;> simp
  have hpath : ∀ option ∈ args.segments.map fun segment => (OptionNum.uriPath.value, segment),
      option.1 = OptionNum.uriPath.value := by simp
  have hcontent : ∀ option ∈ args.contentFormatOption,
      option.1 = OptionNum.contentFormat.value := by
    rw [ReqArgs.contentFormatOption]
    split <;> simp
  have haccept : ∀ option ∈ args.acceptOption, option.1 = OptionNum.accept.value := by
    rw [ReqArgs.acceptOption]
    split <;> simp
  simp only [ReqArgs.options, valuesOf_append, valuesOf_uniform hobserve, valuesOf_uniform hpath,
    valuesOf_uniform hcontent, valuesOf_uniform haccept]
  simp [OptionNum.value]

/-- A server finds in a message what has been asked for. -/
theorem partsOf_eq {message : Message} (hcode : message.code = args.method.code)
    (hoptions : message.options = args.options) (hpayload : message.payload = args.payload) :
    partsOf message = argsParts args := by
  obtain ⟨hobserve, hpath, hcontent, haccept⟩ := valuesOf_options args
  rw [partsOf, argsParts, hcode, hoptions, hpayload, hobserve, hpath, hcontent, haccept]
  have hobserves : ((args.observeOption.map Prod.snd).any fun value => bytesInt value = 0) =
      (decide (args.method = .get) && args.flagObserve) := by
    rw [ReqArgs.observeOption]
    by_cases hget : args.method = .get <;> cases args.flagObserve <;>
      simp [hget, bytesInt_intBytes]
  have hformat : (args.contentFormatOption.map Prod.snd).map readFormat =
      if args.method ≠ .get ∧ args.method ≠ .delete
        then [readFormat (intBytes args.format)] else [] := by
    rw [ReqArgs.contentFormatOption]
    split <;> rfl
  have haccepts : (args.acceptOption.map Prod.snd).map readFormat =
      if args.flagNoRespBody then [] else [readFormat (intBytes args.format)] := by
    rw [ReqArgs.acceptOption]
    cases args.flagNoRespBody <;> rfl
  rw [hobserves, hformat, haccepts]

theorem readFormat_value (format : ContentFormat) :
    readFormat (intBytes format.value) = some format := by
  cases format <;> decide

theorem payload_getD {args : ReqArgs κ} {data : List UInt8} (hdata : args.data = some data)
    (hlen : args.dataLen = data.length) : args.payload.getD [] = data := by
  rw [ReqArgs.payload, hdata, hlen]
  dsimp only
  split
  · next hzero => exact (List.length_eq_zero_iff.mp hzero).symm
  · exact List.take_length

/-- The segments of a service's own path and of the path below it. -/
theorem segments_cons {args : ReqArgs κ} {own : List UInt8} {paths : List (List UInt8)}
    (hpathv : args.pathv = own :: paths) :
    args.segments = uriSegments own ++ paths.flatMap uriSegments := by
  rw [ReqArgs.segments, hpathv, List.flatMap_cons]

/-- A request to LightDB. -/
theorem argsParts_lightdb {method : Method} {path : List UInt8} {format : ContentFormat}
    {data : Option (List UInt8)} {flagObserve flagNoRespBody : Bool} :
    argsParts (coapReqLightdbArgs cb userData method path format data flagObserve
        flagNoRespBody) =
      { code := method.code
        observes := decide (method = .get) && flagObserve
        path := ascii ".d" :: uriSegments path
        contentFormat := if method ≠ .get ∧ method ≠ .delete then [some format] else []
        accept := if flagNoRespBody then [] else [some format]
        payload := data.getD [] } := by
  have hpath : (coapReqLightdbArgs cb userData method path format data flagObserve
      flagNoRespBody).segments = ascii ".d" :: uriSegments path := by
    have hown : uriSegments (ascii ".d") = [ascii ".d"] := by decide
    rw [ReqArgs.segments, coapReqLightdbArgs, List.flatMap_cons, List.flatMap_singleton, hown]
    rfl
  have hpayload : (coapReqLightdbArgs cb userData method path format data flagObserve
      flagNoRespBody).payload.getD [] = data.getD [] := by
    cases data with
    | none => rfl
    | some data => exact payload_getD rfl rfl
  rw [argsParts, hpath, hpayload]
  dsimp only [coapReqLightdbArgs]
  rw [readFormat_value]
  rfl

/-- A POST to a path of a service. -/
theorem readCall_post {args : ReqArgs κ} {own data : List UInt8} {paths : List (List UInt8)}
    {format : ContentFormat} (hmethod : args.method = .post) (hpathv : args.pathv = own :: paths)
    (hformat : args.format = format.value) (hdata : args.data = some data)
    (hlen : args.dataLen = data.length) :
    readCall (argsParts args) =
      readPost (uriSegments own ++ paths.flatMap uriSegments) format data := by
  rw [readCall, argsParts, hmethod, hformat, readFormat_value, payload_getD hdata hlen,
    segments_cons hpathv]
  rfl

theorem readCall_observe (own : List UInt8) :
    readCall (argsParts (observeArgs cb userData own)) =
      readGet true (uriSegments own) .appCbor := by
  have hpath : (observeArgs cb userData own).segments = uriSegments own := by
    rw [ReqArgs.segments, observeArgs, List.flatMap_singleton]
  rw [readCall, argsParts, hpath, observeArgs, readFormat_value]
  rfl

/-- **Reading back.** -/
theorem readCall_argsParts (call : ServiceCall (List UInt8)) :
    readCall (argsParts (call.args cb userData)) = some (call.map uriSegments) := by
  cases call with
  | lightdbGet path format =>
    rw [ServiceCall.args, goliothLightdbGetArgs, argsParts_lightdb]
    rfl
  | lightdbSet path format data =>
    rw [ServiceCall.args, goliothLightdbSetArgs, argsParts_lightdb]
    rfl
  | lightdbObserve path format =>
    rw [ServiceCall.args, goliothLightdbObserveArgs, argsParts_lightdb]
    rfl
  | lightdbDelete path =>
    rw [ServiceCall.args, goliothLightdbDeleteArgs, argsParts_lightdb]
    rfl
  | streamPush path format data =>
    have hown : uriSegments (ascii ".s") = [ascii ".s"] := by decide
    rw [ServiceCall.args, readCall_post rfl rfl rfl rfl rfl, hown, List.flatMap_singleton]
    rfl
  | fwObserveDesired => exact (readCall_observe _).trans (by decide)
  | fwReportState packageName data =>
    have hown : uriSegments (ascii ".u/c") = [ascii ".u", ascii "c"] := by decide
    rw [ServiceCall.args, @readCall_post _ _ _ _ _ .appCbor rfl rfl rfl rfl rfl, hown,
      List.flatMap_singleton]
    rfl
  | rpcObserve => exact (readCall_observe _).trans (by decide)
  | rpcResponse data =>
    have hown : uriSegments (ascii ".rpc/status") = [ascii ".rpc", ascii "status"] := by decide
    rw [ServiceCall.args, @readCall_post _ _ _ _ _ .appCbor rfl rfl rfl rfl rfl, hown]
    rfl
  | settingsObserve => exact (readCall_observe _).trans (by decide)
  | settingsResponse data =>
    have hown : uriSegments (ascii ".c/status") = [ascii ".c", ascii "status"] := by decide
    rw [ServiceCall.args, @readCall_post _ _ _ _ _ .appCbor rfl rfl rfl rfl rfl, hown]
    rfl

theorem dataThere_args (call : ServiceCall (List UInt8)) :
    (call.args cb userData).DataThere := by
  cases call with
  | lightdbSet | streamPush | fwReportState | rpcResponse | settingsResponse =>
    exact ReqArgs.dataThere_of_length_eq rfl rfl
  | _ =>
    intro data hdata
    cases hdata

/-- A packet that holds what a call asks for reads back as the call. -/
theorem readCall_of_holds {call : ServiceCall (List UInt8)} {packet : CoapPacket}
    (h : Holds (call.args cb userData) packet) :
    ∃ message, decodeMessage packet.data = some message ∧
      readCall (partsOf message) = some (call.map uriSegments) := by
  obtain ⟨message, hmessage, hcode, hoptions, hpayload⟩ := h.encodedBy
  refine ⟨message, hmessage, ?_⟩
  rw [partsOf_eq hcode hoptions hpayload]
  exact readCall_argsParts call

/-- **Service calls.** Whatever a service asks for, it is turned away only for want of memory or of
a connection, and once it is accepted, what a server reads in the request that is listed is that
call, with the segments of its path. So two calls that differ in anything else are never taken for
one another. -/
theorem readCall_of_accepted {e : Env κ σ} (hz : BuildingContract e.zephyr)
    (call : ServiceCall (List UInt8))
    (hshort : (Submission.reqCb (call.args cb userData)).bufferLen < 2 ^ 16) (c : Client κ σ) :
    (coapReqCb e (call.args cb userData) c).1 = admission e c ∧
      ((coapReqCb e (call.args cb userData) c).1 = 0 →
        ∃ req message, (coapReqCb e (call.args cb userData) c).2.coapReqs = c.coapReqs ++ [req] ∧
          decodeMessage req.request.data = some message ∧
          readCall (partsOf message) = some (call.map uriSegments)) := by
  have htaken := taken_coapReqCb hz (call.args cb userData) (dataThere_args call) hshort c
  refine ⟨htaken.status, fun hok => ?_⟩
  obtain ⟨req, hreqs, hholds⟩ := htaken.listed hok
  obtain ⟨message, hmessage, hread⟩ := readCall_of_holds hholds
  exact ⟨req, message, hreqs, hmessage, hread⟩

/-- Two bytes are pushed to the stream `a/b`. -/
theorem readCall_of_accepted_pushTwo :
    ∃ req message,
      (coapReqCb .quiet (goliothStreamPushArgs none 0 (ascii "/a/b") .appCbor [1, 2])
          connectedClient).2.coapReqs = [req] ∧
        decodeMessage req.request.data = some message ∧
        readCall (partsOf message) = some (.streamPush [ascii "a", ascii "b"] .appCbor [1, 2]) :=
  (readCall_of_accepted (e := .quiet) Requests.Reference.buildingContract
    (.streamPush (ascii "/a/b") .appCbor [1, 2]) (by decide) connectedClient).2 (by decide)

end Reading

end Golioth.Services
