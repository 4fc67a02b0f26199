/-
# Settings

`settings.c`: the cloud sends a map of settings and its version. Each setting is
handed to the callback of the application; those that it does not accept, and
those whose value has a type it cannot have, are listed in the response.
-/
import Golioth.Rpc

namespace Golioth.Settings

open Golioth.Zcbor Golioth.Requests Golioth.Rpc

variable {S E α : Type}

/-- `GOLIOTH_SETTINGS_MAX_NAME_LEN`. -/
def maxNameLen : ℕ := 63

/-- `GOLIOTH_SETTINGS_SUCCESS`. -/
def statusSuccess : ℤ := 0

/-- `GOLIOTH_SETTINGS_VALUE_FORMAT_NOT_VALID`. -/
def statusValueFormatNotValid : ℤ := 3

/-- `struct golioth_settings_value`. -/
inductive SettingsValue
  | bool (value : Bool)
  | float (value : Float32)
  | string (text : List UInt8)
  | int64 (value : ℤ)

/-- The callback of the application, over its own state. -/
abbrev SettingsCb (α : Type) := (key : List UInt8) → SettingsValue → α → ℤ × α

/-- `struct settings_response`, without the buffer and the client. -/
structure SettingsResponse (E : Type) where
  zse : E
  numErrors : ℕ

/-- `response_init`. -/
def responseInit (enc : ZcborEncode E) (maxResponseLen : ℕ) : SettingsResponse E where
  zse := (enc.mapStartEncode sizeMax (enc.newEncodeState maxResponseLen 1)).2
  numErrors := 0

/-- `add_error_to_response`, which does not look at what the encoder returns. -/
def addErrorToResponse (enc : ZcborEncode E) (key : List UInt8) (code : ℤ)
    (response : SettingsResponse E) : SettingsResponse E :=
  let zse := response.zse
  let zse :=
    -- the first error starts the list
    if response.numErrors = 0 then
      (enc.listStartEncode sizeMax (enc.tstrEncode (ascii "errors") zse).2).2
    else zse
  let zse := (enc.mapStartEncode 2 zse).2
  let zse := (enc.tstrEncode key (enc.tstrEncode (ascii "setting_key") zse).2).2
  let zse := (enc.int64Put code (enc.tstrEncode (ascii "error_code") zse).2).2
  let zse := (enc.mapEndEncode 2 zse).2
  { zse := zse, numErrors := response.numErrors + 1 }

/-- The payload `finalize_and_send_response` sends to `.c/status`, or its error. -/
def finalizeResponse (enc : ZcborEncode E) (response : SettingsResponse E) (version : ℤ) :
    Except ℤ (List UInt8) := do
  let zse ←
    if 0 < response.numErrors then encoding (enc.listEndEncode sizeMax response.zse)
    else .ok response.zse
  let zse ← encoding (enc.tstrEncode (ascii "version") zse)
  let zse ← encoding (enc.int64Put version zse)
  let zse ← encoding (enc.mapEndEncode 1 zse)
  return enc.encoded zse

/-- The variables of `on_setting` that the entries of its table decode into, and the state of
the application. `settings` records that the settings have been decoded. -/
structure SettingsVars (E α : Type) where
  response : SettingsResponse E
  app : α
  settings : Bool
  version : Local ℤ

/-- The value that belongs to a label, by the major type of its header; `none` for a value of a
type that no setting has. -/
def settingsValueDecode (lib : ZcborDecode S) (header : UInt8) (zsd : S) :
    Option SettingsValue × S :=
  match majorType header with
  | .tstr =>
    match lib.tstrDecode zsd with
    | (some str, zsd) => (some (.string (lib.text zsd str)), zsd)
    | (none, zsd) => (none, zsd)
  | .pint | .nint =>
    match lib.int64Decode zsd with
    | (some value, zsd) => (some (.int64 value), zsd)
    | (none, zsd) => (none, zsd)
  | .simple =>
    match lib.floatDecode zsd with
    | (some value, zsd) => (some (.float value.toFloat32), zsd)
    | (none, zsd) =>
      -- a simple value that is no float may be a boolean
      match lib.boolDecode zsd with
      | (some value, zsd) => (some (.bool value), zsd)
      | (none, zsd) => (none, zsd)
  | _ => (none, zsd)

/-- The key that is made of a label: at most 63 of its bytes, read as a C string. -/
def settingsKey (label : List UInt8) : List UInt8 := cString (label.take maxNameLen)

/-- Hand a setting to the application, and add an error to the response where it is not
accepted. -/
def applySetting (enc : ZcborEncode E) (cb : SettingsCb α) (key : List UInt8)
    (value : SettingsValue) (vars : SettingsVars E α) : SettingsVars E α :=
  let (status, app) := cb key value vars.app
  { vars with
    app := app
    response :=
      if status ≠ statusSuccess then addErrorToResponse enc key status vars.response
      else vars.response }

/-- A setting after its label: its value is decoded and handed over, or else skipped. -/
def settingDecode (lib : ZcborDecode S) (enc : ZcborEncode E) (cb : SettingsCb α)
    (label : List UInt8) (w : Cursor S (SettingsVars E α)) : Walked S (SettingsVars E α) :=
  let key := settingsKey label
  let (header, w) := readHeader lib (w.record (.value w.zsd))
  match settingsValueDecode lib header w.zsd with
  | (some value, zsd) =>
    (some 0, { w with zsd := zsd, out := applySetting enc cb key value w.out })
  | (none, zsd) =>
    let response := addErrorToResponse enc key statusValueFormatNotValid w.out.response
    okOrReturn (-Errno.ebadmsg) { w with out := { w.out with response := response } }
      (lib.anySkip zsd) fun w => (some 0, w)

/-- The loop of `settings_decode`, and what follows it. -/
def decodeSettings (lib : ZcborDecode S) (enc : ZcborEncode E) (cb : SettingsCb α) :
    (fuel : ℕ) → Cursor S (SettingsVars E α) → Walked S (SettingsVars E α)
  | 0, w => (none, w)
  | fuel + 1, w =>
    match zcborListOrMapEnd lib (w.record (.element w.zsd)) with
    | (true, w) =>
      okOrReturn (-Errno.ebadmsg) w (lib.mapEndDecode w.zsd) fun w =>
        (some 0, { w with out := { w.out with settings := true } })
    | (false, w) =>
      match lib.tstrDecode w.zsd with
      | (none, zsd) => (some (-Errno.ebadmsg), { w with zsd := zsd })
      | (some label, zsd) =>
        orReturn (settingDecode lib enc cb (lib.text zsd label) { w with zsd := zsd }) fun w =>
          decodeSettings lib enc cb fuel w

/-- `settings_decode`. -/
def settingsDecode (lib : ZcborDecode S) (enc : ZcborEncode E) (cb : SettingsCb α) (fuel : ℕ)
    (w : Cursor S (SettingsVars E α)) : Walked S (SettingsVars E α) :=
  match lib.nilExpect w.zsd with
  -- no settings are set
  | (true, zsd) => (some (-Errno.enoent), { w with zsd := zsd })
  | (false, zsd) =>
    okOrReturn (-Errno.ebadmsg) { w with zsd := zsd } (lib.mapStartDecode zsd) fun w =>
      decodeSettings lib enc cb fuel w

/-- The table of `on_setting`. -/
def settingsEntries (lib : ZcborDecode S) (enc : ZcborEncode E) (cb : SettingsCb α) (fuel : ℕ) :
    List (ZcborMapEntry S (SettingsVars E α)) :=
  [{ key := .tstr (ascii "settings"), decode := settingsDecode lib enc cb fuel },
    { key := .tstr (ascii "version")
      decode := zcborMapInt64Decode lib fun value vars =>
        { vars with version := { value := value, decoded := true } } }]

/-- The variables of `on_setting` before the request is decoded. -/
def settingsVars (enc : ZcborEncode E) (maxResponseLen : ℕ) (app : α) (version : ℤ) :
    SettingsVars E α where
  response := responseInit enc maxResponseLen
  app := app
  settings := false
  version := { value := version }

/-- The request of `on_setting` is decoded. -/
def decodeSetting (lib : ZcborDecode S) (enc : ZcborEncode E) (cb : SettingsCb α) (fuel : ℕ)
    (data : List UInt8) (vars : SettingsVars E α) :
    List (Visit S) × Walked S (SettingsVars E α) :=
  zcborMapDecodeVisits lib fuel (settingsEntries lib enc cb fuel)
    { zsd := lib.newDecodeState data 1 2, out := vars }

/-- `on_setting`, for a version that has not been assigned to, and the application as it leaves
it. -/
def onSetting (lib : ZcborDecode S) (enc : ZcborEncode E) (cb : SettingsCb α)
    (maxResponseLen fuel : ℕ) (version : ℤ) (rsp : Rsp) (app : α) : Option (Replied × α) :=
  if rsp.err ≠ 0 then some (.returned rsp.err, app)
  -- the response to the observation itself
  else if isOk rsp.data then some (.returned 0, app)
  else
    match (decodeSetting lib enc cb fuel rsp.data
      (settingsVars enc maxResponseLen app version)).2 with
    | (none, _) => none
    | (some err, w) =>
      -- no settings are set, and nothing is sent
      some (if err = -Errno.enoent then .returned 0
        else if err ≠ 0 then .returned err
        else .ofResponse (finalizeResponse enc w.out.response w.out.version.value), w.out.app)

end Golioth.Settings
