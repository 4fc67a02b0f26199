/-
# Reporting the state of an update

A report of the state of an update is a map with the state and the result, and with those of
the two versions that are given and not empty. It is encoded into 64 bytes on the stack,
and a report that does not fit is not sent. One that is sent says what has been reported
and nothing else.
-/
import Golioth.CS.CborRecord
import Golioth.Services

namespace Golioth.Fw

open CS CS.Cbor
open Golioth.Coap Golioth.Requests Golioth.Services Golioth.Zcbor

variable {E κ σ : Type}

/-! ## The functions -/

/-- `enum golioth_fw_state`. -/
inductive FwState
  | idle
  | downloading
  | downloaded
  | updating
  deriving DecidableEq, Repr

def FwState.value : FwState → ℕ
  | .idle => 0
  | .downloading => 1
  | .downloaded => 2
  | .updating => 3

/-- `enum golioth_dfu_result`. -/
inductive DfuResult
  | initial
  | firmwareUpdatedSuccessfully
  | notEnoughFlashMemory
  | outOfRam
  | connectionLost
  | integrityCheckFailure
  | unsupportedPackageType
  | invalidUri
  | firmwareUpdateFailed
  | unsupportedProtocol
  deriving DecidableEq, Repr

def DfuResult.value : DfuResult → ℕ
  | .initial => 0
  | .firmwareUpdatedSuccessfully => 1
  | .notEnoughFlashMemory => 2
  | .outOfRam => 3
  | .connectionLost => 4
  | .integrityCheckFailure => 5
  | .unsupportedPackageType => 6
  | .invalidUri => 7
  | .firmwareUpdateFailed => 8
  | .unsupportedProtocol => 9

/-- What is reported. A version is what memory holds from its pointer on, or there is none if the
pointer is `NULL`. -/
structure FwReport where
  currentVersion : Option (List UInt8)
  targetVersion : Option (List UInt8)
  state : FwState
  result : DfuResult

/-- The functions of zcbor that encode a report. -/
structure ReportEncode (E : Type) extends ZcborEncode E where
  uint32Put : (value : ℕ) → E → Bool × E

/-- The part of `fw_report_state_encode` that is about a version. -/
def versionEncode (enc : ReportEncode E) (key : List UInt8) (version : Option (List UInt8))
    (zse : E) : Except ℤ E :=
  match version with
  | none => .ok zse
  | some version =>
    if version.headD 0 ≠ 0 then do
      let zse ← encoding (enc.tstrEncode key zse)
      encoding (enc.tstrEncode (cString version) zse)
    else .ok zse

/-- `fw_report_state_encode`. -/
def fwReportStateEncode (enc : ReportEncode E) (report : FwReport) (zse : E) : Except ℤ E := do
  let zse ← encoding (enc.mapStartEncode 1 zse)
  let zse ← encoding (enc.tstrEncode (ascii "s") zse)
  let zse ← encoding (enc.uint32Put report.state.value zse)
  let zse ← encoding (enc.tstrEncode (ascii "r") zse)
  let zse ← encoding (enc.uint32Put report.result.value zse)
  let zse ← versionEncode enc (ascii "v") report.currentVersion zse
  let zse ← versionEncode enc (ascii "t") report.targetVersion zse
  encoding (enc.mapEndEncode 1 zse)

/-- The length of `encode_buf`. -/
def encodeBufLen : ℕ := 64

/-- `golioth_fw_report_state_cb`, and `golioth_fw_report_state` up to where it waits, whose
callback is the one of `golioth_coap_req_sync`. -/
def goliothFwReportStateCb (e : Env κ σ) (enc : ReportEncode E) (packageName : List UInt8)
    (report : FwReport) (cb : Option κ) (userData : ℕ) (c : Client κ σ) : ℤ × Client κ σ :=
  match fwReportStateEncode enc report (enc.newEncodeState encodeBufLen 1) with
  | .error err => (err, c)
  | .ok zse =>
    coapReqCb e (goliothFwReportStateArgs cb userData packageName (enc.encoded zse)) c

/-! ## What a report says -/

/-- What is reported of a version: nothing, if there is none or it is empty. -/
def shownVersion : Option (List UInt8) → List UInt8
  | none => []
  | some version => cString version

def versionEntries (key : List UInt8) (version : Option (List UInt8)) : List RecordEntry :=
  if shownVersion version = [] then [] else [(key, .text (shownVersion version))]

/-- The entries of a report. -/
def FwReport.entries (report : FwReport) : List RecordEntry :=
  [(ascii "s", .integer report.state.value), (ascii "r", .integer report.result.value)] ++
    (versionEntries (ascii "v") report.currentVersion ++
      versionEntries (ascii "t") report.targetVersion)

/-- Two reports show the same. -/
structure FwReport.Alike (report report' : FwReport) : Prop where
  state : report.state = report'.state
  result : report.result = report'.result
  currentVersion : shownVersion report.currentVersion = shownVersion report'.currentVersion
  targetVersion : shownVersion report.targetVersion = shownVersion report'.targetVersion

section Shown

variable {report report' : FwReport} {version version' : Option (List UInt8)}

theorem FwState.value_injective : Function.Injective FwState.value := by
  intro state state' h
  cases state <;> cases state' <;> first | rfl | cases h

theorem DfuResult.value_injective : Function.Injective DfuResult.value := by
  intro result result' h
  cases result <;> cases result' <;> first | rfl | cases h

theorem mem_versionEntries {key key' : List UInt8} {leaf : Leaf} :
    (key', leaf) ∈ versionEntries key version ↔
      key' = key ∧ leaf = .text (shownVersion version) ∧ shownVersion version ≠ [] := by
  rw [versionEntries]
  split
  · next hnil => simp [hnil]
  · next hne => simp [hne]

theorem mem_entries_state {value : ℤ} :
    (ascii "s", .integer value) ∈ report.entries ↔ value = report.state.value := by
  have hother : ascii "s" ≠ ascii "r" := by decide
  simp [FwReport.entries, mem_versionEntries, hother]

theorem mem_entries_result {value : ℤ} :
    (ascii "r", .integer value) ∈ report.entries ↔ value = report.result.value := by
  have hother : ascii "r" ≠ ascii "s" := by decide
  simp [FwReport.entries, mem_versionEntries, hother]

theorem mem_entries_currentVersion {text : List UInt8} :
    (ascii "v", .text text) ∈ report.entries ↔
      text = shownVersion report.currentVersion ∧ shownVersion report.currentVersion ≠ [] := by
  have hother : ascii "v" ≠ ascii "t" := by decide
  simp [FwReport.entries, mem_versionEntries, hother]

theorem mem_entries_targetVersion {text : List UInt8} :
    (ascii "t", .text text) ∈ report.entries ↔
      text = shownVersion report.targetVersion ∧ shownVersion report.targetVersion ≠ [] := by
  have hother : ascii "t" ≠ ascii "v" := by decide
  simp [FwReport.entries, mem_versionEntries, hother]

/-- Texts that are shown by the same texts are the same. -/
theorem eq_of_shows {text text' : List UInt8}
    (h : ∀ shown, (shown = text ∧ text ≠ []) ↔ (shown = text' ∧ text' ≠ [])) : text = text' := by
  by_cases hnil : text = []
  · by_contra hne
    have hshown := (h text').mpr ⟨rfl, fun hnil' => hne (hnil.trans hnil'.symm)⟩
    exact hshown.2 hnil
  · exact ((h text).mp ⟨rfl, hnil⟩).1

/-- Reports with the same entries show the same. -/
theorem alike_of_perm (h : report.entries.Perm report'.entries) : report.Alike report' where
  state := by
    have hmem := h.mem_iff.mp (mem_entries_state.mpr rfl)
    exact FwState.value_injective (Int.natCast_inj.mp (mem_entries_state.mp hmem))
  result := by
    have hmem := h.mem_iff.mp (mem_entries_result.mpr rfl)
    exact DfuResult.value_injective (Int.natCast_inj.mp (mem_entries_result.mp hmem))
  currentVersion := by
    apply eq_of_shows
    intro shown
    rw [← mem_entries_currentVersion, ← mem_entries_currentVersion]
    exact h.mem_iff
  targetVersion := by
    apply eq_of_shows
    intro shown
    rw [← mem_entries_targetVersion, ← mem_entries_targetVersion]
    exact h.mem_iff

end Shown

/-! ## What is encoded -/

/-- The functions of zcbor do what is documented of them, the one for 32 bits like the others. -/
structure ReportWrites (enc : ReportEncode E) (w : Encoding E) : Prop
    extends Writes enc.toZcborEncode w where
  uint32 : ∀ value < 2 ^ 32, Puts w (enc.uint32Put value) (w.integer value)

def leafBytes (w : Encoding E) : Leaf → List UInt8
  | .text content => w.text content
  | .integer value => w.integer value

/-- What is written for entries. -/
def recordBytes (w : Encoding E) (entries : List RecordEntry) : List UInt8 :=
  entries.flatMap fun entry => w.text entry.1 ++ leafBytes w entry.2

/-- The bytes of a report. -/
def reportBytes (w : Encoding E) (report : FwReport) : List UInt8 :=
  mapHead ++ (recordBytes w report.entries ++ [breakCode])

section Encoded

variable {enc : ReportEncode E} {w : Encoding E} {report : FwReport}

theorem emits_ok : Emits w (fun zse => .ok zse) [] where
  fits {zse written room} hat _ := ⟨zse, rfl, by simpa using hat⟩
  full _ hlt := absurd hlt (Nat.not_lt_zero _)

/-- A version is not empty exactly if its first byte is not the one that ends a text. -/
theorem headD_ne_zero_iff (version : List UInt8) : version.headD 0 ≠ 0 ↔ cString version ≠ [] := by
  cases version with
  | nil => simp [cString]
  | cons byte version => by_cases h : byte = 0 <;> simp [cString, h]

theorem emits_versionEncode (henc : ReportWrites enc w) (key : List UInt8)
    (version : Option (List UInt8)) :
    Emits w (versionEncode enc key version) (recordBytes w (versionEntries key version)) := by
  cases version with
  | none => exact emits_ok
  | some version =>
    by_cases hempty : version.headD 0 ≠ 0
    · have hshown : shownVersion (some version) ≠ [] := (headD_ne_zero_iff version).mp hempty
      have hbytes : recordBytes w (versionEntries key (some version)) =
          w.text key ++ w.text (cString version) := by
        rw [versionEntries, if_neg hshown, recordBytes, List.flatMap_singleton]
        rfl
      have hrun : versionEncode enc key (some version) = fun zse =>
          encoding (enc.tstrEncode key zse) >>= fun zse =>
            encoding (enc.tstrEncode (cString version) zse) := by
        funext zse
        exact if_pos hempty
      rw [hbytes, hrun]
      exact (henc.tstr key).emits.bind (henc.tstr (cString version)).emits
    · have hshown : shownVersion (some version) = [] :=
        not_not.mp (mt (headD_ne_zero_iff version).mpr hempty)
      have hrun : versionEncode enc key (some version) = fun zse => .ok zse := by
        funext zse
        exact if_neg hempty
      rw [versionEntries, if_pos hshown, hrun]
      exact emits_ok

/-- What `fw_report_state_encode` writes. -/
theorem emits_fwReportStateEncode (henc : ReportWrites enc w) (report : FwReport) :
    Emits w (fwReportStateEncode enc report) (reportBytes w report) := by
  have hstate : report.state.value < 2 ^ 32 := by cases report.state <;> decide
  have hresult : report.result.value < 2 ^ 32 := by cases report.result <;> decide
  have hparts := (henc.mapStart 1).emits.bind <|
    (henc.tstr (ascii "s")).emits.bind <| (henc.uint32 _ hstate).emits.bind <|
    (henc.tstr (ascii "r")).emits.bind <| (henc.uint32 _ hresult).emits.bind <|
    (emits_versionEncode henc (ascii "v") report.currentVersion).bind <|
    (emits_versionEncode henc (ascii "t") report.targetVersion).bind (henc.mapEnd 1).emits
  have hbytes : reportBytes w report = mapHead ++ (w.text (ascii "s") ++
      (w.integer report.state.value ++ (w.text (ascii "r") ++ (w.integer report.result.value ++
        (recordBytes w (versionEntries (ascii "v") report.currentVersion) ++
          (recordBytes w (versionEntries (ascii "t") report.targetVersion) ++ [breakCode])))))) := by
    simp [reportBytes, FwReport.entries, recordBytes, leafBytes]
  rw [hbytes]
  exact hparts

/-- The versions of a report are texts in memory. -/
structure FwReport.InMemory (report : FwReport) : Prop where
  currentVersion : (shownVersion report.currentVersion).length < sizeModulus
  targetVersion : (shownVersion report.targetVersion).length < sizeModulus

/-- A key and a leaf can be written. -/
def Writable (entry : RecordEntry) : Prop :=
  entry.1.length < sizeModulus ∧
    match entry.2 with
    | .text content => content.length < sizeModulus
    | .integer value => -2 ^ 63 ≤ value ∧ value < 2 ^ 64

theorem recordBytes_of_writable (henc : Writes enc.toZcborEncode w) {entries : List RecordEntry}
    (h : ∀ entry ∈ entries, Writable entry) :
    RecordBytes w.profile entries (recordBytes w entries) := by
  induction entries with
  | nil => exact .nil
  | cons entry entries ih =>
    obtain ⟨key, leaf⟩ := entry
    obtain ⟨hkey, hleaf⟩ := h (key, leaf) List.mem_cons_self
    have hvalue : leaf.Item w.profile (leafBytes w leaf) := by
      cases leaf with
      | text content => exact henc.text content hleaf
      | integer value => exact henc.integer value hleaf.1 hleaf.2
    have hrest := ih fun entry hmem => h entry (List.mem_cons_of_mem _ hmem)
    rw [recordBytes, List.flatMap_cons, List.append_assoc]
    exact .cons (henc.text key hkey) hvalue hrest

theorem writable_entries (hmemory : report.InMemory) :
    ∀ entry ∈ report.entries, Writable entry := by
  have hstate : report.state.value ≤ 3 := by cases report.state <;> decide
  have hresult : report.result.value ≤ 9 := by cases report.result <;> decide
  have hversion (key : List UInt8) (hkey : key.length < sizeModulus)
      (version : Option (List UInt8)) (hlen : (shownVersion version).length < sizeModulus) :
      ∀ entry ∈ versionEntries key version, Writable entry := by
    rintro ⟨key', leaf⟩ hmem
    obtain ⟨rfl, rfl, -⟩ := mem_versionEntries.mp hmem
    exact ⟨hkey, hlen⟩
  intro entry hmem
  rw [FwReport.entries, List.mem_append, List.mem_append] at hmem
  rcases hmem with hmem | hmem | hmem
  · simp only [List.mem_cons, List.not_mem_nil, or_false] at hmem
    rcases hmem with rfl | rfl
    · have hkey : (ascii "s").length < sizeModulus := by decide
      exact ⟨hkey, show -2 ^ 63 ≤ (report.state.value : ℤ) ∧ _ < 2 ^ 64 by omega⟩
    · have hkey : (ascii "r").length < sizeModulus := by decide
      exact ⟨hkey, show -2 ^ 63 ≤ (report.result.value : ℤ) ∧ _ < 2 ^ 64 by omega⟩
  · exact hversion _ (by decide) _ hmemory.currentVersion _ hmem
  · exact hversion _ (by decide) _ hmemory.targetVersion _ hmem

theorem isRecord_reportBytes (henc : ReportWrites enc w) (hmemory : report.InMemory) :
    IsRecord w.profile report.entries (reportBytes w report) :=
  ⟨.indefinite, report.entries, mapHead, recordBytes w report.entries,
    opens_mapHead w.profile _, .refl _,
    recordBytes_of_writable henc.toWrites (writable_entries hmemory), rfl⟩

end Encoded

/-! ## What is sent -/

/-- A payload is a map that says the report and no other one. -/
structure SaysReport (profile : Profile) (report : FwReport) (payload : List UInt8) : Prop where
  record : IsRecord profile report.entries payload
  alike : ∀ (profile' : Profile) (report' : FwReport),
    IsRecord profile' report'.entries payload → report'.Alike report

/-- **Reports.** A report that does not fit in 64 bytes is turned away, and nothing has been done.
One that fits is turned away only for want of memory or of a connection, and what is listed
otherwise is a request that says the report and no other one. -/
theorem goliothFwReportStateCb_reports {e : Env κ σ} (hz : BuildingContract e.zephyr)
    {enc : ReportEncode E} {w : Encoding E} (henc : ReportWrites enc w) (report : FwReport)
    (hmemory : report.InMemory) (packageName : List UInt8)
    (hpackage : coapPathvEstimateAllocLen [ascii ".u/c", packageName] < 2 ^ 15) (cb : Option κ)
    (userData : ℕ) (c : Client κ σ) :
    (encodeBufLen < (reportBytes w report).length →
      goliothFwReportStateCb e enc packageName report cb userData c = (-Errno.enomem, c)) ∧
    ((reportBytes w report).length ≤ encodeBufLen →
      (goliothFwReportStateCb e enc packageName report cb userData c).1 = admission e c ∧
      ((goliothFwReportStateCb e enc packageName report cb userData c).1 = 0 →
        ∃ req message payload,
          (goliothFwReportStateCb e enc packageName report cb userData c).2.coapReqs =
            c.coapReqs ++ [req] ∧
          decodeMessage req.request.data = some message ∧
          readCall (partsOf message) = some (.fwReportState (uriSegments packageName) payload) ∧
          SaysReport w.profile report payload)) := by
  have hnew := henc.newEncodeState encodeBufLen 1
  have hemits := emits_fwReportStateEncode henc report
  refine ⟨fun hlong => ?_, fun hfits => ?_⟩
  · rw [goliothFwReportStateCb, hemits.full hnew hlong]
  · obtain ⟨zse, hencode, hat⟩ := hemits.fits hnew hfits
    have hencoded : enc.encoded zse = reportBytes w report := henc.encoded hat
    have hrun : goliothFwReportStateCb e enc packageName report cb userData c = coapReqCb e
        ((ServiceCall.fwReportState packageName (reportBytes w report)).args cb userData) c := by
      rw [goliothFwReportStateCb, hencode]
      dsimp only
      rw [hencoded]
      rfl
    have hshort : (Submission.reqCb ((ServiceCall.fwReportState packageName
        (reportBytes w report)).args cb userData)).bufferLen < 2 ^ 16 := by
      have hbuffer : (Submission.reqCb ((ServiceCall.fwReportState packageName
          (reportBytes w report)).args cb userData)).bufferLen =
          128 + coapPathvEstimateAllocLen [ascii ".u/c", packageName] +
            (reportBytes w report).length := rfl
      have hlen : (reportBytes w report).length ≤ 64 := hfits
      omega
    rw [hrun]
    have htaken := taken_coapReqCb hz _ (dataThere_args _) hshort c
    refine ⟨htaken.status, fun hok => ?_⟩
    obtain ⟨req, hreqs, hholds⟩ := htaken.listed hok
    obtain ⟨message, hmessage, hread⟩ := readCall_of_holds hholds
    have hrecord := isRecord_reportBytes henc hmemory
    exact ⟨req, message, reportBytes w report, hreqs, hmessage, hread, hrecord,
      fun profile' report' hrecord' => alike_of_perm (hrecord'.perm hrecord)⟩

namespace Reference

/-- The encoder of reports. -/
def reportEncoder : ReportEncode Zcbor.Reference.Output :=
  { Zcbor.Reference.encoder with
    uint32Put := fun value => Zcbor.Reference.put (Zcbor.Reference.headerOf 0 value) }

theorem reportWrites : ReportWrites reportEncoder Zcbor.Reference.encoding where
  toWrites := Zcbor.Reference.writes
  uint32 value hvalue := Zcbor.Reference.writes.uint64 value (by omega)

end Reference

/-- The version `1.0` is being replaced with `2.0`. -/
def downloadingReport : FwReport where
  currentVersion := some (ascii "1.0")
  targetVersion := some (ascii "2.0")
  state := .downloading
  result := .initial

theorem goliothFwReportStateCb_reports_downloading :
    ∃ req message payload,
      (goliothFwReportStateCb .quiet Reference.reportEncoder (ascii "main") downloadingReport none 0
          connectedClient).2.coapReqs = [req] ∧
        decodeMessage req.request.data = some message ∧
        readCall (partsOf message) = some (.fwReportState [ascii "main"] payload) ∧
        SaysReport Zcbor.Reference.profile downloadingReport payload :=
  ((goliothFwReportStateCb_reports (e := .quiet) Requests.Reference.buildingContract
    Reference.reportWrites downloadingReport ⟨by decide, by decide⟩ (ascii "main") (by decide) none
    0 connectedClient).2 (by decide)).2 (by decide)

/-- A target version of 60 bytes does not fit. -/
example : (goliothFwReportStateCb .quiet Reference.reportEncoder (ascii "main")
    { downloadingReport with targetVersion := some (List.replicate 60 97) } none 0
    connectedClient).1 = -Errno.enomem := by decide

end Golioth.Fw
