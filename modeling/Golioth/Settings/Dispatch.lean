/-
# Settings are dispatched one by one

`settings_decode` walks through the map of the settings. A value of a type that a
setting can have is handed to the application, and any other value is skipped and
listed in the response, so that the walk comes to the next label in either case.
-/
import Golioth.Settings
import Golioth.Zcbor.Conformance
import Golioth.Zcbor.Walk
import Mathlib.Data.List.TakeWhile

namespace Golioth.Settings

open CS CS.Cbor Golioth.Zcbor

variable {S E α : Type}

/-! ## Values -/

/-- The item is the value of a setting. -/
inductive Means (d : Decoding S) : List UInt8 → SettingsValue → Prop
  | string {text item : List UInt8} (hitem : TextItem d.profile text item) :
      Means d item (.string text)
  | int64 {value : ℤ} {item : List UInt8} (hitem : IntegerItem value item)
      (hlow : -2 ^ 63 ≤ value) (hhigh : value < 2 ^ 63) : Means d item (.int64 value)
  | float {item : List UInt8} (hitem : FloatItem item) :
      Means d item (.float (d.float item).toFloat32)
  | bool {value : Bool} {item : List UInt8} (hitem : BoolItem value item) :
      Means d item (.bool value)

section Values

variable {lib : ZcborDecode S} {d : Decoding S} {zsd : S} {p : Position} {byte : UInt8}
  {item rest following : List UInt8} {value : SettingsValue}

/-- What begins with the header of a number or a truth value does not begin with another one. -/
theorem not_float_of_bool {value : Bool} (hbool : BoolItem value item)
    (hitem : WellFormed d.profile item) {item' rest' : List UInt8}
    (heq : item ++ rest = item' ++ rest') : ¬ FloatItem item' := by
  rintro ⟨argument, hhead, hlen⟩
  have hsame := hitem.eq_head hhead (.inr rfl) heq
  rw [← hsame, hbool] at hlen
  simp at hlen

/-- A value that a setting can have is decoded. -/
theorem settingsValueDecode_takes (hlib : Conforms lib d) (hat : d.At zsd p) (hnext : p.HasNext)
    (hpayload : p.payload = item ++ rest) (hbytes : item = byte :: following)
    (hitem : WellFormed d.profile item) (hmeans : Means d item value) :
    ∃ zsd', settingsValueDecode lib byte zsd = (some value, zsd') ∧ d.At zsd' (p.next rest) := by
  have hfirst : byte :: following = item ++ [] := by rw [hbytes, List.append_nil]
  cases hmeans with
  | @string text _ htext =>
    obtain ⟨str, zsd', hdecode, hstr, hat'⟩ := hlib.tstr.takes hat hnext hpayload htext
    obtain ⟨head, hhead, rfl⟩ := htext
    have hmajor : majorType byte = .tstr := majorType_eq_iff.mpr
      (hhead.1.initial_of_append (hfirst.trans (List.append_assoc _ _ _))).1
    refine ⟨zsd', ?_, hat'⟩
    rw [settingsValueDecode, hmajor]
    simp only [hdecode]
    rw [hlib.text_eq hat', ← hstr]
    rfl
  | @int64 value _ hint hlow hhigh =>
    obtain ⟨raw, zsd', hdecode, hraw, hat'⟩ := hlib.int64.takes hat hnext hpayload ⟨hint, hlow, hhigh⟩
    have hraw : raw = value := hraw
    have hmajor : majorType byte = .pint ∨ majorType byte = .nint := by
      obtain ⟨n, ⟨hhead, -⟩ | ⟨hhead, -⟩⟩ := hint
      · exact .inl (majorType_eq_iff.mpr (hhead.initial_of_append hfirst).1)
      · exact .inr (majorType_eq_iff.mpr (hhead.initial_of_append hfirst).1)
    refine ⟨zsd', ?_, hat'⟩
    rw [settingsValueDecode]
    rcases hmajor with hmajor | hmajor <;> rw [hmajor] <;> simp only [hdecode, hraw]
  | float hfloat =>
    obtain ⟨raw, zsd', hdecode, hraw, hat'⟩ := hlib.float.takes hat hnext hpayload ⟨hfloat, rfl⟩
    have hraw : raw = d.float item := hraw
    obtain ⟨argument, hhead, -⟩ := hfloat
    have hmajor : majorType byte = .simple :=
      majorType_eq_iff.mpr (hhead.initial_of_append hfirst).1
    refine ⟨zsd', ?_, hat'⟩
    rw [settingsValueDecode, hmajor]
    simp only [hdecode, hraw]
  | @bool value _ hbool =>
    obtain ⟨zsd₁, hfloat, hat₁⟩ := hlib.float.refuses hat fun item' rest' _ heq hread =>
      not_float_of_bool hbool hitem (hpayload.symm.trans heq) hread.1
    obtain ⟨raw, zsd', hdecode, hraw, hat'⟩ := hlib.bool.takes hat₁ hnext hpayload hbool
    have hraw : raw = value := hraw
    have hmajor : majorType byte = .simple := by
      have hbyte : byte = if value then 0xf5 else 0xf4 := (List.cons.inj (hbytes.symm.trans hbool)).1
      rw [hbyte]
      cases value <;> decide
    refine ⟨zsd', ?_, hat'⟩
    rw [settingsValueDecode, hmajor]
    simp only [hfloat, hdecode, hraw]

/-- Any other value is left where it is. -/
theorem settingsValueDecode_refuses (byte : UInt8) (hlib : Conforms lib d) (hat : d.At zsd p)
    (hpayload : p.payload = item ++ rest) (hitem : WellFormed d.profile item)
    (hnone : ∀ value, ¬ Means d item value) :
    ∃ zsd', settingsValueDecode lib byte zsd = (none, zsd') ∧ d.At zsd' p := by
  rw [settingsValueDecode]
  -- whatever a decoder could take here would be all of the value
  cases majorType byte with
  | tstr =>
    obtain ⟨zsd', hdecode, hat'⟩ := hlib.tstr.refuses hat fun item' rest' text heq htext => by
      obtain rfl := hitem.eq_text htext (hpayload.symm.trans heq)
      exact hnone _ (.string htext)
    exact ⟨zsd', by simp only [hdecode], hat'⟩
  | pint | nint =>
    obtain ⟨zsd', hdecode, hat'⟩ := hlib.int64.refuses hat fun item' rest' value heq hint => by
      obtain ⟨⟨n, hhead⟩, hlow, hhigh⟩ := hint
      obtain rfl : item = item' := by
        rcases hhead with ⟨hhead, -⟩ | ⟨hhead, -⟩ <;>
          exact hitem.eq_head hhead (.inl (by omega)) (hpayload.symm.trans heq)
      exact hnone _ (.int64 ⟨n, hhead⟩ hlow hhigh)
    exact ⟨zsd', by simp only [hdecode], hat'⟩
  | simple =>
    obtain ⟨zsd₁, hfloat, hat₁⟩ := hlib.float.refuses hat fun item' rest' value heq hread => by
      obtain ⟨⟨argument, hhead, hlen⟩, -⟩ := hread
      obtain rfl := hitem.eq_head hhead (.inr rfl) (hpayload.symm.trans heq)
      exact hnone _ (.float ⟨argument, hhead, hlen⟩)
    obtain ⟨zsd', hdecode, hat'⟩ := hlib.bool.refuses hat₁ fun item' rest' value heq hbool => by
      obtain rfl := hitem.eq_head hbool.head (.inr rfl) (hpayload.symm.trans heq)
      exact hnone _ (.bool hbool)
    exact ⟨zsd', by simp only [hfloat, hdecode], hat'⟩
  | bstr | list | map | tag => exact ⟨zsd, rfl, hat⟩

end Values

/-! ## Settings -/

/-- A setting of the map: its label and its value, and what the value means. -/
structure Setting where
  label : List UInt8
  labelItem : List UInt8
  valueItem : List UInt8
  value : Option SettingsValue

/-- The label is a text without a zero byte that fits into a key, and the value is an item, which
means something exactly if a setting can have it. -/
structure Setting.WellFormed (d : Decoding S) (setting : Setting) : Prop where
  label : TextItem d.profile setting.label setting.labelItem
  short : setting.label.length ≤ maxNameLen
  noZero : 0 ∉ setting.label
  item : Cbor.WellFormed d.profile setting.valueItem
  means : ∀ value, setting.value = some value → Means d setting.valueItem value
  meansNot : setting.value = none → ∀ value, ¬ Means d setting.valueItem value

/-- The label is a text and the value is an item, which means something exactly if a setting can
have it. -/
structure Setting.Encoded (d : Decoding S) (setting : Setting) : Prop where
  label : TextItem d.profile setting.label setting.labelItem
  item : Cbor.WellFormed d.profile setting.valueItem
  means : ∀ value, setting.value = some value → Means d setting.valueItem value
  meansNot : setting.value = none → ∀ value, ¬ Means d setting.valueItem value

theorem Setting.WellFormed.encoded {d : Decoding S} {setting : Setting}
    (h : setting.WellFormed d) : setting.Encoded d := ⟨h.label, h.item, h.means, h.meansNot⟩

/-- The setting under the name that is made of its label. -/
def Setting.named (setting : Setting) : Setting :=
  { setting with label := settingsKey setting.label }

def Setting.pair (setting : Setting) : Pair where
  key := .tstr setting.label
  label := setting.labelItem
  value := setting.valueItem

/-- What a setting does: the state of the application after it, and the errors that are recorded
for it. -/
def Setting.apply (cb : SettingsCb α) (setting : Setting) (app : α) :
    α × List (List UInt8 × ℤ) :=
  match setting.value with
  | some value =>
    let (status, app) := cb setting.label value app
    (app, if status ≠ statusSuccess then [(setting.label, status)] else [])
  | none => (app, [(setting.label, statusValueFormatNotValid)])

/-- What the settings do one after the other. -/
def dispatch (cb : SettingsCb α) : List Setting → α → α × List (List UInt8 × ℤ)
  | [], app => (app, [])
  | setting :: settings, app =>
    let (app, errors) := setting.apply cb app
    let (app, others) := dispatch cb settings app
    (app, errors ++ others)

/-- Errors are added to a response one after the other. -/
def addErrors (enc : ZcborEncode E) (errors : List (List UInt8 × ℤ))
    (response : SettingsResponse E) : SettingsResponse E :=
  errors.foldl (fun response error => addErrorToResponse enc error.1 error.2 response) response

theorem addErrors_append (enc : ZcborEncode E) (errors errors' : List (List UInt8 × ℤ))
    (response : SettingsResponse E) :
    addErrors enc (errors ++ errors') response =
      addErrors enc errors' (addErrors enc errors response) := List.foldl_append

/-- The variables after settings that have done something. -/
def SettingsVars.after (enc : ZcborEncode E) (vars : SettingsVars E α)
    (done : α × List (List UInt8 × ℤ)) : SettingsVars E α :=
  { vars with app := done.1, response := addErrors enc done.2 vars.response }

theorem SettingsVars.after_after (enc : ZcborEncode E) (vars : SettingsVars E α) (app app' : α)
    (errors errors' : List (List UInt8 × ℤ)) :
    (vars.after enc (app, errors)).after enc (app', errors') =
      vars.after enc (app', errors ++ errors') := by
  simp only [SettingsVars.after, addErrors_append]

theorem Setting.WellFormed.named_eq {d : Decoding S} {setting : Setting}
    (h : setting.WellFormed d) : setting.named = setting := by
  have hkey : settingsKey setting.label = setting.label := by
    rw [settingsKey, List.take_of_length_le h.short, cString]
    refine List.takeWhile_eq_self_iff.mpr fun byte hbyte => ?_
    have hne : byte ≠ 0 := by
      rintro rfl
      exact h.noZero hbyte
    simpa using hne
  rw [Setting.named, hkey]

section Dispatch

variable {lib : ZcborDecode S} {d : Decoding S} (enc : ZcborEncode E) (cb : SettingsCb α)
  {w : Cursor S (SettingsVars E α)} {p : Position} {setting : Setting} {settings : List Setting}
  {rest : List UInt8} {framing : Framing}

/-- One setting after its label. -/
theorem settingDecode_apply (hlib : Conforms lib d) (hsetting : setting.Encoded d)
    (hat : d.At w.zsd p) (hnext : p.HasNext) (hpayload : p.payload = setting.valueItem ++ rest) :
    ∃ w', settingDecode lib enc cb setting.label w = (some 0, w') ∧ d.At w'.zsd (p.next rest) ∧
      w'.out = w.out.after enc (setting.named.apply cb w.out.app) := by
  obtain ⟨byte, following, hbytes, -⟩ := hsetting.item.initial
  have hfirst : p.payload = byte :: (following ++ rest) := by
    rw [hpayload, hbytes]
    rfl
  have hbyte : lib.payloadByte w.zsd = byte := hlib.payloadByte hat hfirst
  unfold settingDecode
  dsimp only [readHeader, Cursor.zsd_record]
  rw [hbyte]
  cases hvalue : setting.value with
  | some value =>
    obtain ⟨zsd', hdecode, hat'⟩ := settingsValueDecode_takes hlib hat hnext hpayload hbytes
      hsetting.item (hsetting.means value hvalue)
    refine ⟨{ (w.record (.value w.zsd)).record (.read w.zsd) with
      zsd := zsd', out := applySetting enc cb (settingsKey setting.label) value w.out }, ?_, hat', ?_⟩
    · simp only [Cursor.out_record, hdecode]
    · simp only [Setting.apply, Setting.named, hvalue, SettingsVars.after, applySetting]
      split <;> simp [addErrors]
  | none =>
    obtain ⟨zsd₁, hdecode, hat₁⟩ := settingsValueDecode_refuses byte hlib hat hpayload
      hsetting.item (hsetting.meansNot hvalue)
    obtain ⟨zsd', hskip, hat'⟩ := hlib.skip hat₁ hnext hpayload hsetting.item
    refine ⟨{ (w.record (.value w.zsd)).record (.read w.zsd) with
      zsd := zsd'
      out := w.out.after enc (setting.named.apply cb w.out.app) }, ?_, hat', rfl⟩
    simp only [Cursor.out_record, hdecode, okOrReturn, hskip, if_pos, Setting.apply, Setting.named,
      hvalue]
    rfl

/-- **Run of the loop.** The settings are dispatched one after the other, up to the end of the
map. -/
theorem decodeSettings_dispatch (hlib : Conforms lib d) {fuel : ℕ}
    (hsettings : ∀ setting ∈ settings, setting.Encoded d) (hat : d.At w.zsd p)
    (houter : p.outer ≠ []) (hleft : p.left = leftOf (2 * settings.length) framing)
    (hpayload : p.payload = pairBytes (settings.map Setting.pair) ++ (framing.close ++ rest))
    (hfuel : settings.length < fuel) :
    ∃ w', decodeSettings lib enc cb fuel w = (some 0, w') ∧ d.At w'.zsd (p.leave rest) ∧
      w'.out = { w.out.after enc (dispatch cb (settings.map Setting.named) w.out.app) with
        settings := true } := by
  induction settings generalizing w p fuel with
  | nil =>
    obtain ⟨fuel, rfl⟩ : ∃ steps, fuel = steps + 1 := ⟨fuel - 1, by simp at hfuel; omega⟩
    have hrecord : d.At (w.record (.element w.zsd)).zsd p := hat
    obtain ⟨w₁, hend, hsame⟩ := hlib.atEnd hrecord hleft hpayload
    have hat₁ : d.At w₁.zsd p := by
      rw [hsame.zsd]
      exact hat
    obtain ⟨zsd', hleave, hat'⟩ := hlib.mapEnd.leaves hat₁ houter hpayload hleft
    refine ⟨{ w₁ with zsd := zsd', out := { w₁.out with settings := true } }, ?_, hat', ?_⟩
    · rw [decodeSettings, hend]
      simp only [okOrReturn, hleave, if_pos]
    · rw [hsame.out]
      rfl
  | cons setting settings ih =>
    obtain ⟨fuel, rfl⟩ : ∃ steps, fuel = steps + 1 := ⟨fuel - 1, by simp at hfuel; omega⟩
    obtain ⟨hsetting, hsettings⟩ := List.forall_mem_cons.mp hsettings
    rw [List.map_cons, pairBytes_cons, List.append_assoc, List.append_assoc] at hpayload
    have hpayload : p.payload = setting.labelItem ++ (setting.valueItem ++
        (pairBytes (settings.map Setting.pair) ++ (framing.close ++ rest))) := hpayload
    have hafford : p.Affords 2 := by
      intro n hn
      rw [hleft] at hn
      cases framing with
      | definite =>
        rw [← Option.some_inj.mp hn, List.length_cons]
        omega
      | indefinite => cases hn
    have hnext : p.HasNext := hafford.hasNext (by omega)
    -- the label
    obtain ⟨byte, following, hbytes, hbyte⟩ := hsetting.label.wellFormed.initial
    have hfirst : p.payload = byte :: (following ++ (setting.valueItem ++
        (pairBytes (settings.map Setting.pair) ++ (framing.close ++ rest)))) := by
      rw [hpayload, hbytes]
      rfl
    have hrecord : d.At (w.record (.element w.zsd)).zsd p := hat
    obtain ⟨w₁, hend, hsame⟩ := hlib.notAtEnd hrecord hnext hfirst hbyte
    have hat₁ : d.At w₁.zsd p := by
      rw [hsame.zsd]
      exact hat
    obtain ⟨str, zsd₂, hlabel, htext, hat₂⟩ := hlib.tstr.takes hat₁ hnext hpayload hsetting.label
    have htext₂ : lib.text zsd₂ str = setting.label := (hlib.text_eq hat₂ str).trans htext
    -- the value
    have hvalue : (p.next (setting.valueItem ++ (pairBytes (settings.map Setting.pair) ++
        (framing.close ++ rest)))).HasNext :=
      (Position.Affords.past (m := 1) (n := 1) hafford).hasNext one_pos
    have hat₂ : d.At ({ w₁ with zsd := zsd₂ } : Cursor S (SettingsVars E α)).zsd _ := hat₂
    obtain ⟨w₃, hsettingDecode, hat₃, hout₃⟩ :=
      settingDecode_apply enc cb hlib hsetting hat₂ hvalue rfl
    rw [Position.next_eq_past, Position.next_eq_past, Position.past_past] at hat₃
    -- the settings after it
    have hleft₃ : (p.past (1 + 1) (pairBytes (settings.map Setting.pair) ++
        (framing.close ++ rest))).left = leftOf (2 * settings.length) framing := by
      rw [Position.past, hleft]
      cases framing <;> simp [leftOf, Nat.mul_succ]
    have hfuel : settings.length < fuel := Nat.lt_of_succ_lt_succ hfuel
    obtain ⟨w', hloop, hat', hout'⟩ := ih hsettings hat₃ houter hleft₃ rfl hfuel
    refine ⟨w', ?_, hat', ?_⟩
    · rw [decodeSettings, hend]
      simp only [hlabel, htext₂, hsettingDecode, orReturn]
      exact hloop
    · rw [hout', hout₃, hsame.out]
      simp only [Cursor.out_record, List.map_cons, dispatch]
      rw [SettingsVars.after_after]
      rfl

/-- The settings are decoded, whatever their labels. -/
theorem settingsDecode_named (hlib : Conforms lib d) {fuel : ℕ}
    (hsettings : ∀ setting ∈ settings, setting.Encoded d)
    (hmap : AtMap d framing (settings.map Setting.pair) w.zsd p rest)
    (hfuel : settings.length < fuel) :
    ∃ w', settingsDecode lib enc cb fuel w = (some 0, w') ∧ d.At w'.zsd (p.next rest) ∧
      w'.out = { w.out.after enc (dispatch cb (settings.map Setting.named) w.out.app) with
        settings := true } := by
  obtain ⟨item, ⟨head, hopens, rfl⟩, hpayload⟩ := hmap.payload
  rw [List.append_assoc, List.append_assoc] at hpayload
  obtain ⟨byte, following, hbytes, hmajor⟩ := hopens.initial (by omega)
  have hfirst : p.payload = byte :: (following ++
      (pairBytes (settings.map Setting.pair) ++ (framing.close ++ rest))) := by
    rw [hpayload, hbytes]
    rfl
  have hnil : byte ≠ 0xf6 := by
    rintro rfl
    exact absurd hmajor (by decide)
  obtain ⟨zsd₁, hnotNil, hat₁⟩ := hlib.notNil hmap.stands hfirst hnil
  obtain ⟨zsd₂, hstart, hat₂⟩ := hlib.mapStart hat₁ hmap.hasNext hmap.room hpayload hopens
  have hat₂ : d.At ({ w with zsd := zsd₂ } : Cursor S (SettingsVars E α)).zsd _ := hat₂
  rw [List.length_map] at hat₂
  obtain ⟨w', hloop, hat', hout'⟩ := decodeSettings_dispatch enc cb hlib hsettings
    hat₂ (List.cons_ne_nil _ _) rfl rfl hfuel
  rw [Position.leave_enter p hmap.room] at hat'
  refine ⟨w', ?_, hat', hout'⟩
  rw [settingsDecode, hnotNil]
  simp only [hstart, okOrReturn, if_pos]
  exact hloop

end Dispatch

/-- `{"A": 1, "B": [true]}`. -/
def sampleSettings : List UInt8 := [0xa2, 0x61, 0x41, 0x01, 0x61, 0x42, 0x81, 0xf5]

def sample : List Setting :=
  [⟨[0x41], [0x61, 0x41], [0x01], some (.int64 1)⟩, ⟨[0x42], [0x61, 0x42], [0x81, 0xf5], none⟩]

/-- An application that records the labels it is given, and accepts none of them. -/
def refuseAll : SettingsCb (List (List UInt8)) := fun key _ app => (1, app ++ [key])

theorem sample_wellFormed : ∀ setting ∈ sample, setting.WellFormed Reference.decoding := by
  have hlabel : ∀ byte : UInt8, TextItem Reference.profile [byte] [0x61, byte] := fun byte =>
    ⟨[0x61], ⟨@Head.inside 3 0x61 rfl (by decide), by decide⟩, rfl⟩
  have hone : Head 0 1 [0x01] := @Head.inside 0 0x01 rfl (by decide)
  have htrue : Cbor.WellFormed Reference.profile [0xf5] :=
    .simple (@Head.inside 7 0xf5 rfl (by decide)) (by decide)
  have hlist : Cbor.WellFormed Reference.profile ([0x81] ++ ([[0xf5]].flatten ++ [])) :=
    @Cbor.WellFormed.list _ .definite [0x81] [[0xf5]]
      ⟨@Head.inside 4 0x81 rfl (by decide), by decide⟩ (by simpa using htrue)
  simp only [sample, List.forall_mem_cons]
  refine ⟨⟨hlabel 0x41, by decide, by decide, .integer (.inl rfl) hone, ?_, by simp⟩,
    ⟨hlabel 0x42, by decide, by decide, hlist, by simp, ?_⟩, by simp⟩
  · rintro value hvalue
    obtain rfl := Option.some_inj.mp hvalue
    exact .int64 ⟨1, .inl ⟨hone, rfl⟩⟩ (by decide) (by decide)
  · -- the header of the value is the one of a list
    have hfour : ∀ {major argument head tail}, Head major argument head →
        ([0x81, 0xf5] : List UInt8) = head ++ tail → major = 4 :=
      fun hhead heq => (hhead.initial_of_append heq).1.symm
    rintro - value hmeans
    cases hmeans with
    | string htext =>
      obtain ⟨head, hhead, heq⟩ := htext
      exact absurd (hfour hhead.1 heq) (by decide)
    | int64 hint =>
      obtain ⟨n, ⟨hhead, -⟩ | ⟨hhead, -⟩⟩ := hint <;>
        exact absurd (hfour hhead (List.append_nil _).symm) (by decide)
    | float hfloat =>
      obtain ⟨argument, hhead, -⟩ := hfloat
      exact absurd (hfour hhead (List.append_nil _).symm) (by decide)
    | bool hbool => exact absurd (hfour hbool.head (List.append_nil _).symm) (by decide)

end Golioth.Settings
