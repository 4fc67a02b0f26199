/-
# Reads at the payload pointer

Three places of the client look at the byte at the payload pointer before they
call a decoder: `zcbor_list_or_map_end` in a container of indefinite length,
`zcbor_map_key_decode` at a key, and `settings_decode` at a value. None of them
looks where the payload ends; the decoders, those of zcbor and the one of
`zcbor_any_skip_fixed.c`, do so before every read of their own.

Whether a walk reads past the payload therefore depends on the states it comes
to: the payload may have ended before the container has.
-/
import Golioth.Zcbor.Keys
import Golioth.Settings
import Golioth.Fw

namespace Golioth.Zcbor

variable {S σ : Type}

/-- Where the walk comes to, there is a byte left, or the client does not look for one: a map
ends where a definite number of elements has been counted down, and the lists and maps without
a table are looked into only if their length is indefinite. -/
def Event.Supplied (lib : ZcborDecode S) : Event S → Prop
  | .key zsd => 0 < lib.payloadLeft zsd ∨ lib.indefiniteLengthArray zsd = false ∧ lib.elemCount zsd = 0
  | .element zsd => 0 < lib.payloadLeft zsd ∨ lib.indefiniteLengthArray zsd = false
  | .value zsd => 0 < lib.payloadLeft zsd
  | .read _ => True

/-- A byte that is read belongs to the payload. -/
def Event.InBounds (lib : ZcborDecode S) : Event S → Prop
  | .read zsd => 0 < lib.payloadLeft zsd
  | _ => True

instance (lib : ZcborDecode S) : DecidablePred (Event.InBounds lib)
  | .read zsd => inferInstanceAs (Decidable (0 < lib.payloadLeft zsd))
  | .key _ | .element _ | .value _ => inferInstanceAs (Decidable True)

/-- From one state of a walk to another, what is read belongs to the payload exactly if every
place the walk comes to is supplied. -/
def ReadsSupplied (lib : ZcborDecode S) (w w' : Cursor S σ) : Prop :=
  ∃ events, w'.log = w.log ++ events ∧
    ((∀ event ∈ events, event.InBounds lib) ↔ ∀ event ∈ events, event.Supplied lib)

section Rules

variable {lib : ZcborDecode S} {w w' w'' : Cursor S σ}

theorem ReadsSupplied.of_log_eq (h : w'.log = w.log) : ReadsSupplied lib w w' :=
  ⟨[], by simp [h], by simp⟩

theorem ReadsSupplied.refl (w : Cursor S σ) : ReadsSupplied lib w w := .of_log_eq rfl

theorem ReadsSupplied.trans (h : ReadsSupplied lib w w') (h' : ReadsSupplied lib w' w'') :
    ReadsSupplied lib w w'' := by
  obtain ⟨events, hlog, hiff⟩ := h
  obtain ⟨events', hlog', hiff'⟩ := h'
  refine ⟨events ++ events', by rw [hlog', hlog, List.append_assoc], ?_⟩
  simp only [List.forall_mem_append, hiff, hiff']

/-- The states a walk goes through between two that have the same record do not matter. -/
theorem ReadsSupplied.congr_log {u : Cursor S σ} (hlog : u.log = w.log)
    (h : ReadsSupplied lib u w') : ReadsSupplied lib w w' :=
  (ReadsSupplied.of_log_eq hlog).trans h

theorem readsSupplied_okOrReturn {err : ℤ} {result : Bool × S} {next : Cursor S σ → Walked S σ}
    (hnext : ∀ zsd, ReadsSupplied lib { w with zsd := zsd } (next { w with zsd := zsd }).2) :
    ReadsSupplied lib w (okOrReturn err w result next).2 := by
  rw [okOrReturn]
  split
  · exact .congr_log rfl (hnext result.2)
  · exact .of_log_eq rfl

theorem readsSupplied_orReturn {result : Walked S σ} {next : Cursor S σ → Walked S σ}
    (h : ReadsSupplied lib w result.2)
    (hnext : ∀ w', ReadsSupplied lib w' (next w').2) :
    ReadsSupplied lib w (orReturn result next).2 := by
  unfold orReturn
  split
  · exact h.trans (hnext _)
  · exact h

/-- What `zcbor_list_or_map_end` reads: the next byte, in a container of indefinite length. -/
theorem zcborListOrMapEnd_eq (lib : ZcborDecode S) (w : Cursor S σ) :
    lib.indefiniteLengthArray w.zsd = true ∧
        zcborListOrMapEnd lib w =
          (decide (lib.payloadByte w.zsd = breakByte), w.record (.read w.zsd)) ∨
      lib.indefiniteLengthArray w.zsd = false ∧
        zcborListOrMapEnd lib w = (decide (lib.elemCount w.zsd = 0), w) := by
  cases hlength : lib.indefiniteLengthArray w.zsd with
  | true => exact .inl ⟨rfl, if_pos hlength⟩
  | false => exact .inr ⟨rfl, if_neg (by simp [hlength])⟩

/-- A loop without a table comes to an element. -/
theorem readsSupplied_element (lib : ZcborDecode S) (w : Cursor S σ) :
    ReadsSupplied lib w (zcborListOrMapEnd lib (w.record (.element w.zsd))).2 := by
  rcases zcborListOrMapEnd_eq lib (w.record (.element w.zsd)) with
    ⟨hlength, heq⟩ | ⟨hlength, heq⟩ <;> rw [heq]
  · have hlength : lib.indefiniteLengthArray w.zsd = true := hlength
    exact ⟨[.element w.zsd, .read w.zsd], by simp [Cursor.record],
      by simp [Event.InBounds, Event.Supplied, hlength]⟩
  · have hlength : lib.indefiniteLengthArray w.zsd = false := hlength
    exact ⟨[.element w.zsd], rfl, by simp [Event.InBounds, Event.Supplied, hlength]⟩

end Rules

/-! ## Maps -/

section Maps

variable {lib : ZcborDecode S} {entries : List (ZcborMapEntry S σ)} {fuel : ℕ}
  {key : ZcborMapKey} {w : Cursor S σ}

theorem log_zcborMapKeyDecode (lib : ZcborDecode S) (key : ZcborMapKey) (w : Cursor S σ) :
    (zcborMapKeyDecode lib w key).2.2.log = w.log ++ [.read w.zsd] := by
  unfold zcborMapKeyDecode
  dsimp only [readHeader]
  split
  · split <;> rfl
  · split <;> rfl
  · rfl

theorem readsSupplied_decodeValue
    (hentries : ∀ entry ∈ entries, ∀ w, ReadsSupplied lib w (entry.decode w).2) :
    ReadsSupplied lib w (decodeValue lib entries key w).cursor := by
  unfold decodeValue
  dsimp only
  split
  · next entry hselected =>
    have hmem : entry ∈ entries := by
      obtain ⟨i, -, hget⟩ := Option.bind_eq_some_iff.mp hselected
      exact List.mem_of_getElem? hget
    have hdecode := hentries entry hmem w
    split <;> simpa [Iteration.cursor, *] using hdecode
  · split <;> exact .of_log_eq rfl

/-- The walk comes to a place where the map ends. -/
theorem readsSupplied_mapEnd {w' : Cursor S σ}
    (h : zcborListOrMapEnd lib (w.record (.key w.zsd)) = (true, w')) : ReadsSupplied lib w w' := by
  rcases zcborListOrMapEnd_eq lib (w.record (.key w.zsd)) with
    ⟨hlength, heq⟩ | ⟨hlength, heq⟩ <;> rw [heq] at h
  · have hlength : lib.indefiniteLengthArray w.zsd = true := hlength
    obtain rfl := (Prod.mk.inj h).2
    exact ⟨[.key w.zsd, .read w.zsd], by simp [Cursor.record],
      by simp [Event.InBounds, Event.Supplied, hlength]⟩
  · have hlength : lib.indefiniteLengthArray w.zsd = false := hlength
    obtain ⟨hend, rfl⟩ := Prod.mk.inj h
    have hcount : lib.elemCount w.zsd = 0 := of_decide_eq_true hend
    exact ⟨[.key w.zsd], rfl, by simp [Event.InBounds, Event.Supplied, hlength, hcount]⟩

/-- The walk comes to a place where the map goes on, and the header of a key is read. -/
theorem readsSupplied_key {w₁ w' : Cursor S σ}
    (h : zcborListOrMapEnd lib (w.record (.key w.zsd)) = (false, w₁))
    (hlog : w'.log = w₁.log ++ [.read w₁.zsd]) : ReadsSupplied lib w w' := by
  rcases zcborListOrMapEnd_eq lib (w.record (.key w.zsd)) with
    ⟨hlength, heq⟩ | ⟨hlength, heq⟩ <;> rw [heq] at h
  · -- the byte that is not the end of the map is the header of the key
    have hlength : lib.indefiniteLengthArray w.zsd = true := hlength
    obtain rfl := (Prod.mk.inj h).2
    exact ⟨[.key w.zsd, .read w.zsd, .read w.zsd], by simp [hlog, Cursor.record],
      by simp [Event.InBounds, Event.Supplied, hlength]⟩
  · have hlength : lib.indefiniteLengthArray w.zsd = false := hlength
    obtain ⟨hend, rfl⟩ := Prod.mk.inj h
    have hcount : lib.elemCount w.zsd ≠ 0 := of_decide_eq_false hend
    exact ⟨[.key w.zsd, .read w.zsd], by simp [hlog, Cursor.record],
      by simp [Event.InBounds, Event.Supplied, hlength, hcount]⟩

/-- **Iteration.** An iteration comes to a key, whose header it reads unless the map has ended;
in a map of indefinite length it reads the same byte before that. -/
theorem readsSupplied_decodeNext
    (hentries : ∀ entry ∈ entries, ∀ w, ReadsSupplied lib w (entry.decode w).2) :
    ReadsSupplied lib w (decodeNext lib entries key w).cursor := by
  unfold decodeNext
  split
  · next w' hend => exact readsSupplied_mapEnd hend
  · next w₁ hend =>
    have hlog := log_zcborMapKeyDecode lib key w₁
    split
    · next key' w₂ hdecoded =>
      rw [hdecoded] at hlog
      exact (readsSupplied_key hend hlog).trans (readsSupplied_decodeValue hentries)
    · next err key' w₂ _ hdecoded =>
      rw [hdecoded] at hlog
      exact readsSupplied_key hend hlog

theorem readsSupplied_afterLoop (numEntries : ℕ) (w : Cursor S σ) (loopEnd : LoopEnd) :
    ReadsSupplied lib w (afterLoop lib numEntries w loopEnd).2 := by
  have hend (err : ℤ) : ReadsSupplied lib w (mapEndDecode lib err w).2 :=
    readsSupplied_okOrReturn fun _ => .refl _
  cases loopEnd with
  | running => exact .refl w
  | returned err => exact .refl w
  | finished numDecoded =>
    rw [afterLoop]
    split
    · exact hend _
    · split
      · exact .refl w
      · exact hend 0

/-- **Maps.** The walk through a map reads what is supplied if the decoders of its table do. -/
theorem readsSupplied_zcborMapDecode
    (hentries : ∀ entry ∈ entries, ∀ w, ReadsSupplied lib w (entry.decode w).2) :
    ReadsSupplied lib w (zcborMapDecodeVisits lib fuel entries w).2.2 := by
  rw [zcborMapDecodeVisits]
  split
  · exact .of_log_eq rfl
  · next zsd _ =>
    have hloop : ReadsSupplied lib { w with zsd := zsd }
        (decodeEntries lib entries fuel (lib.unassignedKey w.zsd) 0 { w with zsd := zsd }).2.2 :=
      decodeEntries_rel .refl .trans fun _ _ => readsSupplied_decodeNext hentries
    exact .congr_log rfl (hloop.trans (readsSupplied_afterLoop _ _ _))

/-! ## The decoders of the tables -/

theorem log_zcborMapTstrDecode (assign : ZcborString → σ → σ) (w : Cursor S σ) :
    (zcborMapTstrDecode lib assign w).2.log = w.log := by
  unfold zcborMapTstrDecode
  split <;> rfl

theorem log_zcborMapInt64Decode (assign : ℤ → σ → σ) (w : Cursor S σ) :
    (zcborMapInt64Decode lib assign w).2.log = w.log := by
  unfold zcborMapInt64Decode
  split <;> rfl

end Maps

end Golioth.Zcbor

namespace Golioth.Rpc

open Golioth.Zcbor

variable {S σ : Type} {lib : ZcborDecode S} {fuel : ℕ}

/-- By induction on the parameters that are left. -/
theorem readsSupplied_skipParams (w : Cursor S σ) :
    ReadsSupplied lib w (skipParams lib fuel w).2 := by
  induction fuel generalizing w with
  | zero => exact .refl w
  | succ fuel ih =>
    have helement := readsSupplied_element lib w
    rw [skipParams]
    split
    · next w₁ hend =>
      rw [hend] at helement
      exact helement.trans (readsSupplied_okOrReturn fun _ => .refl _)
    · next w₁ hend =>
      rw [hend] at helement
      exact helement.trans (readsSupplied_okOrReturn fun _ => ih _)

theorem readsSupplied_paramsDecode (assign : S → σ → σ) (w : Cursor S σ) :
    ReadsSupplied lib w (paramsDecode lib fuel assign w).2 :=
  readsSupplied_okOrReturn fun _ => .congr_log rfl (readsSupplied_skipParams _)

theorem readsSupplied_decodeRpc (data : List UInt8) (vars : RpcVars S) :
    ReadsSupplied lib { zsd := lib.newDecodeState data 1 2, out := vars }
      (decodeRpc lib fuel data vars).2.2 := by
  refine readsSupplied_zcborMapDecode fun entry hmem w => ?_
  simp only [rpcEntries, List.mem_cons, List.not_mem_nil, or_false] at hmem
  rcases hmem with rfl | rfl | rfl
  · exact .of_log_eq (log_zcborMapTstrDecode _ w)
  · exact .of_log_eq (log_zcborMapTstrDecode _ w)
  · exact readsSupplied_paramsDecode _ w

end Golioth.Rpc

namespace Golioth.Settings

open Golioth.Zcbor

variable {S E α : Type} {lib : ZcborDecode S} {enc : ZcborEncode E} {cb : SettingsCb α}
  {fuel : ℕ}

/-- The header of a value is read before the value is decoded or skipped. -/
theorem readsSupplied_settingDecode (label : List UInt8) (w : Cursor S (SettingsVars E α)) :
    ReadsSupplied lib w (settingDecode lib enc cb label w).2 := by
  have hread : ReadsSupplied lib w ((w.record (.value w.zsd)).record (.read w.zsd)) :=
    ⟨[.value w.zsd, .read w.zsd], by simp [Cursor.record],
      by simp [Event.InBounds, Event.Supplied]⟩
  refine hread.trans ?_
  unfold settingDecode
  dsimp only [readHeader]
  split
  · exact .of_log_eq rfl
  · exact .congr_log rfl (readsSupplied_okOrReturn fun _ => .refl _)

theorem readsSupplied_decodeSettings (w : Cursor S (SettingsVars E α)) :
    ReadsSupplied lib w (decodeSettings lib enc cb fuel w).2 := by
  induction fuel generalizing w with
  | zero => exact .refl w
  | succ fuel ih =>
    have helement := readsSupplied_element lib w
    rw [decodeSettings]
    split
    · next w₁ hend =>
      rw [hend] at helement
      exact helement.trans (readsSupplied_okOrReturn fun _ => .of_log_eq rfl)
    · next w₁ hend =>
      rw [hend] at helement
      refine helement.trans ?_
      split
      · exact .of_log_eq rfl
      · next label zsd _ =>
        refine readsSupplied_orReturn ?_ fun w' => ih w'
        exact .congr_log rfl (readsSupplied_settingDecode _ _)

theorem readsSupplied_settingsDecode (w : Cursor S (SettingsVars E α)) :
    ReadsSupplied lib w (settingsDecode lib enc cb fuel w).2 := by
  unfold settingsDecode
  split
  · exact .of_log_eq rfl
  · exact .congr_log rfl (readsSupplied_okOrReturn fun _ => readsSupplied_decodeSettings _)

theorem readsSupplied_decodeSetting (data : List UInt8) (vars : SettingsVars E α) :
    ReadsSupplied lib { zsd := lib.newDecodeState data 1 2, out := vars }
      (decodeSetting lib enc cb fuel data vars).2.2 := by
  refine readsSupplied_zcborMapDecode fun entry hmem w => ?_
  simp only [settingsEntries, List.mem_cons, List.not_mem_nil, or_false] at hmem
  rcases hmem with rfl | rfl
  · exact readsSupplied_settingsDecode w
  · exact .of_log_eq (log_zcborMapInt64Decode _ w)

end Golioth.Settings

namespace Golioth.Fw

open Golioth.Zcbor

variable {S : Type} {lib : ZcborDecode S} {fuel : ℕ}

theorem log_componentEntryDecodeValue (get : FwVars S → ComponentTstrValue)
    (set : ComponentTstrValue → FwVars S → FwVars S) (w : Cursor S (FwVars S)) :
    (componentEntryDecodeValue lib get set w).2.log = w.log := by
  unfold componentEntryDecodeValue
  split
  · rfl
  · split <;> rfl

theorem readsSupplied_componentDecode (w : Cursor S (FwVars S)) :
    ReadsSupplied lib w (componentDecode lib fuel w).2 := by
  have hmap : ReadsSupplied lib w (zcborMapDecodeVisits lib fuel (componentEntries lib) w).2.2 := by
    refine readsSupplied_zcborMapDecode fun entry hmem w => ?_
    simp only [componentEntries, List.mem_cons, List.not_mem_nil, or_false] at hmem
    rcases hmem with rfl | rfl <;> exact .of_log_eq (log_componentEntryDecodeValue _ _ w)
  exact hmap.trans (.of_log_eq rfl)

theorem readsSupplied_componentsDecode (w : Cursor S (FwVars S)) :
    ReadsSupplied lib w (componentsDecode lib fuel w).2 :=
  readsSupplied_okOrReturn fun _ =>
    readsSupplied_orReturn (readsSupplied_componentDecode _) fun _ =>
      readsSupplied_okOrReturn fun _ => .refl _

theorem readsSupplied_goliothFwDesiredParse (payload : List UInt8) (vars : FwVars S) :
    ReadsSupplied lib { zsd := lib.newDecodeState payload 1 3, out := vars }
      (goliothFwDesiredParse lib fuel payload vars).2 := by
  refine readsSupplied_zcborMapDecode fun entry hmem w => ?_
  simp only [manifestEntries, List.mem_cons, List.not_mem_nil, or_false] at hmem
  rcases hmem with rfl | rfl
  · exact .of_log_eq (log_zcborMapInt64Decode _ w)
  · exact readsSupplied_componentsDecode w

end Golioth.Fw

/-! ## The outcome -/

namespace Golioth.Zcbor

/-- The whole record of a walk. -/
theorem ReadsSupplied.iff_of_start {S σ : Type} {lib : ZcborDecode S} {zsd : S} {out : σ}
    {w' : Cursor S σ} (h : ReadsSupplied lib { zsd := zsd, out := out } w') :
    (∀ event ∈ w'.log, event.InBounds lib) ↔ ∀ event ∈ w'.log, event.Supplied lib := by
  obtain ⟨events, hlog, hiff⟩ := h
  rwa [show w'.log = events from hlog]

/-- **Bounds.** Whatever payload a request, settings or a manifest has, and however far it has
been walked through, the client has read bytes of the payload only exactly if the payload had
not ended where the walk came to a key, while the map was open, to another element of a
container of indefinite length, or to the value of a setting. -/
theorem reads_inBounds_iff {S E α : Type} (lib : ZcborDecode S) (enc : ZcborEncode E)
    (cb : Settings.SettingsCb α) (fuel : ℕ) (payload : List UInt8) :
    (∀ vars, (∀ event ∈ (Rpc.decodeRpc lib fuel payload vars).2.2.log, event.InBounds lib) ↔
      ∀ event ∈ (Rpc.decodeRpc lib fuel payload vars).2.2.log, event.Supplied lib) ∧
    (∀ vars, (∀ event ∈ (Settings.decodeSetting lib enc cb fuel payload vars).2.2.log,
        event.InBounds lib) ↔
      ∀ event ∈ (Settings.decodeSetting lib enc cb fuel payload vars).2.2.log,
        event.Supplied lib) ∧
    (∀ vars, (∀ event ∈ (Fw.goliothFwDesiredParse lib fuel payload vars).2.log,
        event.InBounds lib) ↔
      ∀ event ∈ (Fw.goliothFwDesiredParse lib fuel payload vars).2.log, event.Supplied lib) :=
  ⟨fun _ => (Rpc.readsSupplied_decodeRpc _ _).iff_of_start,
    fun _ => (Settings.readsSupplied_decodeSetting _ _).iff_of_start,
    fun _ => (Fw.readsSupplied_goliothFwDesiredParse _ _).iff_of_start⟩

/-- A payload that ends after the head of a map of indefinite length. -/
def openMap : List UInt8 := [0xbf]

theorem openMap_not_inBounds :
    ¬ ∀ event ∈ (Rpc.decodeRpc Reference.library 1 openMap unassignedRpc).2.2.log,
      event.InBounds Reference.library := by
  decide

end Golioth.Zcbor
