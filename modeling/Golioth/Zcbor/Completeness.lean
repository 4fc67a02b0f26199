/-
# Decoding every entry

`zcbor_map_decode` counts the entries it has decoded and stops when the count has
reached the length of the table. It does not record which entries these were, so
that a key that is repeated counts for one that is missing: every entry has been
decoded exactly if no entry has been selected twice.
-/
import Golioth.CS.Transition
import Golioth.Settings
import Golioth.Fw
import Golioth.Zcbor.Keys
import Mathlib.Data.List.Perm.Subperm

namespace Golioth.Zcbor

/-! ## Lists of places -/

/-- A list as long as a table, of places in the table, has every place exactly if it repeats
none. -/
theorem nodup_iff_forall_mem {places : List ℕ} {n : ℕ} (hlength : places.length = n)
    (hlt : ∀ i ∈ places, i < n) : (∀ i < n, i ∈ places) ↔ places.Nodup := by
  constructor
  · intro hall
    have hsubperm : (List.range n).Subperm places :=
      List.subperm_of_subset List.nodup_range fun i hi => hall i (List.mem_range.mp hi)
    have hperm := hsubperm.perm_of_length_le (by simp [hlength])
    exact hperm.nodup_iff.mp List.nodup_range
  · intro hnodup i hi
    have hsubperm : places.Subperm (List.range n) :=
      List.subperm_of_subset hnodup fun i hi => List.mem_range.mpr (hlt i hi)
    have hperm := hsubperm.perm_of_length_le (by simp [hlength])
    exact hperm.mem_iff.mpr (List.mem_range.mpr hi)

/-! ## What the loop has decoded -/

open CS

variable {S σ : Type} {lib : ZcborDecode S} {entries : List (ZcborMapEntry S σ)} {fuel : ℕ}
  {key : ZcborMapKey} {numDecoded : ℕ} {w w' : Cursor S σ} {visits : List (Visit S)}

/-- The decoder of an entry has been run and has returned zero. -/
def EntryDecoded (visits : List (Visit S)) (i : ℕ) : Prop :=
  ∃ visit ∈ visits, visit.selected = some i ∧ visit.ret = some 0

/-- The decoders of all entries have been run and have returned zero. -/
def EveryEntryDecoded (entries : List (ZcborMapEntry S σ)) (visits : List (Visit S)) : Prop :=
  ∀ i < entries.length, EntryDecoded visits i

/-- No two of the keys that have been looked up select the same entry. -/
def SelectsOnce (visits : List (Visit S)) : Prop := (visits.filterMap Visit.selected).Nodup

/-- An iteration after which the loop goes on has returned zero from the decoder it ran, if
any, and has selected an entry of the table, if any. -/
structure Passes (entries : List (ZcborMapEntry S σ)) (visit : Visit S) : Prop where
  ret : visit.ret = some 0
  lt : ∀ i, visit.selected = some i → i < entries.length

theorem mapEntryGet_lt {zsd : S} {i : ℕ} (h : mapEntryGet lib zsd entries key = some i) :
    i < entries.length :=
  (List.findIdx?_eq_some_iff_getElem.mp h).1

theorem passes_of_decodeNext {visit : Visit S}
    (h : decodeNext lib entries key w = .passed visit w') : Passes entries visit := by
  unfold decodeNext at h
  split at h
  · cases h
  · split at h
    · unfold decodeValue at h
      dsimp only at h
      split at h <;> split at h <;> cases h <;> exact ⟨rfl, fun i hi => mapEntryGet_lt hi⟩
    · cases h

/-- The function returns from within the loop only with an error. -/
theorem ne_zero_of_decodeNext {err : ℤ} {visits : List (Visit S)}
    (h : decodeNext lib entries key w = .returned err visits w') : err ≠ 0 := by
  unfold decodeNext at h
  split at h
  · cases h
  · split at h
    · unfold decodeValue at h
      dsimp only at h
      split at h <;> split at h <;> cases h
      · assumption
      · decide
    · next hne _ =>
      cases h
      exact hne

/-- The loop, where it is left with a count of entries: the count is that of the lookups that
have selected one. -/
structure Counts (entries : List (ZcborMapEntry S σ)) (before after : ℕ)
    (visits : List (Visit S)) : Prop where
  passes : ∀ visit ∈ visits, Passes entries visit
  count : after = before + (visits.filterMap Visit.selected).length
  le : before ≤ entries.length → after ≤ entries.length

theorem count_add_length (visit : Visit S) (rest : List (Visit S)) (numDecoded : ℕ) :
    visit.count numDecoded + (rest.filterMap Visit.selected).length =
      numDecoded + ((visit :: rest).filterMap Visit.selected).length := by
  cases hselected : visit.selected with
  | none => simp [Visit.count, hselected]
  | some i =>
    simp only [Visit.count, hselected, Option.isSome_some, if_true, List.filterMap_cons,
      List.length_cons]
    omega

theorem counts_of_finished {after : ℕ}
    (h : decodeEntries lib entries fuel key numDecoded w = (.finished after, visits, w')) :
    Counts entries numDecoded after visits := by
  induction fuel generalizing key numDecoded w visits with
  | zero => cases h
  | succ fuel ih =>
    rw [decodeEntries] at h
    split at h
    · next hlt =>
      split at h
      · cases h
        exact ⟨by simp, rfl, id⟩
      · cases h
      · cases h
      · next visit w₁ hnext =>
        have hpasses := passes_of_decodeNext hnext
        obtain ⟨hfinished, htail⟩ := Prod.mk.inj h
        obtain ⟨rfl, hcursor⟩ := Prod.mk.inj htail
        obtain ⟨hrest, hcount, hle⟩ := ih (Prod.ext hfinished (Prod.ext rfl hcursor))
        refine ⟨List.forall_mem_cons.mpr ⟨hpasses, hrest⟩, ?_, fun _ => ?_⟩
        · rw [hcount, count_add_length]
        · refine hle ?_
          rw [Visit.count]
          split <;> omega
    · cases h
      exact ⟨by simp, rfl, id⟩

theorem ne_zero_of_returned {err : ℤ}
    (h : decodeEntries lib entries fuel key numDecoded w = (.returned err, visits, w')) :
    err ≠ 0 := by
  induction fuel generalizing key numDecoded w visits with
  | zero => cases h
  | succ fuel ih =>
    rw [decodeEntries] at h
    split at h
    · split at h
      · cases h
      · next hnext =>
        cases h
        exact ne_zero_of_decodeNext hnext
      · cases h
      · next visit w₁ hnext =>
        obtain ⟨hreturned, htail⟩ := Prod.mk.inj h
        obtain ⟨-, hcursor⟩ := Prod.mk.inj htail
        exact ih (Prod.ext hreturned (Prod.ext rfl hcursor))
    · cases h

/-- A function that returns zero has gone on after a function of the library that succeeded. -/
theorem okOrReturn_eq_zero {err : ℤ} {result : Bool × S} {next : Cursor S σ → Walked S σ}
    (herr : err ≠ 0) (h : (okOrReturn err w result next).1 = some 0) :
    result.1 = true ∧ okOrReturn err w result next = next { w with zsd := result.2 } := by
  rw [okOrReturn] at h ⊢
  split at h
  · next hok => exact ⟨hok, if_pos hok⟩
  · exact absurd (Option.some_inj.mp h) herr

theorem orReturn_eq_zero {result : Walked S σ} {next : Cursor S σ → Walked S σ}
    (h : orReturn result next = (some 0, w')) :
    ∃ w, result = (some 0, w) ∧ next w = (some 0, w') := by
  unfold orReturn at h
  split at h
  · exact ⟨_, rfl, h⟩
  · next hne => exact absurd h (hne w')

theorem mapEndDecode_eq_zero {err : ℤ} (h : mapEndDecode lib err w = (some 0, w')) : err = 0 := by
  rw [mapEndDecode, okOrReturn] at h
  split at h
  · exact Option.some_inj.mp (congrArg Prod.fst h)
  · exact absurd (congrArg Prod.fst h) (by simp [Errno.ebadmsg])

/-- **Success.** `zcbor_map_decode` returns zero only if the loop has counted as many entries as
the table has. -/
theorem counts_of_success
    (h : zcborMapDecodeVisits lib fuel entries w = (visits, some 0, w')) :
    0 < entries.length ∧ Counts entries 0 entries.length visits := by
  unfold zcborMapDecodeVisits at h
  split at h
  · cases h
  · next zsd hstart =>
    obtain ⟨rfl, hafter⟩ := Prod.mk.inj h
    generalize hloop : decodeEntries lib entries fuel (lib.unassignedKey w.zsd) 0
      { w with zsd := zsd } = loop at hafter
    obtain ⟨ended, visits, w₁⟩ := loop
    cases ended with
    | running => cases hafter
    | returned err =>
      exact absurd (Option.some_inj.mp (congrArg Prod.fst hafter)) (ne_zero_of_returned hloop)
    | finished after =>
      have hcounts := counts_of_finished hloop
      have hle := hcounts.le (Nat.zero_le _)
      dsimp only [afterLoop] at hafter
      split_ifs at hafter with hzero hlt
      · exact absurd (mapEndDecode_eq_zero hafter) (by decide)
      · exact absurd (congrArg Prod.fst hafter) (by simp [Errno.ebadmsg])
      · obtain rfl : after = entries.length := le_antisymm hle (not_lt.mp hlt)
        exact ⟨Nat.pos_of_ne_zero hzero, hcounts⟩

/-! ## The variables the callers decode into -/

theorem out_zcborListOrMapEnd (lib : ZcborDecode S) (w : Cursor S σ) :
    (zcborListOrMapEnd lib w).2.out = w.out := by
  rw [zcborListOrMapEnd]
  split <;> rfl

theorem out_zcborMapKeyDecode (lib : ZcborDecode S) (w : Cursor S σ) (key : ZcborMapKey) :
    (zcborMapKeyDecode lib w key).2.2.out = w.out := by
  unfold zcborMapKeyDecode
  dsimp only
  split
  · split <;> rfl
  · split <;> rfl
  · rfl

/-- The variables before and after the decoder of an entry, where it returns zero. -/
def DecodesInto (entries : List (ZcborMapEntry S σ)) : ℕ → σ → σ → Prop :=
  fun i s t => ∃ entry, entries[i]? = some entry ∧
    ∃ w w' : Cursor S σ, entry.decode w = (some 0, w') ∧ w.out = s ∧ w'.out = t

theorem run_of_decodeValue {visit : Visit S}
    (h : decodeValue lib entries key w = .passed visit w') :
    Run (DecodesInto entries) visit.selected.toList w.out w'.out := by
  unfold decodeValue at h
  dsimp only at h
  split at h
  · next entry hentry =>
    obtain ⟨i, hselected, hget⟩ := Option.bind_eq_some_iff.mp hentry
    split at h
    · next hdecode =>
      cases h
      rw [hselected]
      exact .single ⟨entry, hget, _, _, hdecode, rfl, rfl⟩
    · cases h
    · cases h
  · next hnone =>
    split at h <;> cases h
    -- a key that selects no entry leaves the variables alone
    have hselected : mapEntryGet lib w.zsd entries key = none := by
      cases hget : mapEntryGet lib w.zsd entries key with
      | none => rfl
      | some i => simp [hget, List.getElem?_eq_getElem (mapEntryGet_lt hget)] at hnone
    rw [hselected]
    exact .nil _

theorem run_of_decodeNext {visit : Visit S}
    (h : decodeNext lib entries key w = .passed visit w') :
    Run (DecodesInto entries) visit.selected.toList w.out w'.out := by
  have hend := out_zcborListOrMapEnd lib (w.record (.key w.zsd))
  unfold decodeNext at h
  split at h
  · cases h
  · next w₁ hended =>
    have hkey := out_zcborMapKeyDecode lib w₁ key
    split at h
    · next key' w₂ hdecoded =>
      rw [hended] at hend
      rw [hdecoded] at hkey
      have hout : w₂.out = w.out := hkey.trans hend
      exact hout ▸ run_of_decodeValue h
    · cases h

theorem out_of_atEnd (h : decodeNext lib entries key w = .atEnd w') : w'.out = w.out := by
  have hend := out_zcborListOrMapEnd lib (w.record (.key w.zsd))
  unfold decodeNext at h
  split at h
  · next w₁ hended =>
    cases h
    rw [hended] at hend
    exact hend
  · split at h
    · unfold decodeValue at h
      dsimp only at h
      split at h <;> split at h <;> cases h
    · cases h

theorem run_of_finished {after : ℕ}
    (h : decodeEntries lib entries fuel key numDecoded w = (.finished after, visits, w')) :
    Run (DecodesInto entries) (visits.filterMap Visit.selected) w.out w'.out := by
  induction fuel generalizing key numDecoded w visits with
  | zero => cases h
  | succ fuel ih =>
    rw [decodeEntries] at h
    split at h
    · split at h
      · next hnext =>
        cases h
        exact out_of_atEnd hnext ▸ .nil _
      · cases h
      · cases h
      · next visit w₁ hnext =>
        obtain ⟨hfinished, htail⟩ := Prod.mk.inj h
        obtain ⟨rfl, hcursor⟩ := Prod.mk.inj htail
        have hrest := ih (Prod.ext hfinished (Prod.ext rfl hcursor))
        have hall := (run_of_decodeNext hnext).append hrest
        cases hselected : visit.selected <;> simpa [List.filterMap_cons, hselected] using hall
    · cases h
      exact .nil _

theorem out_of_mapEndDecode {err ret : ℤ} (h : mapEndDecode lib err w = (some ret, w')) :
    w'.out = w.out := by
  rw [mapEndDecode, okOrReturn] at h
  split at h <;> cases h <;> rfl

/-- **Variables.** Where `zcbor_map_decode` returns zero, the variables have gone through the
decoders of the entries that have been selected, one after the other. -/
theorem run_of_success (h : zcborMapDecodeVisits lib fuel entries w = (visits, some 0, w')) :
    Run (DecodesInto entries) (visits.filterMap Visit.selected) w.out w'.out := by
  unfold zcborMapDecodeVisits at h
  split at h
  · cases h
  · next zsd hstart =>
    obtain ⟨hvisits, hafter⟩ := Prod.mk.inj h
    generalize hloop : decodeEntries lib entries fuel (lib.unassignedKey w.zsd) 0
      { w with zsd := zsd } = loop at hvisits hafter
    obtain ⟨ended, visits', w₁⟩ := loop
    obtain rfl : visits' = visits := hvisits
    cases ended with
    | running => cases hafter
    | returned err =>
      exact absurd (Option.some_inj.mp (congrArg Prod.fst hafter)) (ne_zero_of_returned hloop)
    | finished after =>
      have hrun := run_of_finished hloop
      dsimp only [afterLoop] at hafter
      have hout : w'.out = w₁.out := by
        split_ifs at hafter with hzero hlt
        · exact out_of_mapEndDecode hafter
        · exact congrArg (fun result => result.2.out) hafter.symm
        · exact out_of_mapEndDecode hafter
      exact hout ▸ hrun

/-- The decoder of an entry, where it returns zero, leaves a mark in the variables, and those of
the other entries leave the mark as it is. -/
def Marks (entries : List (ZcborMapEntry S σ)) (i : ℕ) (mark : σ → Prop) : Prop :=
  ∀ j s t, DecodesInto entries j s t → (mark t ↔ mark s ∨ j = i)

theorem mark_of_run {i : ℕ} {mark : σ → Prop} {places : List ℕ} {s t : σ}
    (hmarks : Marks entries i mark) (hrun : Run (DecodesInto entries) places s t) :
    mark t ↔ mark s ∨ i ∈ places := by
  induction hrun with
  | nil => simp
  | cons hfirst _ ih => rw [ih, hmarks _ _ _ hfirst, or_assoc, List.mem_cons, eq_comm]

theorem entryDecoded_iff {i : ℕ}
    (h : zcborMapDecodeVisits lib fuel entries w = (visits, some 0, w')) :
    EntryDecoded visits i ↔ i ∈ visits.filterMap Visit.selected := by
  obtain ⟨-, hcounts⟩ := counts_of_success h
  rw [List.mem_filterMap]
  exact ⟨fun ⟨visit, hmem, hselected, _⟩ => ⟨visit, hmem, hselected⟩,
    fun ⟨visit, hmem, hselected⟩ => ⟨visit, hmem, hselected, (hcounts.passes visit hmem).ret⟩⟩

/-- **Completeness.** When `zcbor_map_decode` returns zero, the decoders of all entries have been
run and have returned zero exactly if no two keys that were looked up select the same entry. -/
theorem everyEntryDecoded_iff
    (h : zcborMapDecodeVisits lib fuel entries w = (visits, some 0, w')) :
    EveryEntryDecoded entries visits ↔ SelectsOnce visits := by
  obtain ⟨-, hpasses, hcount, -⟩ := counts_of_success h
  have hlt : ∀ i ∈ visits.filterMap Visit.selected, i < entries.length := fun i hi => by
    obtain ⟨visit, hvisit, hselected⟩ := List.mem_filterMap.mp hi
    exact (hpasses visit hvisit).lt i hselected
  rw [EveryEntryDecoded, SelectsOnce,
    ← nodup_iff_forall_mem (hcount.trans (Nat.zero_add _)).symm hlt]
  simp only [entryDecoded_iff h]

/-- After `zcbor_map_decode` has returned zero, a mark that an entry leaves is there if it was so
before or the entry has been decoded. -/
theorem mark_of_success {i : ℕ} {mark : σ → Prop} (hmarks : Marks entries i mark)
    (h : zcborMapDecodeVisits lib fuel entries w = (visits, some 0, w')) :
    mark w'.out ↔ mark w.out ∨ EntryDecoded visits i := by
  rw [mark_of_run hmarks (run_of_success h), entryDecoded_iff h]

theorem zcborMapTstrDecode_eq_zero {assign : ZcborString → σ → σ}
    (h : zcborMapTstrDecode lib assign w = (some 0, w')) : ∃ str, w'.out = assign str w.out := by
  unfold zcborMapTstrDecode at h
  split at h <;> cases h
  exact ⟨_, rfl⟩

theorem zcborMapInt64Decode_eq_zero {assign : ℤ → σ → σ}
    (h : zcborMapInt64Decode lib assign w = (some 0, w')) : ∃ value, w'.out = assign value w.out := by
  unfold zcborMapInt64Decode at h
  split at h <;> cases h
  exact ⟨_, rfl⟩

end Golioth.Zcbor

/-! ### Remote procedure calls -/

namespace Golioth.Rpc

open Golioth.Zcbor

variable {S σ : Type} {lib : ZcborDecode S} {fuel : ℕ} {w w' : Cursor S σ}

/-- The variables of `on_rpc` have all been decoded into. -/
structure RpcVars.Assigned (vars : RpcVars S) : Prop where
  id : vars.id.decoded = true
  method : vars.method.decoded = true
  params : vars.params.decoded = true

/-- None of them has been assigned to. -/
structure RpcVars.Unassigned (vars : RpcVars S) : Prop where
  id : vars.id.decoded = false
  method : vars.method.decoded = false
  params : vars.params.decoded = false

theorem out_of_skipParams {ret : ℤ} (h : skipParams lib fuel w = (some ret, w')) :
    w'.out = w.out := by
  induction fuel generalizing w with
  | zero => cases h
  | succ fuel ih =>
    have hend := out_zcborListOrMapEnd lib (w.record (.element w.zsd))
    rw [skipParams] at h
    split at h
    · next w₁ hended =>
      rw [hended] at hend
      rw [okOrReturn] at h
      split at h <;> cases h <;> exact hend
    · next w₁ hended =>
      rw [hended] at hend
      rw [okOrReturn] at h
      split at h
      · exact (ih h).trans hend
      · cases h
        exact hend

theorem paramsDecode_eq_zero {assign : S → σ → σ}
    (h : paramsDecode lib fuel assign w = (some 0, w')) : ∃ zsd, w'.out = assign zsd w.out := by
  rw [paramsDecode] at h
  obtain ⟨-, hnext⟩ := okOrReturn_eq_zero (by decide) (congrArg Prod.fst h)
  rw [hnext] at h
  exact ⟨_, out_of_skipParams h⟩

/-- The decoders of the entries of `on_rpc`, where they return zero. -/
private theorem marks_rpcEntries (lib : ZcborDecode S) (fuel i : ℕ) (mark : RpcVars S → Prop)
    (hid : ∀ str vars, mark { vars with id := { value := str, decoded := true } } ↔
      mark vars ∨ 0 = i)
    (hmethod : ∀ str vars, mark { vars with method := { value := str, decoded := true } } ↔
      mark vars ∨ 1 = i)
    (hparams : ∀ zsd vars, mark { vars with params := { value := zsd, decoded := true } } ↔
      mark vars ∨ 2 = i) : Marks (rpcEntries lib fuel) i mark := by
  rintro j - - ⟨entry, hget, w, w', hdecode, rfl, rfl⟩
  match j with
  | 0 =>
    cases hget
    dsimp only at hdecode
    obtain ⟨str, hout⟩ := zcborMapTstrDecode_eq_zero hdecode
    rw [hout, hid]
  | 1 =>
    cases hget
    dsimp only at hdecode
    obtain ⟨str, hout⟩ := zcborMapTstrDecode_eq_zero hdecode
    rw [hout, hmethod]
  | 2 =>
    cases hget
    dsimp only at hdecode
    obtain ⟨zsd, hout⟩ := paramsDecode_eq_zero hdecode
    rw [hout, hparams]
  | j + 3 => simp [rpcEntries] at hget

/-- **Requests.** When the request of `on_rpc` has been decoded, its variables have been decoded
into exactly if every entry of the table has been decoded. -/
theorem assigned_iff {data : List UInt8} {vars : RpcVars S} (hvars : vars.Unassigned)
    {visits : List (Visit S)} {w : Cursor S (RpcVars S)}
    (h : decodeRpc lib fuel data vars = (visits, some 0, w)) :
    w.out.Assigned ↔ EveryEntryDecoded (rpcEntries lib fuel) visits := by
  have hid := mark_of_success (marks_rpcEntries lib fuel 0 (fun vars => vars.id.decoded = true)
    (by simp) (by simp) (by simp)) h
  have hmethod := mark_of_success (marks_rpcEntries lib fuel 1
    (fun vars => vars.method.decoded = true) (by simp) (by simp) (by simp)) h
  have hparams := mark_of_success (marks_rpcEntries lib fuel 2
    (fun vars => vars.params.decoded = true) (by simp) (by simp) (by simp)) h
  simp only [hvars.id, hvars.method, hvars.params, Bool.false_eq_true, false_or]
    at hid hmethod hparams
  rw [EveryEntryDecoded]
  constructor
  · rintro ⟨h0, h1, h2⟩ i hi
    match i with
    | 0 => exact hid.mp h0
    | 1 => exact hmethod.mp h1
    | 2 => exact hparams.mp h2
    | i + 3 => exact absurd hi (by simp [rpcEntries])
  · intro hall
    exact ⟨hid.mpr (hall 0 (by simp [rpcEntries])), hmethod.mpr (hall 1 (by simp [rpcEntries])),
      hparams.mpr (hall 2 (by simp [rpcEntries]))⟩

end Golioth.Rpc

/-! ### Settings -/

namespace Golioth.Settings

open Golioth.Zcbor

variable {S E α : Type} {lib : ZcborDecode S} {enc : ZcborEncode E} {cb : SettingsCb α}
  {fuel : ℕ} {w w' : Cursor S (SettingsVars E α)}

/-- The settings and the version of `on_setting` have been decoded. -/
structure SettingsVars.Assigned (vars : SettingsVars E α) : Prop where
  settings : vars.settings = true
  version : vars.version.decoded = true

theorem version_applySetting (key : List UInt8) (value : SettingsValue)
    (vars : SettingsVars E α) :
    (applySetting enc cb key value vars).version = vars.version := rfl

theorem version_settingDecode {label : List UInt8} {ret : ℤ}
    (h : settingDecode lib enc cb label w = (some ret, w')) : w'.out.version = w.out.version := by
  unfold settingDecode at h
  dsimp only [readHeader, Cursor.record] at h
  split at h
  · cases h
    exact version_applySetting _ _ _
  · rw [okOrReturn] at h
    split at h <;> cases h <;> rfl

/-- Where the loop of `settings_decode` returns zero, the settings are marked, and the version
is as before. -/
theorem out_decodeSettings (h : decodeSettings lib enc cb fuel w = (some 0, w')) :
    w'.out.settings = true ∧ w'.out.version = w.out.version := by
  induction fuel generalizing w with
  | zero => cases h
  | succ fuel ih =>
    have hend := out_zcborListOrMapEnd lib (w.record (.element w.zsd))
    rw [decodeSettings] at h
    split at h
    · next w₁ hended =>
      rw [hended] at hend
      obtain ⟨-, hnext⟩ := okOrReturn_eq_zero (by decide) (congrArg Prod.fst h)
      rw [hnext] at h
      cases h
      have hversion : w₁.out.version = w.out.version := congrArg SettingsVars.version hend
      exact ⟨rfl, hversion⟩
    · next w₁ hended =>
      rw [hended] at hend
      split at h
      · cases h
      · next label zsd _ =>
        obtain ⟨w₂, hsetting, hnext⟩ := orReturn_eq_zero h
        obtain ⟨hsettings, hversion⟩ := ih hnext
        have hsame := version_settingDecode hsetting
        have hbefore : w₁.out.version = w.out.version := congrArg SettingsVars.version hend
        exact ⟨hsettings, hversion.trans (hsame.trans hbefore)⟩

theorem settingsDecode_eq_zero (h : settingsDecode lib enc cb fuel w = (some 0, w')) :
    w'.out.settings = true ∧ w'.out.version = w.out.version := by
  unfold settingsDecode at h
  split at h
  · cases h
  · obtain ⟨-, hnext⟩ := okOrReturn_eq_zero (by decide) (congrArg Prod.fst h)
    rw [hnext] at h
    have hloop := out_decodeSettings h
    exact hloop

/-- **Settings.** When the request of `on_setting` has been decoded, the settings and the version
have been exactly if every entry of the table has been. -/
theorem assigned_iff {data : List UInt8} {vars : SettingsVars E α}
    (hsettings : vars.settings = false) (hversion : vars.version.decoded = false)
    {visits : List (Visit S)} {w : Cursor S (SettingsVars E α)}
    (h : decodeSetting lib enc cb fuel data vars = (visits, some 0, w)) :
    w.out.Assigned ↔ EveryEntryDecoded (settingsEntries lib enc cb fuel) visits := by
  have hfirst : Marks (settingsEntries lib enc cb fuel) 0 fun vars => vars.settings = true := by
    rintro j - - ⟨entry, hget, w, w', hdecode, rfl, rfl⟩
    match j with
    | 0 =>
      cases hget
      simp [(settingsDecode_eq_zero hdecode).1]
    | 1 =>
      cases hget
      dsimp only at hdecode
      obtain ⟨value, hout⟩ := zcborMapInt64Decode_eq_zero hdecode
      simp [hout]
    | j + 2 => simp [settingsEntries] at hget
  have hsecond : Marks (settingsEntries lib enc cb fuel) 1
      fun vars => vars.version.decoded = true := by
    rintro j - - ⟨entry, hget, w, w', hdecode, rfl, rfl⟩
    match j with
    | 0 =>
      cases hget
      simp [(settingsDecode_eq_zero hdecode).2]
    | 1 =>
      cases hget
      dsimp only at hdecode
      obtain ⟨value, hout⟩ := zcborMapInt64Decode_eq_zero hdecode
      simp [hout]
    | j + 2 => simp [settingsEntries] at hget
  have hzero := mark_of_success hfirst h
  have hone := mark_of_success hsecond h
  simp only [hsettings, hversion, Bool.false_eq_true, false_or] at hzero hone
  rw [EveryEntryDecoded]
  constructor
  · rintro ⟨h0, h1⟩ i hi
    match i with
    | 0 => exact hzero.mp h0
    | 1 => exact hone.mp h1
    | i + 2 => exact absurd hi (by simp [settingsEntries])
  · intro hall
    exact ⟨hzero.mpr (hall 0 (by simp [settingsEntries])),
      hone.mpr (hall 1 (by simp [settingsEntries]))⟩

end Golioth.Settings

/-! ### Firmware manifests -/

namespace Golioth.Fw

open CS Golioth.Zcbor

variable {S : Type} {lib : ZcborDecode S} {fuel : ℕ} {w w' : Cursor S (FwVars S)}

/-- The version and the URI have been decoded. -/
structure FwVars.Assigned (vars : FwVars S) : Prop where
  version : vars.version.decoded = true
  uri : vars.uri.decoded = true

theorem componentEntryDecodeValue_eq_zero {get : FwVars S → ComponentTstrValue}
    {set : ComponentTstrValue → FwVars S → FwVars S}
    (h : componentEntryDecodeValue lib get set w = (some 0, w')) :
    ∃ text, w'.out = set ((get w.out).copy text) w.out := by
  unfold componentEntryDecodeValue at h
  split at h
  · cases h
  · split at h <;> cases h
    exact ⟨_, rfl⟩

/-- What a component whose decoding has returned zero leaves in the variables. -/
structure ComponentDecoded (entries : List (ZcborMapEntry S (FwVars S))) (s t : FwVars S)
    (visits : List (Visit S)) : Prop where
  complete : EveryEntryDecoded entries visits ↔ SelectsOnce visits
  version : t.version.decoded = true ↔ s.version.decoded = true ∨ EntryDecoded visits 0
  uri : t.uri.decoded = true ↔ s.uri.decoded = true ∨ EntryDecoded visits 1
  visits : t.visits = s.visits ++ [visits]

theorem visits_of_decodesInto {i : ℕ} {s t : FwVars S}
    (h : DecodesInto (componentEntries lib) i s t) : t.visits = s.visits := by
  obtain ⟨entry, hget, w, w', hdecode, rfl, rfl⟩ := h
  match i with
  | 0 =>
    cases hget
    dsimp only at hdecode
    obtain ⟨text, hout⟩ := componentEntryDecodeValue_eq_zero hdecode
    rw [hout]
  | 1 =>
    cases hget
    dsimp only at hdecode
    obtain ⟨text, hout⟩ := componentEntryDecodeValue_eq_zero hdecode
    rw [hout]
  | i + 2 => simp [componentEntries] at hget

theorem componentDecode_eq_zero (h : componentDecode lib fuel w = (some 0, w')) :
    ∃ visits, ComponentDecoded (componentEntries lib) w.out w'.out visits := by
  have hversion : Marks (componentEntries lib) 0 fun vars => vars.version.decoded = true := by
    rintro j - - ⟨entry, hget, w, w', hdecode, rfl, rfl⟩
    match j with
    | 0 =>
      cases hget
      dsimp only at hdecode
      obtain ⟨text, hout⟩ := componentEntryDecodeValue_eq_zero hdecode
      simp [hout, ComponentTstrValue.copy]
    | 1 =>
      cases hget
      dsimp only at hdecode
      obtain ⟨text, hout⟩ := componentEntryDecodeValue_eq_zero hdecode
      simp [hout]
    | j + 2 => simp [componentEntries] at hget
  have huri : Marks (componentEntries lib) 1 fun vars => vars.uri.decoded = true := by
    rintro j - - ⟨entry, hget, w, w', hdecode, rfl, rfl⟩
    match j with
    | 0 =>
      cases hget
      dsimp only at hdecode
      obtain ⟨text, hout⟩ := componentEntryDecodeValue_eq_zero hdecode
      simp [hout]
    | 1 =>
      cases hget
      dsimp only at hdecode
      obtain ⟨text, hout⟩ := componentEntryDecodeValue_eq_zero hdecode
      simp [hout, ComponentTstrValue.copy]
    | j + 2 => simp [componentEntries] at hget
  rw [componentDecode] at h
  generalize hrun : zcborMapDecodeVisits lib fuel (componentEntries lib) w = result at h
  obtain ⟨visits, ret, w₁⟩ := result
  obtain ⟨rfl, rfl⟩ := Prod.mk.inj h
  have hvisits : w₁.out.visits = w.out.visits :=
    (run_of_success hrun).invariant (fun vars => vars.visits = w.out.visits)
      (fun _ _ _ hsame hdecodes => (visits_of_decodesInto hdecodes).trans hsame) rfl
  have hmarked := mark_of_success hversion hrun
  have hmarked' := mark_of_success huri hrun
  exact ⟨visits, everyEntryDecoded_iff hrun, hmarked, hmarked', by simp only [hvisits]⟩

theorem componentsDecode_eq_zero (h : componentsDecode lib fuel w = (some 0, w')) :
    ∃ visits, ComponentDecoded (componentEntries lib) w.out w'.out visits := by
  rw [componentsDecode] at h
  obtain ⟨-, hnext⟩ := okOrReturn_eq_zero (by decide) (congrArg Prod.fst h)
  rw [hnext] at h
  obtain ⟨w₁, hcomponent, hend⟩ := orReturn_eq_zero h
  obtain ⟨visits, hdecoded⟩ := componentDecode_eq_zero hcomponent
  obtain ⟨-, hlast⟩ := okOrReturn_eq_zero (by decide) (congrArg Prod.fst hend)
  rw [hlast] at hend
  obtain rfl := (Prod.mk.inj hend).2
  exact ⟨visits, hdecoded⟩

/-- What the entries of the manifest do to the variables of the component. -/
theorem manifest_decodesInto {i : ℕ} {s t : FwVars S}
    (h : DecodesInto (manifestEntries lib fuel) i s t) :
    i = 0 ∧ t.version = s.version ∧ t.uri = s.uri ∧ t.visits = s.visits ∨
      i = 1 ∧ ∃ visits, ComponentDecoded (componentEntries lib) s t visits := by
  obtain ⟨entry, hget, w, w', hdecode, rfl, rfl⟩ := h
  match i with
  | 0 =>
    cases hget
    dsimp only at hdecode
    obtain ⟨value, hout⟩ := zcborMapInt64Decode_eq_zero hdecode
    exact .inl ⟨rfl, by simp [hout]⟩
  | 1 =>
    cases hget
    exact .inr ⟨rfl, componentsDecode_eq_zero hdecode⟩
  | i + 2 => simp [manifestEntries] at hget

/-- The lookups that decoding the components has made, and what they say about the variables. -/
structure Components (lib : ZcborDecode S) (vars : FwVars S) : Prop where
  complete : ∀ visits ∈ vars.visits,
    EveryEntryDecoded (componentEntries lib) visits ↔ SelectsOnce visits
  assigned : vars.visits ≠ [] →
    (∀ visits ∈ vars.visits, EveryEntryDecoded (componentEntries lib) visits) → vars.Assigned

theorem components_decodesInto {i : ℕ} {s t : FwVars S} (hcomponents : Components lib s)
    (h : DecodesInto (manifestEntries lib fuel) i s t) : Components lib t := by
  rcases manifest_decodesInto h with ⟨-, hversion, huri, hvisits⟩ | ⟨-, visits, hdecoded⟩
  · refine ⟨hvisits ▸ hcomponents.complete, fun hne hall => ?_⟩
    obtain ⟨h1, h2⟩ := hcomponents.assigned (hvisits ▸ hne) (hvisits ▸ hall)
    exact ⟨hversion ▸ h1, huri ▸ h2⟩
  · refine ⟨fun visits' hmem => ?_, fun _ hall => ?_⟩
    · rw [hdecoded.visits] at hmem
      rcases List.mem_append.mp hmem with hmem | hmem
      · exact hcomponents.complete visits' hmem
      · exact List.mem_singleton.mp hmem ▸ hdecoded.complete
    · -- the last component that was decoded has both texts
      have hlast := hall visits (by simp [hdecoded.visits])
      exact ⟨hdecoded.version.mpr (.inr (hlast 0 (by simp [componentEntries]))),
        hdecoded.uri.mpr (.inr (hlast 1 (by simp [componentEntries])))⟩

/-- **Manifests.** When a manifest has been parsed, the tables of the components have been
decoded completely exactly if no two keys select the same entry; and if both tables have been,
the version and the URI have been decoded. -/
theorem assigned_of_everyEntryDecoded {payload : List UInt8} {vars : FwVars S}
    (hvars : vars.visits = []) {visits : List (Visit S)} {w : Cursor S (FwVars S)}
    (h : goliothFwDesiredParseVisits lib fuel payload vars = (visits, some 0, w)) :
    (∀ inner ∈ w.out.visits, EveryEntryDecoded (componentEntries lib) inner ↔ SelectsOnce inner) ∧
      (EveryEntryDecoded (manifestEntries lib fuel) visits →
        (∀ inner ∈ w.out.visits, EveryEntryDecoded (componentEntries lib) inner) →
        w.out.Assigned) := by
  have hinit : Components lib vars := ⟨by simp [hvars], fun hne => absurd hvars hne⟩
  have hcomponents : Components lib w.out :=
    (run_of_success h).invariant (Components lib)
      (fun _ _ _ hcomponents hdecodes => components_decodesInto hcomponents hdecodes) hinit
  have hmarks : Marks (manifestEntries lib fuel) 1 fun vars => vars.visits ≠ [] := by
    intro j s t hdecodes
    rcases manifest_decodesInto hdecodes with ⟨rfl, -, -, hvisits⟩ | ⟨rfl, visits, hdecoded⟩
    · simp [hvisits]
    · simp [hdecoded.visits]
  have hmarked := mark_of_success hmarks h
  refine ⟨hcomponents.complete, fun hevery hall => hcomponents.assigned ?_ hall⟩
  exact hmarked.mpr (.inr (hevery 1 (by simp [manifestEntries])))

end Golioth.Fw

/-! ## The outcome -/

namespace Golioth.Zcbor

/-- **Complete decoding.** When `zcbor_map_decode` returns zero, for whatever payload and table,
the decoder of every entry has been run and has returned zero exactly if no two of the keys that
were looked up select the same entry. In particular this decides whether `on_rpc` and
`on_setting` go on with variables that have all been decoded, and if it holds of the maps of a
manifest, `golioth_fw_desired_parse` has decoded the version and the URI. -/
theorem completely_decoded_iff {S E α σ : Type} (lib : ZcborDecode S) (enc : ZcborEncode E)
    (cb : Settings.SettingsCb α) (fuel : ℕ) :
    (∀ (entries : List (ZcborMapEntry S σ)) (w : Cursor S σ) visits w',
      zcborMapDecodeVisits lib fuel entries w = (visits, some 0, w') →
        (EveryEntryDecoded entries visits ↔ SelectsOnce visits)) ∧
    (∀ data (vars : Rpc.RpcVars S) visits w, vars.Unassigned →
      Rpc.decodeRpc lib fuel data vars = (visits, some 0, w) →
        (w.out.Assigned ↔ SelectsOnce visits)) ∧
    (∀ data maxResponseLen app version visits w,
      Settings.decodeSetting lib enc cb fuel data
          (Settings.settingsVars enc maxResponseLen app version) = (visits, some 0, w) →
        (w.out.Assigned ↔ SelectsOnce visits)) ∧
    (∀ payload (vars : Fw.FwVars S) visits w, vars.visits = [] →
      Fw.goliothFwDesiredParseVisits lib fuel payload vars = (visits, some 0, w) →
        SelectsOnce visits → (∀ inner ∈ w.out.visits, SelectsOnce inner) → w.out.Assigned) := by
  refine ⟨fun entries w visits w' h => everyEntryDecoded_iff h, fun data vars visits w hvars h => ?_,
    fun data maxResponseLen app version visits w h => ?_,
    fun payload vars visits w hvars h honce hinner => ?_⟩
  · exact (Rpc.assigned_iff hvars h).trans (everyEntryDecoded_iff h)
  · exact (Settings.assigned_iff rfl rfl h).trans (everyEntryDecoded_iff h)
  · obtain ⟨hcomplete, hassigned⟩ := Fw.assigned_of_everyEntryDecoded hvars h
    exact hassigned ((everyEntryDecoded_iff h).mpr honce) fun inner hmem =>
      (hcomplete inner hmem).mpr (hinner inner hmem)

/-- A request to call a method: `{"id": "a", "method": "m", "params": []}`. -/
def methodCall : List UInt8 :=
  [0xa3, 0x62, 0x69, 0x64, 0x61, 0x61, 0x66, 0x6d, 0x65, 0x74, 0x68, 0x6f, 0x64, 0x61, 0x6d,
    0x66, 0x70, 0x61, 0x72, 0x61, 0x6d, 0x73, 0x80]

theorem completely_decoded_iff_methodCall :
    ∃ visits w, Rpc.decodeRpc Reference.library 4 methodCall unassignedRpc = (visits, some 0, w) ∧
      SelectsOnce visits ∧ w.out.Assigned := by
  have hfacts : (Rpc.decodeRpc Reference.library 4 methodCall unassignedRpc).2.1 = some 0 ∧
      ((Rpc.decodeRpc Reference.library 4 methodCall unassignedRpc).1.filterMap
        Visit.selected) = [0, 1, 2] := by
    decide
  generalize hrun : Rpc.decodeRpc Reference.library 4 methodCall unassignedRpc = run at hfacts
  obtain ⟨visits, ret, w⟩ := run
  obtain ⟨rfl, hselected⟩ := hfacts
  have honce : SelectsOnce visits := by
    rw [SelectsOnce, hselected]
    decide
  have hiff := completely_decoded_iff (σ := Unit) Reference.library Reference.encoder
    (fun _ _ calls => (0, calls + 1) : Settings.SettingsCb ℕ) 4
  exact ⟨visits, w, rfl, honce,
    (hiff.2.1 methodCall unassignedRpc visits w ⟨rfl, rfl, rfl⟩ hrun).mpr honce⟩

/-- A request that gives its id three times: `{"id": "a", "id": "b", "id": "c"}`. -/
def tripleId : List UInt8 :=
  [0xa3, 0x62, 0x69, 0x64, 0x61, 0x61, 0x62, 0x69, 0x64, 0x61, 0x62, 0x62, 0x69, 0x64, 0x61, 0x63]

theorem tripleId_incomplete :
    ∃ visits w, Rpc.decodeRpc Reference.library 4 tripleId unassignedRpc = (visits, some 0, w) ∧
      ¬ EveryEntryDecoded (Rpc.rpcEntries Reference.library 4) visits ∧
      w.out.method.decoded = false ∧ w.out.params.decoded = false := by
  have hfacts : (Rpc.decodeRpc Reference.library 4 tripleId unassignedRpc).2.1 = some 0 ∧
      ((Rpc.decodeRpc Reference.library 4 tripleId unassignedRpc).1.filterMap
        Visit.selected) = [0, 0, 0] ∧
      (Rpc.decodeRpc Reference.library 4 tripleId unassignedRpc).2.2.out.method.decoded = false ∧
      (Rpc.decodeRpc Reference.library 4 tripleId unassignedRpc).2.2.out.params.decoded = false := by
    decide
  generalize Rpc.decodeRpc Reference.library 4 tripleId unassignedRpc = run at hfacts
  obtain ⟨visits, ret, w⟩ := run
  obtain ⟨rfl, hselected, hmethod, hparams⟩ := hfacts
  refine ⟨visits, w, rfl, fun hevery => ?_, hmethod, hparams⟩
  -- the second entry is the one for the method
  obtain ⟨visit, hmem, hvisit, -⟩ := hevery 1 (by simp [Rpc.rpcEntries])
  have hone : 1 ∈ visits.filterMap Visit.selected := List.mem_filterMap.mpr ⟨visit, hmem, hvisit⟩
  simp [hselected] at hone

end Golioth.Zcbor
