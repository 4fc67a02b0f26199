/-
# Responses to settings

`add_error_to_response` does not look at what the encoder returns. An item that there is
no room for is left out, and shorter ones that come after it may be written, up to the end
of the response. What is sent then is not the response to the settings.
-/
import Golioth.CS.CborTokens
import Golioth.Rpc.Dispatch
import Golioth.Settings.Dispatch

namespace Golioth.Settings

open CS CS.Cbor Golioth.Zcbor Golioth.Requests
open Golioth.Rpc (Replied Sends contentFormatAppCbor isOk sends_of_ne)

variable {S E κ α β : Type}

/-! ## Items that there is room for -/

/-- The items that are written where an item that there is no room for is left out, and how much
room is left. -/
def squeeze : (items : List (List UInt8)) → (room : ℕ) → List (List UInt8) × ℕ
  | [], room => ([], room)
  | item :: items, room =>
    if item.length ≤ room then
      (item :: (squeeze items (room - item.length)).1, (squeeze items (room - item.length)).2)
    else squeeze items room

section Squeeze

variable {items items' : List (List UInt8)} {room : ℕ}

theorem squeeze_append (items items' : List (List UInt8)) (room : ℕ) :
    squeeze (items ++ items') room =
      ((squeeze items room).1 ++ (squeeze items' (squeeze items room).2).1,
        (squeeze items' (squeeze items room).2).2) := by
  induction items generalizing room with
  | nil => rfl
  | cons item items ih =>
    rw [List.cons_append, squeeze, squeeze]
    split
    · rw [ih]
      rfl
    · exact ih room

theorem squeeze_snd_le (items : List (List UInt8)) (room : ℕ) : (squeeze items room).2 ≤ room := by
  induction items generalizing room with
  | nil => exact le_rfl
  | cons item items ih =>
    rw [squeeze]
    split
    · exact (ih _).trans (Nat.sub_le _ _)
    · exact ih room

/-- Where there is room for all items, all are written. -/
theorem squeeze_of_le (h : items.flatten.length ≤ room) :
    squeeze items room = (items, room - items.flatten.length) := by
  induction items generalizing room with
  | nil => rfl
  | cons item items ih =>
    rw [List.flatten_cons, List.length_append] at h
    rw [squeeze, if_pos (by omega), ih (by omega), List.flatten_cons, List.length_append,
      Nat.sub_sub]

/-- Where room is left, an item that has been left out is not a single byte, so that what has been
written says less. -/
theorem tokens_squeeze
    (hitems : ∀ item ∈ items, ∃ leaves, Token item leaves ∧ (leaves = [] → item.length = 1))
    (hroom : 1 ≤ (squeeze items room).2) :
    ∃ kept all, Tokens (squeeze items room).1.flatten kept ∧ Tokens items.flatten all ∧
      kept.length ≤ all.length ∧ (room < items.flatten.length → kept.length < all.length) := by
  induction items generalizing room with
  | nil => exact ⟨[], [], .nil, .nil, le_rfl, by simp⟩
  | cons item items ih =>
    obtain ⟨⟨leaves, htoken, hsingle⟩, hitems⟩ := List.forall_mem_cons.mp hitems
    by_cases hfits : item.length ≤ room
    · rw [squeeze, if_pos hfits] at hroom ⊢
      obtain ⟨kept, all, hkept, hall, hle, hlt⟩ := ih hitems hroom
      refine ⟨leaves ++ kept, leaves ++ all, .cons htoken hkept, .cons htoken hall, ?_, ?_⟩
      · simpa using hle
      · intro hfull
        rw [List.flatten_cons, List.length_append] at hfull
        simpa using hlt (by omega)
    · rw [squeeze, if_neg hfits] at hroom ⊢
      obtain ⟨kept, all, hkept, hall, hle, -⟩ := ih hitems hroom
      have hleaves : leaves ≠ [] := by
        intro hnil
        have := hsingle hnil
        have := squeeze_snd_le items room
        omega
      have hpos : 0 < leaves.length := List.length_pos_iff.mpr hleaves
      refine ⟨kept, leaves ++ all, hkept, .cons htoken hall, ?_, fun _ => ?_⟩
      all_goals
        rw [List.length_append]
        omega

end Squeeze

/-- Of the items, those that there has been room for have been written. -/
def Squeezed (e : Encoding E) (items : List (List UInt8)) (maxLen : ℕ) (zse : E) : Prop :=
  e.At zse (squeeze items maxLen).1.flatten (squeeze items maxLen).2

theorem Squeezed.put {e : Encoding E} {items : List (List UInt8)} {maxLen : ℕ} {zse : E}
    (h : Squeezed e items maxLen zse) {encode : E → Bool × E} {item : List UInt8}
    (hputs : Puts e encode item) : Squeezed e (items ++ [item]) maxLen (encode zse).2 := by
  rw [Squeezed, squeeze_append, squeeze]
  split
  · next hfits =>
    obtain ⟨zse', heq, hat⟩ := hputs.fits h hfits
    rw [heq]
    simpa [squeeze] using hat
  · next hfull =>
    obtain ⟨zse', heq, hat⟩ := hputs.full h (not_le.mp hfull)
    rw [heq]
    simpa [squeeze] using hat

/-! ## What is written -/

/-- What `add_error_to_response` writes for an error. -/
def errorItems (e : Encoding E) (error : List UInt8 × ℤ) : List (List UInt8) :=
  [mapHead, e.text (ascii "setting_key"), e.text error.1, e.text (ascii "error_code"),
    e.integer error.2, [breakCode]]

/-- What `response_init` and `add_error_to_response` write. -/
def responseItems (e : Encoding E) (errors : List (List UInt8 × ℤ)) : List (List UInt8) :=
  mapHead :: (if errors = [] then []
    else e.text (ascii "errors") :: listHead :: errors.flatMap (errorItems e))

/-- What `finalize_and_send_response` writes. -/
def endBytes (e : Encoding E) (errors : List (List UInt8 × ℤ)) (version : ℤ) : List UInt8 :=
  (if errors = [] then [] else [breakCode]) ++
    (e.text (ascii "version") ++ (e.integer version ++ [breakCode]))

/-- The value is of type `int64_t`. -/
def InInt64 (value : ℤ) : Prop := -2 ^ 63 ≤ value ∧ value < 2 ^ 63

section Written

variable {enc : ZcborEncode E} {e : Encoding E} {errors done : List (List UInt8 × ℤ)}
  {error : List UInt8 × ℤ} {response : SettingsResponse E} {maxLen : ℕ} {version : ℤ}

theorem responseItems_concat (e : Encoding E) (errors : List (List UInt8 × ℤ))
    (error : List UInt8 × ℤ) :
    responseItems e (errors ++ [error]) = responseItems e errors ++
      ((if errors = [] then [e.text (ascii "errors"), listHead] else []) ++ errorItems e error) := by
  by_cases hnil : errors = []
  · simp [responseItems, hnil]
  · simp [responseItems, hnil]

/-- An error is added. -/
theorem addErrorToResponse_squeezed (henc : Writes enc e) (hcode : InInt64 error.2)
    (hnum : response.numErrors = errors.length)
    (h : Squeezed e (responseItems e errors) maxLen response.zse) :
    Squeezed e (responseItems e (errors ++ [error])) maxLen
      (addErrorToResponse enc error.1 error.2 response).zse := by
  have hstart : Squeezed e (responseItems e errors ++
      if errors = [] then [e.text (ascii "errors"), listHead] else []) maxLen
      (if response.numErrors = 0 then
        (enc.listStartEncode sizeMax (enc.tstrEncode (ascii "errors") response.zse).2).2
      else response.zse) := by
    by_cases hnil : errors = []
    · have hzero : response.numErrors = 0 := by rw [hnum, hnil, List.length_nil]
      have hlist := (h.put (henc.tstr (ascii "errors"))).put (henc.listStart sizeMax)
      rw [if_pos hzero, if_pos hnil]
      simpa using hlist
    · have hzero : response.numErrors ≠ 0 := by
        rw [hnum]
        exact fun hlen => hnil (List.length_eq_zero_iff.mp hlen)
      rw [if_neg hzero, if_neg hnil, List.append_nil]
      exact h
  have hitems := (((((hstart.put (henc.mapStart 2)).put (henc.tstr (ascii "setting_key"))).put
    (henc.tstr error.1)).put (henc.tstr (ascii "error_code"))).put
    (henc.int64 error.2 hcode.1 hcode.2)).put (henc.mapEnd 2)
  rw [responseItems_concat, addErrorToResponse]
  simpa [errorItems] using hitems

/-- **Run.** After the errors have been added, what there has been room for has been written. -/
theorem addErrors_squeezed (henc : Writes enc e) (hcodes : ∀ error ∈ errors, InInt64 error.2)
    (hnum : response.numErrors = done.length)
    (h : Squeezed e (responseItems e done) maxLen response.zse) :
    Squeezed e (responseItems e (done ++ errors)) maxLen (addErrors enc errors response).zse ∧
      (addErrors enc errors response).numErrors = (done ++ errors).length := by
  induction errors generalizing done response with
  | nil => simpa [addErrors] using ⟨h, hnum⟩
  | cons error errors ih =>
    obtain ⟨hcode, hcodes⟩ := List.forall_mem_cons.mp hcodes
    have hadded := addErrorToResponse_squeezed henc hcode hnum h
    have hnext := @ih (done ++ [error]) (addErrorToResponse enc error.1 error.2 response) hcodes
      (by simp [addErrorToResponse, hnum]) hadded
    rw [List.append_assoc] at hnext
    exact hnext

theorem responseInit_squeezed (henc : Writes enc e) (maxLen : ℕ) :
    Squeezed e (responseItems e []) maxLen (responseInit enc maxLen).zse := by
  have hnew : Squeezed e [] maxLen (enc.newEncodeState maxLen 1) := henc.newEncodeState maxLen 1
  exact hnew.put (henc.mapStart sizeMax)

/-- The response is sent if there is room for its end. -/
theorem finalizeResponse_eq (henc : Writes enc e) (hversion : InInt64 version)
    (hnum : response.numErrors = errors.length)
    (h : Squeezed e (responseItems e errors) maxLen response.zse) :
    finalizeResponse enc response version =
      if (endBytes e errors version).length ≤ (squeeze (responseItems e errors) maxLen).2
      then .ok ((squeeze (responseItems e errors) maxLen).1.flatten ++ endBytes e errors version)
      else .error (-Errno.enomem) := by
  have hversionParts := (henc.tstr (ascii "version")).emits.bind
    ((henc.int64 version hversion.1 hversion.2).emits.bind (henc.mapEnd 1).emits)
  by_cases hnil : errors = []
  · have hzero : ¬ 0 < response.numErrors := by
      rw [hnum, hnil]
      exact lt_irrefl 0
    have hbytes : endBytes e errors version =
        e.text (ascii "version") ++ (e.integer version ++ [breakCode]) := by
      rw [endBytes, if_pos hnil, List.nil_append]
    rw [hbytes, ← hversionParts.encoded henc h, finalizeResponse, if_neg hzero]
    simp only [bind_assoc]
    rfl
  · have hpos : 0 < response.numErrors := by
      rw [hnum]
      exact List.length_pos_iff.mpr hnil
    have hbytes : endBytes e errors version =
        [breakCode] ++ (e.text (ascii "version") ++ (e.integer version ++ [breakCode])) := by
      rw [endBytes, if_neg hnil]
    have hparts := (henc.listEnd sizeMax).emits.bind hversionParts
    rw [hbytes, ← hparts.encoded henc h, finalizeResponse, if_pos hpos]
    simp only [bind_assoc]

end Written

/-! ## What a response is -/

/-- The item says which setting has failed and how. -/
def IsError (profile : Profile) (error : List UInt8 × ℤ) (item : List UInt8) : Prop :=
  ∃ framing pairs keyPair codePair, IsMap profile framing pairs item ∧
    (pairs = [keyPair, codePair] ∨ pairs = [codePair, keyPair]) ∧
    TextEntry profile (ascii "setting_key") (TextItem profile error.1) keyPair ∧
    TextEntry profile (ascii "error_code") (IntegerItem error.2) codePair

/-- The item lists the errors in their order. -/
def IsErrors (profile : Profile) (errors : List (List UInt8 × ℤ)) (item : List UInt8) : Prop :=
  ∃ framing items, IsList profile framing items item ∧
    List.Forall₂ (IsError profile) errors items

/-- The payload is a response: a map with the version, and a list of the errors if there are
any. -/
def IsResponse (profile : Profile) (version : ℤ) (errors : List (List UInt8 × ℤ))
    (payload : List UInt8) : Prop :=
  ∃ framing pairs versionPair, IsMap profile framing pairs payload ∧
    TextEntry profile (ascii "version") (IntegerItem version) versionPair ∧
    (errors = [] → pairs = [versionPair]) ∧
    (errors ≠ [] → ∃ errorsPair,
      (pairs = [versionPair, errorsPair] ∨ pairs = [errorsPair, versionPair]) ∧
      TextEntry profile (ascii "errors") (IsErrors profile errors) errorsPair)

def errorLeaves (error : List UInt8 × ℤ) : List Leaf :=
  [.text (ascii "setting_key"), .text error.1, .text (ascii "error_code"), .integer error.2]

def versionLeaves (version : ℤ) : List Leaf := [.text (ascii "version"), .integer version]

/-- The leaves of an error, in either order of its entries. -/
def TellsError (error : List UInt8 × ℤ) (leaves : List Leaf) : Prop :=
  leaves = errorLeaves error ∨ leaves =
    [.text (ascii "error_code"), .integer error.2, .text (ascii "setting_key"), .text error.1]

/-- The leaves of a response, in either order of its entries. -/
def TellsResponse (version : ℤ) (errors : List (List UInt8 × ℤ)) (leaves : List Leaf) : Prop :=
  ∃ chunks, List.Forall₂ TellsError errors chunks ∧
    (errors = [] → leaves = versionLeaves version) ∧
    (errors ≠ [] → leaves = versionLeaves version ++ (.text (ascii "errors") :: chunks.flatten) ∨
      leaves = .text (ascii "errors") :: (chunks.flatten ++ versionLeaves version))

section Tells

variable {profile : Profile} {version : ℤ} {errors written : List (List UInt8 × ℤ)}
  {payload item : List UInt8} {leaves : List Leaf}

theorem IsError.tokens {error : List UInt8 × ℤ} (h : IsError profile error item) :
    ∃ leaves, Tokens item leaves ∧ TellsError error leaves := by
  obtain ⟨framing, pairs, keyPair, codePair, hmap, hpairs, hkey, hcode⟩ := h
  have hkeyTokens := hkey.tokens hkey.value.token.tokens
  have hcodeTokens := hcode.tokens hcode.value.token.tokens
  rcases hpairs with rfl | rfl
  · exact ⟨_, hmap.tokens (tokens_pair hkeyTokens hcodeTokens), .inl rfl⟩
  · exact ⟨_, hmap.tokens (tokens_pair hcodeTokens hkeyTokens), .inr rfl⟩

/-- What a response says. -/
theorem IsResponse.tokens (h : IsResponse profile version errors payload) :
    ∃ leaves, Tokens payload leaves ∧ TellsResponse version errors leaves := by
  obtain ⟨framing, pairs, versionPair, hmap, hversion, hnone, hsome⟩ := h
  have hversionTokens := hversion.tokens hversion.value.token.tokens
  by_cases hnil : errors = []
  · obtain rfl := hnone hnil
    have hpairs : Tokens (pairBytes [versionPair]) (versionLeaves version) := by
      simpa [pairBytes, versionLeaves] using hversionTokens
    exact ⟨_, hmap.tokens hpairs, [], hnil ▸ .nil, fun _ => rfl, fun hne => absurd hnil hne⟩
  · obtain ⟨errorsPair, hpairs, herrors⟩ := hsome hnil
    obtain ⟨listFraming, items, ⟨head, hopens, hitem⟩, hitems⟩ := herrors.value
    obtain ⟨chunks, hchunks, htells⟩ := tokens_flatten
      (fun error item (herror : IsError profile error item) => herror.tokens) hitems
    have hvalue : Tokens errorsPair.value chunks.flatten := by
      rw [hitem]
      simpa using (hopens.token (.inl rfl)).tokens.append (hchunks.append listFraming.tokens_close)
    have herrorsTokens := herrors.tokens hvalue
    rcases hpairs with rfl | rfl
    · exact ⟨_, hmap.tokens (tokens_pair hversionTokens herrorsTokens), chunks, htells,
        fun h => absurd h hnil, fun _ => .inl rfl⟩
    · exact ⟨_, hmap.tokens (tokens_pair herrorsTokens hversionTokens), chunks, htells,
        fun h => absurd h hnil, fun _ => .inr rfl⟩

theorem TellsError.length_eq {error : List UInt8 × ℤ} (h : TellsError error leaves) :
    leaves.length = 4 := by
  rcases h with rfl | rfl <;> rfl

theorem length_chunks {chunks : List (List Leaf)} (h : List.Forall₂ TellsError errors chunks) :
    chunks.flatten.length = 4 * errors.length := by
  induction h with
  | nil => rfl
  | cons hchunk _ ih =>
    rw [List.flatten_cons, List.length_append, List.length_cons, hchunk.length_eq, ih]
    omega

/-- How many leaves there are depends on the number of errors only. -/
theorem TellsResponse.length_eq (h : TellsResponse version errors leaves) :
    leaves.length = if errors = [] then 2 else 3 + 4 * errors.length := by
  obtain ⟨chunks, hchunks, hnone, hsome⟩ := h
  split
  · next hnil => rw [hnone hnil]; rfl
  · next hnil =>
    have hlen := length_chunks hchunks
    rcases hsome hnil with rfl | rfl <;>
      simp only [List.length_append, List.length_cons, versionLeaves, List.length_nil, hlen] <;>
      omega

/-- The leaves of what is written for errors. -/
def writtenLeaves (version : ℤ) (written : List (List UInt8 × ℤ)) : List Leaf :=
  (if written = [] then [] else .text (ascii "errors") :: written.flatMap errorLeaves) ++
    versionLeaves version

/-- What is written for errors says them and no others. -/
theorem written_eq_of_tells (hlen : written.length = errors.length)
    (h : TellsResponse version errors (writtenLeaves version written)) : written = errors := by
  obtain ⟨chunks, hchunks, -, hsome⟩ := h
  by_cases hnil : errors = []
  · rw [hnil, List.length_nil] at hlen
    rw [hnil, List.length_eq_zero_iff.mp hlen]
  · have hwritten : written ≠ [] := by
      rintro rfl
      exact hnil (List.length_eq_zero_iff.mp hlen.symm)
    have hsame : chunks.flatten = written.flatMap errorLeaves := by
      have hsome := hsome hnil
      rw [writtenLeaves, if_neg hwritten] at hsome
      rcases hsome with heq | heq
      · -- the errors are written first
        have hfirst := (List.cons.inj heq).1
        exact absurd hfirst (by decide)
      · exact (List.append_cancel_right (List.cons.inj heq).2).symm
    clear hsome hnil hwritten
    induction hchunks generalizing written with
    | nil => exact List.length_eq_zero_iff.mp hlen
    | @cons error chunk errors chunks hchunk _ ih =>
      cases written with
      | nil => cases hlen
      | cons error' written =>
        rw [List.flatten_cons, List.flatMap_cons] at hsame
        obtain ⟨hfirst, hrest⟩ := List.append_inj hsame hchunk.length_eq
        rw [ih (Nat.succ_injective hlen) hrest]
        rcases hchunk with rfl | rfl
        · simp only [errorLeaves, List.cons.injEq, Leaf.text.injEq, Leaf.integer.injEq, and_true,
            true_and] at hfirst
          rw [Prod.ext hfirst.1.symm hfirst.2.symm]
        · -- the key is written first
          have hlabel := (List.cons.inj hfirst).1
          exact absurd hlabel (by decide)

end Tells

/-! ## Which responses are sent -/

section Sent

variable {enc : ZcborEncode E} {e : Encoding E} {version : ℤ} {maxLen : ℕ}
  {errors written : List (List UInt8 × ℤ)}

/-- The items of a response, each with what it says. -/
theorem responseItems_tokens (henc : Writes enc e)
    (hkeys : ∀ error ∈ errors, error.1.length < sizeModulus)
    (hcodes : ∀ error ∈ errors, InInt64 error.2) :
    ∀ item ∈ responseItems e errors,
      ∃ leaves, Token item leaves ∧ (leaves = [] → item.length = 1) := by
  have htext : ∀ text : List UInt8, text.length < sizeModulus →
      ∃ leaves, Token (e.text text) leaves ∧ (leaves = [] → (e.text text).length = 1) :=
    fun text hlen => ⟨_, (henc.text text hlen).token, by simp⟩
  have hmark : Token [breakCode] [] := token_breakCode
  have hmapHead : Token mapHead [] := (opens_mapHead e.profile 0).token (.inr rfl)
  have hlistHead : Token listHead [] := (opens_listHead e.profile 0).token (.inl rfl)
  have hitems : ∀ item ∈ errors.flatMap (errorItems e), ∃ leaves, Token item leaves ∧
      (leaves = [] → item.length = 1) := by
    intro item hitem
    obtain ⟨error, herror, hitem⟩ := List.mem_flatMap.mp hitem
    obtain ⟨hlow, hhigh⟩ := hcodes error herror
    simp only [errorItems, List.mem_cons, List.not_mem_nil, or_false] at hitem
    rcases hitem with rfl | rfl | rfl | rfl | rfl | rfl
    · exact ⟨_, hmapHead, fun _ => rfl⟩
    · exact htext _ (by decide)
    · exact htext _ (hkeys error herror)
    · exact htext _ (by decide)
    · exact ⟨_, (henc.integer error.2 hlow (by omega)).token, by simp⟩
    · exact ⟨_, hmark, fun _ => rfl⟩
  intro item hitem
  rw [responseItems, List.mem_cons] at hitem
  rcases hitem with rfl | hitem
  · exact ⟨_, hmapHead, fun _ => rfl⟩
  · split at hitem
    · cases hitem
    · rw [List.mem_cons, List.mem_cons] at hitem
      rcases hitem with rfl | rfl | hitem
      · exact htext _ (by decide)
      · exact ⟨_, hlistHead, fun _ => rfl⟩
      · exact hitems item hitem

/-- The item that is written for an error. -/
def errorBytes (e : Encoding E) (error : List UInt8 × ℤ) : List UInt8 :=
  mapHead ++ (pairBytes [textPair e (ascii "setting_key") (e.text error.1),
    textPair e (ascii "error_code") (e.integer error.2)] ++ [breakCode])

theorem flatten_errorItems (e : Encoding E) (errors : List (List UInt8 × ℤ)) :
    (errors.flatMap (errorItems e)).flatten = (errors.map (errorBytes e)).flatten := by
  induction errors with
  | nil => rfl
  | cons error errors ih =>
    rw [List.flatMap_cons, List.flatten_append, ih, List.map_cons, List.flatten_cons]
    simp [errorItems, errorBytes, pairBytes, textPair, Pair.bytes]

theorem isError_errorBytes (henc : Writes enc e) {error : List UInt8 × ℤ}
    (hkey : error.1.length < sizeModulus) (hcode : InInt64 error.2) :
    IsError e.profile error (errorBytes e error) := by
  have hkeyEntry : TextEntry e.profile (ascii "setting_key") (TextItem e.profile error.1)
      (textPair e (ascii "setting_key") (e.text error.1)) :=
    henc.textEntry (by decide) (henc.text error.1 hkey)
  have hcodeEntry : TextEntry e.profile (ascii "error_code") (IntegerItem error.2)
      (textPair e (ascii "error_code") (e.integer error.2)) :=
    henc.textEntry (by decide) (henc.integer error.2 hcode.1 (by have := hcode.2; omega))
  exact ⟨.indefinite, _, _, _, ⟨mapHead, opens_mapHead _ _, rfl⟩, .inl rfl, hkeyEntry, hcodeEntry⟩

/-- All of the items and the end are the response to the errors. -/
theorem isResponse_responseItems (henc : Writes enc e)
    (hkeys : ∀ error ∈ errors, error.1.length < sizeModulus)
    (hcodes : ∀ error ∈ errors, InInt64 error.2) (hversion : InInt64 version) :
    IsResponse e.profile version errors
      ((responseItems e errors).flatten ++ endBytes e errors version) := by
  have hversionEntry : TextEntry e.profile (ascii "version") (IntegerItem version)
      (textPair e (ascii "version") (e.integer version)) :=
    henc.textEntry (by decide) (henc.integer version hversion.1 (by have := hversion.2; omega))
  by_cases hnil : errors = []
  · refine ⟨.indefinite, [textPair e (ascii "version") (e.integer version)], _,
      ⟨mapHead, opens_mapHead _ _, ?_⟩, hversionEntry, fun _ => rfl, fun h => absurd hnil h⟩
    simp [responseItems, endBytes, hnil, pairBytes, textPair, Pair.bytes, Framing.close]
  · set item := listHead ++ ((errors.map (errorBytes e)).flatten ++ [breakCode]) with hitem
    have hitems : List.Forall₂ (IsError e.profile) errors (errors.map (errorBytes e)) := by
      rw [List.forall₂_map_right_iff]
      exact List.forall₂_same.mpr fun error herror =>
        isError_errorBytes henc (hkeys error herror) (hcodes error herror)
    have herrors : IsErrors e.profile errors item :=
      ⟨.indefinite, _, ⟨listHead, opens_listHead _ _, rfl⟩, hitems⟩
    have herrorsEntry : TextEntry e.profile (ascii "errors") (IsErrors e.profile errors)
        (textPair e (ascii "errors") item) := henc.textEntry (by decide) herrors
    refine ⟨.indefinite, _, _, ⟨mapHead, opens_mapHead _ _, ?_⟩, hversionEntry,
      fun h => absurd h hnil, fun _ => ⟨_, .inr rfl, herrorsEntry⟩⟩
    simp [responseItems, endBytes, hnil, pairBytes, textPair, Pair.bytes, Framing.close, hitem,
      flatten_errorItems]

/-- What all items say, up to the end. -/
theorem tokens_responseItems (henc : Writes enc e)
    (hkeys : ∀ error ∈ errors, error.1.length < sizeModulus)
    (hcodes : ∀ error ∈ errors, InInt64 error.2) :
    Tokens (responseItems e errors).flatten
      (if errors = [] then [] else .text (ascii "errors") :: errors.flatMap errorLeaves) := by
  have hmapHead : Tokens mapHead [] := ((opens_mapHead e.profile 0).token (.inr rfl)).tokens
  have hlistHead : Tokens listHead [] := ((opens_listHead e.profile 0).token (.inl rfl)).tokens
  have herrors : Tokens (errors.map (errorBytes e)).flatten (errors.flatMap errorLeaves) := by
    induction errors with
    | nil => exact .nil
    | cons error errors ih =>
      obtain ⟨hkey, hkeys⟩ := List.forall_mem_cons.mp hkeys
      obtain ⟨hcode, hcodes⟩ := List.forall_mem_cons.mp hcodes
      have hkeyTokens := (henc.text error.1 hkey).token.tokens
      have hcodeTokens := (henc.integer error.2 hcode.1 (by have := hcode.2; omega)).token.tokens
      have hkeyEntry : Tokens (textPair e (ascii "setting_key") (e.text error.1)).bytes _ :=
        (henc.text (ascii "setting_key") (by decide)).token.tokens.append hkeyTokens
      have hcodeEntry : Tokens (textPair e (ascii "error_code") (e.integer error.2)).bytes _ :=
        (henc.text (ascii "error_code") (by decide)).token.tokens.append hcodeTokens
      have herror : Tokens (errorBytes e error) (errorLeaves error) :=
        hmapHead.append ((tokens_pair hkeyEntry hcodeEntry).append token_breakCode.tokens)
      rw [List.map_cons, List.flatten_cons, List.flatMap_cons]
      exact herror.append (ih hkeys hcodes)
  by_cases hnil : errors = []
  · rw [if_pos hnil, responseItems, if_pos hnil]
    simpa using hmapHead
  · have htext := (henc.text (ascii "errors") (by decide)).token.tokens
    rw [if_neg hnil, responseItems, if_neg hnil]
    simpa [flatten_errorItems] using hmapHead.append (htext.append (hlistHead.append herrors))

theorem tokens_endBytes (henc : Writes enc e) (errors : List (List UInt8 × ℤ))
    (hversion : InInt64 version) : Tokens (endBytes e errors version) (versionLeaves version) := by
  have hlabel := (henc.text (ascii "version") (by decide)).token.tokens
  have hvalue := (henc.integer version hversion.1 (by have := hversion.2; omega)).token.tokens
  have hversionTokens := hlabel.append (hvalue.append token_breakCode.tokens)
  have hlist : Tokens (if errors = [] then [] else [breakCode]) [] := by
    split
    · exact .nil
    · exact token_breakCode.tokens
  simpa [endBytes, versionLeaves] using hlist.append hversionTokens

/-- Where there is room for the end, a response to some errors has been written exactly if there
has been room for all of it, and it is the response to the errors it has been written for. -/
theorem isResponse_squeezed_iff (henc : Writes enc e)
    (hkeys : ∀ error ∈ written, error.1.length < sizeModulus)
    (hcodes : ∀ error ∈ written, InInt64 error.2) (hversion : InInt64 version)
    (hlen : written.length = errors.length)
    (hend : (endBytes e written version).length ≤ (squeeze (responseItems e written) maxLen).2) :
    IsResponse e.profile version errors
        ((squeeze (responseItems e written) maxLen).1.flatten ++ endBytes e written version) ↔
      ((responseItems e written).flatten ++ endBytes e written version).length ≤ maxLen ∧
        written = errors := by
  have hendTokens := tokens_endBytes henc written hversion
  have hitems := responseItems_tokens henc hkeys hcodes
  have hroom : 1 ≤ (squeeze (responseItems e written) maxLen).2 := by
    refine le_trans ?_ hend
    rw [endBytes]
    simp only [List.length_append, List.length_cons, List.length_nil]
    omega
  have hnil : written = [] ↔ errors = [] := by
    rw [← List.length_eq_zero_iff, ← List.length_eq_zero_iff, hlen]
  constructor
  · intro hresponse
    obtain ⟨kept, all, hkept, hall, -, hlt⟩ := tokens_squeeze hitems hroom
    obtain rfl := hall.unique (tokens_responseItems henc hkeys hcodes)
    obtain ⟨leaves, hleaves, htells⟩ := hresponse.tokens
    obtain rfl := hleaves.unique (hkept.append hendTokens)
    -- nothing has been left out, as something would be missing
    have hfits : (responseItems e written).flatten.length ≤ maxLen := by
      by_contra hover
      have hless := hlt (not_le.mp hover)
      have hcount := htells.length_eq
      have herrors : (written.flatMap errorLeaves).length = 4 * written.length := by
        simp [List.length_flatMap, errorLeaves, Nat.mul_comm]
      rw [List.length_append] at hcount
      by_cases hempty : written = []
      · rw [if_pos hempty] at hless
        exact absurd hless (Nat.not_lt_zero _)
      · rw [if_neg hempty, List.length_cons, herrors] at hless
        rw [if_neg (mt hnil.mpr hempty)] at hcount
        simp only [versionLeaves, List.length_cons, List.length_nil] at hcount
        omega
    rw [squeeze_of_le hfits] at hkept hend
    obtain rfl := hkept.unique (tokens_responseItems henc hkeys hcodes)
    have hend : (endBytes e written version).length ≤
      maxLen - (responseItems e written).flatten.length := hend
    rw [List.length_append]
    exact ⟨by omega, written_eq_of_tells hlen htells⟩
  · rintro ⟨hfits, rfl⟩
    rw [List.length_append] at hfits
    rw [squeeze_of_le (by omega)]
    exact isResponse_responseItems henc hkeys hcodes hversion

end Sent

/-! ## Requests -/

def settingsEntryKey : Key := .tstr (ascii "settings")
def versionKey : Key := .tstr (ascii "version")

/-- A request: its entries, and what they say. -/
structure SettingsRequest where
  framing : Framing
  pairs : List Pair
  settingsFraming : Framing
  settings : List Setting
  version : ℤ

/-- The data are a well-formed map with text keys, which are different from each other and among
them the settings and their version. -/
structure SettingsRequest.WellFormed (d : Decoding S) (request : SettingsRequest)
    (data : List UInt8) : Prop where
  map : IsMap d.profile request.framing request.pairs data
  pairs : ∀ pair ∈ request.pairs, pair.WellFormed d.profile ∧ pair.key.type = .tstr
  keys : (request.pairs.map Pair.key).Nodup
  settings : ∃ pair ∈ request.pairs, pair.key = settingsEntryKey ∧
    IsMap d.profile request.settingsFraming (request.settings.map Setting.pair) pair.value
  setting : ∀ setting ∈ request.settings, setting.Encoded d
  version : ∃ pair ∈ request.pairs, pair.key = versionKey ∧
    IntegerItem request.version pair.value
  range : InInt64 request.version

/-- The settings that are not accepted, by their labels, each with the code for it. -/
def failures (cb : SettingsCb α) : List Setting → α → List (List UInt8 × ℤ)
  | [], _ => []
  | setting :: settings, app =>
    (setting.named.apply cb app).2.map (fun error => (setting.label, error.2)) ++
      failures cb settings (setting.named.apply cb app).1

/-- The errors under the keys that are made of their labels. -/
def underKeys (errors : List (List UInt8 × ℤ)) : List (List UInt8 × ℤ) :=
  errors.map fun error => (settingsKey error.1, error.2)

section Failures

variable {cb : SettingsCb α} {settings : List Setting} {app : α}

/-- An error of a setting names it, and its code is the one of the application or the one for a
value of another type. -/
theorem Setting.of_mem_apply {setting : Setting} {error : List UInt8 × ℤ}
    (h : error ∈ (setting.apply cb app).2) : error.1 = setting.label ∧
      (error.2 = statusValueFormatNotValid ∨ ∃ value, error.2 = (cb setting.label value app).1) := by
  cases hvalue : setting.value with
  | none =>
    simp only [Setting.apply, hvalue, List.mem_singleton] at h
    rw [h]
    exact ⟨rfl, .inl rfl⟩
  | some value =>
    simp only [Setting.apply, hvalue] at h
    split at h
    · rw [List.mem_singleton.mp h]
      exact ⟨rfl, .inr ⟨value, rfl⟩⟩
    · cases h

/-- What is recorded for the settings are the ones that are not accepted. -/
theorem dispatch_named (cb : SettingsCb α) (settings : List Setting) (app : α) :
    (dispatch cb (settings.map Setting.named) app).2 = underKeys (failures cb settings app) := by
  induction settings generalizing app with
  | nil => rfl
  | cons setting settings ih =>
    have hkey : ∀ error ∈ (setting.named.apply cb app).2, error.1 = settingsKey setting.label :=
      fun error herror => (Setting.of_mem_apply herror).1
    have hown : (setting.named.apply cb app).2 =
        (setting.named.apply cb app).2.map fun error => (settingsKey setting.label, error.2) := by
      conv_lhs => rw [← List.map_id (setting.named.apply cb app).2]
      exact List.map_congr_left fun error herror => Prod.ext (hkey error herror) rfl
    rw [List.map_cons, dispatch, failures, underKeys, List.map_append, List.map_map]
    exact congrArg₂ _ hown (ih _)

/-- The codes are the ones of the application, or the one for a value of another type. -/
theorem failures_inInt64 (hcb : ∀ key value app, InInt64 (cb key value app).1) :
    ∀ error ∈ failures cb settings app, InInt64 error.2 := by
  induction settings generalizing app with
  | nil => simp [failures]
  | cons setting settings ih =>
    intro error herror
    rw [failures, List.mem_append] at herror
    rcases herror with hown | hothers
    · obtain ⟨own, howned, rfl⟩ := List.mem_map.mp hown
      obtain ⟨-, hcode | ⟨value, hcode⟩⟩ := Setting.of_mem_apply howned
      · have hlow : -2 ^ 63 ≤ statusValueFormatNotValid := by decide
        have hhigh : statusValueFormatNotValid < 2 ^ 63 := by decide
        exact ⟨hcode.symm ▸ hlow, hcode.symm ▸ hhigh⟩
      · have hstatus := hcb setting.named.label value app
        rw [← hcode] at hstatus
        exact hstatus
    · exact ih error hothers

theorem length_settingsKey_le (label : List UInt8) : (settingsKey label).length ≤ maxNameLen :=
  ((List.takeWhile_sublist _).length_le).trans (List.length_take_le _ _)

theorem underKeys_eq_iff {errors : List (List UInt8 × ℤ)} :
    underKeys errors = errors ↔ ∀ error ∈ errors, settingsKey error.1 = error.1 := by
  conv_lhs => rhs; rw [← List.map_id errors]
  rw [underKeys, List.map_inj_left]
  refine forall₂_congr fun error _ => ?_
  rw [Prod.ext_iff]
  exact and_iff_left rfl

end Failures

/-! ## A request is decoded -/

/-- What some of the entries of a request have been decoded to: the settings are dispatched when
they are come to. -/
structure Decoded (enc : ZcborEncode E) (cb : SettingsCb α) (request : SettingsRequest)
    (before : SettingsVars E α) (done : List Pair) (vars : SettingsVars E α) : Prop where
  waiting : settingsEntryKey ∉ done.map Pair.key →
    vars.response = before.response ∧ vars.app = before.app
  settings : settingsEntryKey ∈ done.map Pair.key →
    vars.response = addErrors enc (underKeys (failures cb request.settings before.app))
      before.response
  version : versionKey ∈ done.map Pair.key → vars.version.value = request.version

section Lookup

variable {lib : ZcborDecode S} {d : Decoding S} {enc : ZcborEncode E} {cb : SettingsCb α}
  {p : Position} {request : SettingsRequest} {before : SettingsVars E α} {data : List UInt8}
  {fuel : ℕ}

/-- The entries of the table take what the request holds for them. -/
theorem takesAll_request (hlib : Conforms lib d) (hrequest : request.WellFormed d data)
    (hroom : 1 < p.room) (hfuel : request.settings.length < fuel) :
    TakesAll d p.inside (settingsEntries lib enc cb fuel) request.pairs
      (Decoded enc cb request before) where
  takes := by
    intro done pair after hsplit i entry hplace hentry w q rest hat halike hnext hpayload hdecoded
    have hmem : pair ∈ request.pairs := by simp [hsplit]
    obtain ⟨other, hother, hkey⟩ := getElem?_of_place hplace
    obtain rfl := Option.some_inj.mp (hentry.symm.trans hother)
    have hentry := List.mem_of_getElem? hentry
    have hdistinct : settingsEntryKey ≠ versionKey := by decide
    simp only [settingsEntries, List.mem_cons, List.not_mem_nil, or_false] at hentry
    rcases hentry with rfl | rfl
    · have hkey : pair.key = settingsEntryKey := hkey.symm
      -- the keys are distinct, so no settings have been dispatched before these
      have hnew : settingsEntryKey ∉ done.map Pair.key := by
        have hkeys := hrequest.keys
        rw [hsplit, List.map_append, List.map_cons, hkey] at hkeys
        exact fun hdone => (List.nodup_append.mp hkeys).2.2 _ hdone _ (List.mem_cons_self) rfl
      -- the settings are walked one level further in, so a backup must be left
      have hroom : 0 < q.room := by
        rw [halike.room]
        exact Nat.sub_pos_of_lt hroom
      have hitem := value_of_key hrequest.keys hmem hrequest.settings hkey
      obtain ⟨w', hdecode, hat', hout⟩ := settingsDecode_named enc cb hlib hrequest.setting
        ⟨hat, hnext, hroom, pair.value, hitem, hpayload⟩ hfuel
      obtain ⟨hresponse, happ⟩ := hdecoded.waiting hnew
      refine ⟨w', hdecode, hat', ?_⟩
      rw [hout]
      constructor
      · intro hnot
        simp [hkey] at hnot
      · intro _
        show addErrors enc _ w.out.response = _
        rw [dispatch_named, hresponse, happ]
      · rw [mem_keys_append_singleton (hkey ▸ hdistinct)]
        exact hdecoded.version
    · have hkey : pair.key = versionKey := hkey.symm
      obtain ⟨w', hdecode, hat', hout⟩ := @Conforms.int64_takes _ _ _ _ hlib
        (fun value (vars : SettingsVars E α) =>
          { vars with version := { value := value, decoded := true } }) _ _ _ _ _ hat hnext hpayload
        (value_of_key hrequest.keys hmem hrequest.version hkey) hrequest.range
      refine ⟨w', hdecode, hat', ?_⟩
      rw [hout]
      constructor
      · rw [mem_keys_append_singleton (hkey ▸ hdistinct.symm)]
        exact hdecoded.waiting
      · rw [mem_keys_append_singleton (hkey ▸ hdistinct.symm)]
        exact hdecoded.settings
      · exact fun _ => rfl
  skips := by
    intro done pair after hsplit hplace out hdecoded
    -- a pair of no entry has neither key, so what is decoded stays
    rw [place_eq_none_iff] at hplace
    simp only [settingsEntries, List.forall_mem_cons] at hplace
    obtain ⟨hsettings, hversion, -⟩ := hplace
    have hsettings : pair.key ≠ settingsEntryKey := hsettings
    have hversion : pair.key ≠ versionKey := hversion
    constructor
    · rw [mem_keys_append_singleton hsettings]
      exact hdecoded.waiting
    · rw [mem_keys_append_singleton hsettings]
      exact hdecoded.settings
    · rw [mem_keys_append_singleton hversion]
      exact hdecoded.version

theorem matching_request (lib : ZcborDecode S) (enc : ZcborEncode E) (cb : SettingsCb α) (fuel : ℕ)
    (hrequest : request.WellFormed d data) :
    Matching d .tstr (settingsEntries lib enc cb fuel) request.pairs where
  table := by simp [TypedTable, settingsEntries, Key.type]
  wellFormed := hrequest.pairs
  entryKeys := by
    show [settingsEntryKey, versionKey].Nodup
    decide
  pairKeys := hrequest.keys

/-- The request is decoded. -/
theorem decodeSetting_eq (hlib : Conforms lib d) (enc : ZcborEncode E) (cb : SettingsCb α)
    (before : SettingsVars E α) (hrequest : request.WellFormed d data)
    (hlen : data.length < 2 ^ 16) (hpairs : request.pairs.length < fuel)
    (hfuel : request.settings.length < fuel) :
    ∃ w, (decodeSetting lib enc cb fuel data before).2 = (some 0, w) ∧
      w.out.response = addErrors enc (underKeys (failures cb request.settings before.app))
        before.response ∧
      w.out.version.value = request.version := by
  obtain ⟨memory, hstart⟩ := hlib.atMap_newDecodeState hrequest.map hlen 1
  set p : Position := ⟨memory, data, some 1, [], 2⟩ with hp
  have hmap : AtMap d request.framing request.pairs (⟨lib.newDecodeState data 1 2, before, []⟩ :
      Cursor S (SettingsVars E α)).zsd p [] := hstart
  have hfound : ∀ entry ∈ settingsEntries lib enc cb fuel,
      ∃ pair ∈ request.pairs, pair.key = entry.key := by
    obtain ⟨settingsPair, hsettings, hsettingsKey, -⟩ := hrequest.settings
    obtain ⟨versionPair, hversion, hversionKey, -⟩ := hrequest.version
    simp only [settingsEntries, List.forall_mem_cons]
    exact ⟨⟨settingsPair, hsettings, hsettingsKey⟩, ⟨versionPair, hversion, hversionKey⟩, by simp⟩
  have hnone : Decoded enc cb request before [] before := ⟨fun _ => ⟨rfl, rfl⟩, by simp, by simp⟩
  obtain ⟨visits, w, done, last, after, i, hdecode, hsplit, hlast, hafter, hat', hdecoded, -⟩ :=
    hlib.mapDecode_complete hmap (matching_request lib enc cb fuel hrequest) hpairs
      (List.cons_ne_nil _ _) hfound (takesAll_request hlib hrequest (by simp [hp]) hfuel) hnone
  rw [hsplit] at hfound
  have hmem := mem_keys_of_hits_eq_zero hfound hafter
  simp only [settingsEntries, List.forall_mem_cons] at hmem
  obtain ⟨hsettings, hversion, -⟩ := hmem
  refine ⟨w, ?_, hdecoded.settings hsettings, hdecoded.version hversion⟩
  rw [decodeSetting, hdecode]

end Lookup

/-! ## What the client does -/

/-- The arguments `send_coap_response` gives to `golioth_coap_req_cb`; `userData` is the address
of its text. -/
def sendCoapResponseArgs (userData : ℕ) (payload : List UInt8) : ReqArgs κ where
  method := .post
  pathv := [ascii ".c/status"]
  format := contentFormatAppCbor
  data := some payload
  dataLen := payload.length
  cb := none
  userData := userData
  flagObserve := false
  flagNoRespBody := true

theorem dataThere_sendCoapResponseArgs (userData : ℕ) (payload : List UInt8) :
    (sendCoapResponseArgs userData payload : ReqArgs κ).DataThere :=
  ReqArgs.dataThere_of_length_eq rfl rfl

/-- What is sent is the response; where nothing is sent, an error is returned. -/
def Responds (profile : Profile) (version : ℤ) (errors : List (List UInt8 × ℤ)) (env : Env κ β)
    (userData : ℕ) (c : Client κ β) : Option (Replied × α) → Prop
  | none => False
  | some (replied, _) => Sends env (sendCoapResponseArgs userData) c replied ∧
      ∀ payload, replied = .sent payload → IsResponse profile version errors payload

/-- The response to the errors fits in the buffer, under keys that are all of their labels. -/
def WholeFits (e : Encoding E) (maxLen : ℕ) (errors : List (List UInt8 × ℤ)) (version : ℤ) : Prop :=
  ((responseItems e (underKeys errors)).flatten ++
    endBytes e (underKeys errors) version).length ≤ maxLen ∧
  ∀ error ∈ errors, settingsKey error.1 = error.1

/-- When items that do not fit have been left out, what is left of the buffer is too short for the
end of the response. -/
def EndIsFull (e : Encoding E) (maxLen : ℕ) (errors : List (List UInt8 × ℤ)) (version : ℤ) : Prop :=
  (squeeze (responseItems e (underKeys errors)) maxLen).2 <
    (endBytes e (underKeys errors) version).length

section Responses

variable {lib : ZcborDecode S} {d : Decoding S} {enc : ZcborEncode E} {e : Encoding E}
  {cb : SettingsCb α} {request : SettingsRequest} {rsp : Rsp} {maxResponseLen fuel : ℕ}

/-- The data of a request are not the ones of the response to the observation itself. -/
theorem not_isOk {data : List UInt8} (hrequest : request.WellFormed d data) : isOk data = false := by
  obtain ⟨pair, hpair, hkey, -⟩ := hrequest.settings
  have hle := hrequest.map.length_text_le hpair (hrequest.pairs pair hpair).1.labels hkey
  have hsettings : (ascii "settings").length = 8 := by decide
  have hlen : data.length ≠ 3 := by omega
  simp [isOk, hlen]

/-- What `on_setting` comes to. -/
theorem onSetting_eq (hlib : Conforms lib d) (henc : Writes enc e)
    (hcb : ∀ key value app, InInt64 (cb key value app).1) (hrequest : request.WellFormed d rsp.data)
    (herr : rsp.err = 0) (hlen : rsp.data.length < 2 ^ 16) (hpairs : request.pairs.length < fuel)
    (hsettings : request.settings.length < fuel) (maxResponseLen : ℕ) (version : ℤ) (app : α) :
    ∃ app', onSetting lib enc cb maxResponseLen fuel version rsp app =
      some (.ofResponse
        (if (endBytes e (underKeys (failures cb request.settings app)) request.version).length ≤
            (squeeze (responseItems e (underKeys (failures cb request.settings app)))
              maxResponseLen).2
        then .ok ((squeeze (responseItems e (underKeys (failures cb request.settings app)))
            maxResponseLen).1.flatten ++
          endBytes e (underKeys (failures cb request.settings app)) request.version)
        else .error (-Errno.enomem)), app') := by
  obtain ⟨w, hdecode, hresponse, hversion⟩ := decodeSetting_eq hlib enc cb
    (settingsVars enc maxResponseLen app version) hrequest hlen hpairs hsettings
  have hcodes : ∀ error ∈ underKeys (failures cb request.settings app), InInt64 error.2 := by
    intro error herror
    obtain ⟨failure, hfailure, rfl⟩ := List.mem_map.mp herror
    exact failures_inInt64 hcb failure hfailure
  obtain ⟨hsqueezed, hnum⟩ := addErrors_squeezed henc hcodes rfl
    (responseInit_squeezed henc maxResponseLen)
  rw [List.nil_append] at hsqueezed hnum
  have hfinalize := finalizeResponse_eq henc hrequest.range hnum hsqueezed
  refine ⟨w.out.app, ?_⟩
  have happ : (settingsVars enc maxResponseLen app version).app = app := rfl
  have hinit : (settingsVars enc maxResponseLen app version).response =
      responseInit enc maxResponseLen := rfl
  rw [happ, hinit] at hresponse
  rw [onSetting, if_neg (by simp [herr]), not_isOk hrequest, hdecode, ← hfinalize, ← hresponse,
    ← hversion]
  rfl

/-- The response that is sent to settings that fail. -/
theorem responds_ofResponse_iff (henc : Writes enc e) {errors : List (List UInt8 × ℤ)} {version : ℤ}
    (hcodes : ∀ error ∈ errors, InInt64 error.2) (hversion : InInt64 version) (maxLen : ℕ)
    (env : Env κ β) (userData : ℕ) (c : Client κ β) (app : α) :
    Responds e.profile version errors env userData c
        (some (.ofResponse
          (if (endBytes e (underKeys errors) version).length ≤
              (squeeze (responseItems e (underKeys errors)) maxLen).2
          then .ok ((squeeze (responseItems e (underKeys errors)) maxLen).1.flatten ++
            endBytes e (underKeys errors) version)
          else .error (-Errno.enomem)), app)) ↔
      WholeFits e maxLen errors version ∨ EndIsFull e maxLen errors version := by
  have hkeys : ∀ error ∈ underKeys errors, error.1.length < sizeModulus := by
    intro error herror
    obtain ⟨failure, -, rfl⟩ := List.mem_map.mp herror
    have hmodulus : maxNameLen < sizeModulus := by decide
    exact (length_settingsKey_le failure.1).trans_lt hmodulus
  have hcodes : ∀ error ∈ underKeys errors, InInt64 error.2 := by
    intro error herror
    obtain ⟨failure, hfailure, rfl⟩ := List.mem_map.mp herror
    exact hcodes failure hfailure
  by_cases hend : (endBytes e (underKeys errors) version).length ≤
      (squeeze (responseItems e (underKeys errors)) maxLen).2
  · have hfull : ¬ EndIsFull e maxLen errors version := not_lt.mpr hend
    rw [if_pos hend, or_iff_left hfull, WholeFits, ← underKeys_eq_iff,
      ← isResponse_squeezed_iff henc hkeys hcodes hversion (List.length_map _) hend]
    constructor
    · exact fun hresponds => hresponds.2 _ rfl
    · intro hresponse
      refine ⟨sends_of_ne env (dataThere_sendCoapResponseArgs userData) c fun err herr => ?_,
        fun payload hpayload => ?_⟩
      · cases herr
      · cases hpayload
        exact hresponse
  · rw [if_neg hend]
    refine iff_of_true ⟨sends_of_ne env (dataThere_sendCoapResponseArgs userData) c
      fun err herr => ?_, fun payload hpayload => ?_⟩ (.inr (not_le.mp hend))
    · cases herr
      decide
    · cases hpayload

/-- **Settings responses.** What `on_setting` sends is the response to the settings exactly if all
of the response fits and every setting that fails is named by its key, or there is no room for the
end of what is written. -/
theorem onSetting_responds_iff (hlib : Conforms lib d) (henc : Writes enc e)
    (hcb : ∀ key value app, InInt64 (cb key value app).1) (hrequest : request.WellFormed d rsp.data)
    (herr : rsp.err = 0) (hlen : rsp.data.length < 2 ^ 16) (hpairs : request.pairs.length < fuel)
    (hsettings : request.settings.length < fuel) (maxResponseLen : ℕ) (version : ℤ) (app : α)
    (env : Env κ β) (userData : ℕ) (c : Client κ β) :
    Responds e.profile request.version (failures cb request.settings app) env userData c
        (onSetting lib enc cb maxResponseLen fuel version rsp app) ↔
      WholeFits e maxResponseLen (failures cb request.settings app) request.version ∨
        EndIsFull e maxResponseLen (failures cb request.settings app) request.version := by
  obtain ⟨app', heq⟩ := onSetting_eq hlib henc hcb hrequest herr hlen hpairs hsettings
    maxResponseLen version app
  rw [heq]
  exact responds_ofResponse_iff henc (failures_inInt64 hcb) hrequest.range maxResponseLen env
    userData c app'

end Responses

/-! ## Settings that fail -/

/-- `{"settings": …, "version": 1}`. -/
def requestOf (settingsItem : List UInt8) (settings : List Setting) : SettingsRequest where
  framing := .definite
  pairs := [⟨settingsEntryKey, 0x68 :: ascii "settings", settingsItem⟩,
    ⟨versionKey, 0x67 :: ascii "version", [0x01]⟩]
  settingsFraming := .definite
  settings := settings
  version := 1

/-- A response with the request. -/
def rspOf (request : SettingsRequest) : Rsp :=
  { data := 0xa2 :: pairBytes request.pairs, userData := 0 }

/-- A map of settings is an item. -/
private theorem wellFormed_settingsItem {d : Decoding S} {framing : Framing}
    {settings : List Setting} {item : List UInt8}
    (hmap : IsMap d.profile framing (settings.map Setting.pair) item)
    (hsettings : ∀ setting ∈ settings, setting.Encoded d) : Cbor.WellFormed d.profile item := by
  obtain ⟨head, hopens, rfl⟩ := hmap
  have hbytes : pairBytes (settings.map Setting.pair) =
      (settings.flatMap fun setting => [setting.labelItem, setting.valueItem]).flatten := by
    clear hopens hsettings
    induction settings with
    | nil => rfl
    | cons setting settings ih => simp [ih, Setting.pair]
  have hcount : (settings.flatMap fun setting => [setting.labelItem, setting.valueItem]).length =
      2 * (settings.map Setting.pair).length := by
    clear hopens hsettings hbytes
    induction settings with
    | nil => rfl
    | cons setting settings ih =>
      simp only [List.flatMap_cons, List.length_append, ih, List.length_map, List.length_cons,
        List.length_nil]
      omega
  rw [hbytes]
  refine .map hopens hcount fun item hitem => ?_
  obtain ⟨setting, hsetting, hitem⟩ := List.mem_flatMap.mp hitem
  have hencoded := hsettings setting hsetting
  rcases List.mem_cons.mp hitem with rfl | hitem
  · exact hencoded.label.wellFormed
  · rw [List.mem_singleton.mp hitem]
    exact hencoded.item

private theorem wellFormed_requestOf {settings : List Setting} {settingsItem : List UInt8}
    (hmap : IsMap Reference.profile .definite (settings.map Setting.pair) settingsItem)
    (hsettings : ∀ setting ∈ settings, setting.Encoded Reference.decoding) :
    (requestOf settingsItem settings).WellFormed Reference.decoding
      (rspOf (requestOf settingsItem settings)).data := by
  have hone : IntegerItem 1 [0x01] := ⟨1, .inl ⟨@Head.inside 0 0x01 rfl (by decide), rfl⟩⟩
  have honeItem : Cbor.WellFormed Reference.profile [0x01] :=
    .integer (.inl rfl) (@Head.inside 0 0x01 rfl (by decide))
  have hsettingsLabel : TextItem Reference.profile (ascii "settings") (0x68 :: ascii "settings") :=
    ⟨[0x68], ⟨@Head.inside 3 0x68 rfl (by decide), by decide⟩, rfl⟩
  have hversionLabel : TextItem Reference.profile (ascii "version") (0x67 :: ascii "version") :=
    ⟨[0x67], ⟨@Head.inside 3 0x67 rfl (by decide), by decide⟩, rfl⟩
  have hkeys : [settingsEntryKey, versionKey].Nodup := by decide
  have hrange : InInt64 1 := ⟨by decide, by decide⟩
  refine ⟨⟨[0xa2], ⟨@Head.inside 5 0xa2 rfl (by decide), by decide⟩, ?_⟩, ?_, hkeys,
    ⟨_, .head _, rfl, hmap⟩, hsettings, ⟨_, .tail _ (.head _), rfl, hone⟩, hrange⟩
  · simp [rspOf, requestOf, Framing.close]
  · simp only [requestOf, List.forall_mem_cons]
    exact ⟨⟨⟨hsettingsLabel, wellFormed_settingsItem hmap hsettings⟩, rfl⟩,
      ⟨⟨hversionLabel, honeItem⟩, rfl⟩, by simp⟩

/-- `{"settings": {"A": 1, "B": [true]}, "version": 1}`. -/
def sampleRequest : SettingsRequest := requestOf sampleSettings sample

theorem wellFormed_sampleRequest :
    sampleRequest.WellFormed Reference.decoding (rspOf sampleRequest).data :=
  wellFormed_requestOf ⟨[0xa2], ⟨@Head.inside 5 0xa2 rfl (by decide), by decide⟩, rfl⟩
    fun setting hsetting => (sample_wellFormed setting hsetting).encoded

/-- A setting with a label of 24 bytes, whose value is one. -/
def longSetting : Setting where
  label := List.replicate 24 0x41
  labelItem := [0x78, 0x18] ++ List.replicate 24 0x41
  valueItem := [0x01]
  value := some (.int64 1)

/-- `{"settings": {"A…A": 1}, "version": 1}`. -/
def longRequest : SettingsRequest := requestOf (0xa1 :: longSetting.pair.bytes) [longSetting]

theorem wellFormed_longRequest :
    longRequest.WellFormed Reference.decoding (rspOf longRequest).data := by
  have hlabel : TextItem Reference.profile longSetting.label longSetting.labelItem :=
    ⟨[0x78, 0x18], ⟨@Head.following 3 0x78 [0x18] rfl (by decide) (by decide) rfl, by decide⟩, rfl⟩
  have hone : Head 0 1 [0x01] := @Head.inside 0 0x01 rfl (by decide)
  refine wellFormed_requestOf ⟨[0xa1], ⟨@Head.inside 5 0xa1 rfl (by decide), by decide⟩, rfl⟩ ?_
  simp only [List.forall_mem_cons]
  refine ⟨⟨hlabel, .integer (.inl rfl) hone, ?_, by simp [longSetting]⟩, by simp⟩
  rintro value hvalue
  obtain rfl := Option.some_inj.mp hvalue
  exact .int64 ⟨1, .inl ⟨hone, rfl⟩⟩ (by decide) (by decide)

theorem refuseAll_inInt64 (key : List UInt8) (value : SettingsValue) (app : List (List UInt8)) :
    InInt64 (refuseAll key value app).1 := by
  have hone : InInt64 1 := ⟨by decide, by decide⟩
  exact hone

/-- Both settings fail, one because the callback refuses it and one because of its type. The
response to them fits, and so it is sent. -/
theorem onSetting_responds_iff_sample :
    (failures refuseAll sampleRequest.settings []).length = 2 ∧
    WholeFits Reference.encoding 128 (failures refuseAll sampleRequest.settings []) 1 ∧
      (Responds Reference.profile 1 (failures refuseAll sampleRequest.settings []) Env.quiet 0
          connectedClient
          (onSetting Reference.library Reference.encoder refuseAll 128 8 0 (rspOf sampleRequest)
            []) ↔
        WholeFits Reference.encoding 128 (failures refuseAll sampleRequest.settings []) 1 ∨
          EndIsFull Reference.encoding 128 (failures refuseAll sampleRequest.settings []) 1) :=
  ⟨by decide, ⟨by decide, by decide⟩,
    onSetting_responds_iff Reference.conforms Reference.writes refuseAll_inInt64
      wellFormed_sampleRequest rfl (by decide) (by decide) (by decide) 128 0 [] Env.quiet 0
      connectedClient⟩

/-- In a buffer of 46 bytes the label is left out, and what is sent is no response. -/
theorem onSetting_not_responds :
    ¬ Responds Reference.profile 1 (failures refuseAll longRequest.settings []) Env.quiet 0
        (Client.init ())
        (onSetting Reference.library Reference.encoder refuseAll 46 8 0 (rspOf longRequest) []) := by
  obtain ⟨app', heq⟩ := onSetting_eq Reference.conforms Reference.writes refuseAll_inInt64
    wellFormed_longRequest rfl (by decide) (by decide : longRequest.pairs.length < 8)
    (by decide : longRequest.settings.length < 8) 46 0 []
  have hcodes : ∀ error ∈ failures refuseAll longRequest.settings [], InInt64 error.2 :=
    failures_inInt64 refuseAll_inInt64
  have hiff := responds_ofResponse_iff Reference.writes hcodes wellFormed_longRequest.range 46
    Env.quiet 0 (Client.init ()) app'
  rw [heq]
  refine mt hiff.mp (not_or.mpr ⟨fun hfits => absurd hfits.1 (by decide), ?_⟩)
  exact not_lt.mpr (by decide)

end Golioth.Settings
