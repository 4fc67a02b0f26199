/-
# Paths

How much a path takes in a packet, and which segments it is made of. The client
estimates the former from the length of the path and leaves the latter to a loop
over its bytes.
-/
import Golioth.Coap.Message
import Mathlib.Data.List.TakeWhile

namespace Golioth.Coap

open CS
open CS.OptionFormat (Entry encode encodeAll extend lastNumber)

/-! ## Room in a packet -/

/-- The functions that write a packet fail exactly where it has no room for what they append; what
they have written until then stays. -/
structure Zephyr.RoomContract (z : Zephyr) : Prop where
  init_iff : ∀ maxLen type token code id, (z.coapPacketInit maxLen type token code id).1 = 0 ↔
    (headerBytes type token code id).length ≤ maxLen
  init_maxLen : ∀ maxLen type token code id,
    (z.coapPacketInit maxLen type token code id).2.maxLen = maxLen
  option_iff : ∀ packet option value, packet.delta ≤ option.value → value.length < 2 ^ 16 →
    ((z.coapPacketAppendOption packet option value).1 = 0 ↔
      packet.offset + (encode (option.value - packet.delta) value).length ≤ packet.maxLen)
  option_maxLen : ∀ packet option value,
    (z.coapPacketAppendOption packet option value).2.maxLen = packet.maxLen
  option_added : ∀ packet option value, packet.delta ≤ option.value → value.length < 2 ^ 16 →
    (z.coapPacketAppendOption packet option value).2.offset ≤
      packet.offset + (encode (option.value - packet.delta) value).length

/-- A payload is appended where there is room for it, and its marker takes none away. -/
structure Zephyr.PayloadContract (z : Zephyr) : Prop where
  marker_maxLen : ∀ packet, (z.coapPacketAppendPayloadMarker packet).2.maxLen = packet.maxLen
  payload_iff : ∀ packet payload, (z.coapPacketAppendPayload packet payload).1 = 0 ↔
    packet.offset + payload.length ≤ packet.maxLen

namespace Reference

theorem append_eq_zero_iff {packet : CoapPacket} {bytes : List UInt8} :
    (append packet bytes).1 = 0 ↔ packet.offset + bytes.length ≤ packet.maxLen := by
  rw [append]
  split
  · next hfull => exact iff_of_false (show -Errno.einval ≠ 0 by decide) (by omega)
  · next hfits => exact iff_of_true rfl (by omega)

theorem maxLen_append (packet : CoapPacket) (bytes : List UInt8) :
    (append packet bytes).2.maxLen = packet.maxLen := by
  unfold append
  split <;> rfl

theorem offset_append_le (packet : CoapPacket) (bytes : List UInt8) :
    (append packet bytes).2.offset ≤ packet.offset + bytes.length := by
  unfold append
  split
  · exact Nat.le_add_right _ _
  · exact (List.length_append).le

theorem roomContract : zephyr.RoomContract where
  init_iff maxLen type token code id := by
    refine append_eq_zero_iff.trans ?_
    simp [CoapPacket.offset]
  init_maxLen maxLen type token code id := maxLen_append _ _
  option_iff packet option value hle hlen := by
    have hfits : ¬ (option.value < packet.delta ∨ OptionFormat.limit ≤ value.length) := by
      rw [not_or, not_lt, not_le]
      exact ⟨hle, hlen.trans (by decide)⟩
    change (coapPacketAppendOption packet option value).1 = 0 ↔ _
    rw [coapPacketAppendOption, if_neg hfits, ← append_eq_zero_iff]
    dsimp only
    split
    · exact Iff.rfl
    · next hok => exact iff_of_true rfl (not_not.mp hok)
  option_maxLen packet option value := by
    change (coapPacketAppendOption packet option value).2.maxLen = packet.maxLen
    unfold coapPacketAppendOption
    split
    · rfl
    · dsimp only
      split <;> exact maxLen_append _ _
  option_added packet option value hle hlen := by
    change (coapPacketAppendOption packet option value).2.offset ≤ _
    unfold coapPacketAppendOption
    split
    · exact Nat.le_add_right _ _
    · dsimp only
      split <;> exact offset_append_le _ _

theorem payloadContract : zephyr.PayloadContract where
  marker_maxLen packet := maxLen_append packet _
  payload_iff _ _ := append_eq_zero_iff

end Reference

/-! ## The length of an option -/

/-- How many bytes a difference or a length takes besides its nibble. -/
def extendedLen (n : ℕ) : ℕ := if n < 13 then 0 else if n < 269 then 1 else 2

theorem length_extend (n : ℕ) : (extend n).2.length = extendedLen n := by
  unfold extend extendedLen
  split
  · rfl
  · split <;> rfl

theorem length_encode (delta : ℕ) (value : List UInt8) :
    (encode delta value).length =
      1 + extendedLen delta + extendedLen value.length + value.length := by
  rw [encode]
  simp only [List.length_cons, List.length_append, length_extend]
  omega

/-- A byte of overhead in thirteen pays for a length. -/
theorem extendedLen_le (n : ℕ) : extendedLen n ≤ n / 13 := by
  unfold extendedLen
  split
  · exact Nat.zero_le _
  · split <;> omega

theorem extendedLen_mono {m n : ℕ} (h : m ≤ n) : extendedLen m ≤ extendedLen n := by
  unfold extendedLen
  split_ifs <;> omega

/-- The length of a Uri-Path option whose number is less than 13 more than the one before it. -/
def segmentLen (segment : List UInt8) : ℕ := 1 + extendedLen segment.length + segment.length

/-- The lengths of Uri-Path options. -/
def segmentsLen (segments : List (List UInt8)) : ℕ := (segments.map segmentLen).sum

theorem segmentsLen_cons (segment : List UInt8) (segments : List (List UInt8)) :
    segmentsLen (segment :: segments) = segmentLen segment + segmentsLen segments := by
  rw [segmentsLen, List.map_cons, List.sum_cons, segmentsLen]

theorem segmentLen_le_of_mem {segments : List (List UInt8)} {segment : List UInt8}
    (h : segment ∈ segments) : segmentLen segment ≤ segmentsLen segments := by
  obtain ⟨before, after, rfl⟩ := List.append_of_mem h
  simp only [segmentsLen, List.map_append, List.map_cons, List.sum_append, List.sum_cons]
  omega

theorem length_encode_uriPath {delta : ℕ} (segment : List UInt8) :
    (encode (OptionNum.uriPath.value - delta) segment).length = segmentLen segment := by
  have hsmall : extendedLen (OptionNum.uriPath.value - delta) = 0 := by
    have hvalue : OptionNum.uriPath.value = 11 := rfl
    rw [extendedLen, if_pos (by omega)]
  rw [length_encode, hsmall, segmentLen]

theorem segmentLen_narrowed_le (segment : List UInt8) :
    segmentLen (narrowed segment) ≤ segmentLen segment := by
  have hle : (narrowed segment).length ≤ segment.length := by
    rw [narrowed, List.length_take]
    exact min_le_right _ _
  have hmono := extendedLen_mono hle
  rw [segmentLen, segmentLen]
  omega

section Append

variable {z : Zephyr} {packet : CoapPacket}

/-- **Run.** Segments add their lengths at most, also where one of them fails. -/
theorem offset_appendSegments_le (hz : z.WritingContract) (hroom : z.RoomContract)
    (segments : List (List UInt8)) (hdelta : packet.delta ≤ OptionNum.uriPath.value) :
    (appendSegments z packet segments).2.offset ≤ packet.offset + segmentsLen segments := by
  induction segments generalizing packet with
  | nil => exact Nat.le_add_right _ _
  | cons segment segments ih =>
    have hlen : (narrowed segment).length < 2 ^ 16 := length_narrowed_lt segment
    have hadded := hroom.option_added packet .uriPath (narrowed segment) hdelta hlen
    rw [length_encode_uriPath] at hadded
    have hnarrowed := segmentLen_narrowed_le segment
    have hone : (appendUriPath z packet segment).2.offset ≤ packet.offset + segmentLen segment :=
      hadded.trans (by omega)
    rw [appendSegments, orReturn, segmentsLen_cons]
    split
    · next hok =>
      have hafter := (hz.appendOption packet .uriPath (narrowed segment) hdelta hlen hok).2
      have hrest := @ih (appendUriPath z packet segment).2 hafter.le
      omega
    · omega

end Append

/-! ## The estimate -/

theorem strlen_eq (path : List UInt8) : strlen path = (cString path).length := rfl

/-- The segments of some bytes and the slashes between them. -/
theorem sum_length_splitOn (bytes : List UInt8) :
    ((bytes.splitOn slash).map fun segment => segment.length + 1).sum = bytes.length + 1 := by
  induction bytes with
  | nil => rfl
  | cons byte bytes ih =>
    rw [List.splitOn_cons_eq_if_modifyHead, List.length_cons]
    split
    · rw [List.map_cons, List.sum_cons, ih, List.length_nil]
      omega
    · cases hsplit : bytes.splitOn slash with
      | nil => exact absurd hsplit (List.splitOn_ne_nil slash bytes)
      | cons segment segments =>
        rw [hsplit, List.map_cons, List.sum_cons] at ih
        rw [List.modifyHead_cons, List.map_cons, List.sum_cons, List.length_cons]
        omega

/-- Without the last segment there is less. -/
theorem sum_dropLastEmpty_le (segments : List (List UInt8)) (f : List UInt8 → ℕ) :
    ((dropLastEmpty segments).map f).sum ≤ (segments.map f).sum := by
  rw [dropLastEmpty]
  split
  · next hlast =>
    have hsplit : segments.dropLast ++ [[]] = segments := List.dropLast_append_getLast? [] hlast
    conv_rhs => rw [← hsplit]
    rw [List.map_append, List.sum_append]
    exact Nat.le_add_right _ _
  · exact le_rfl

/-- The overhead of segments is paid for by their bytes. -/
theorem segmentsLen_le (segments : List (List UInt8)) :
    segmentsLen segments ≤ (segments.map fun segment => segment.length + 1).sum +
      (segments.map List.length).sum / 13 := by
  induction segments with
  | nil => exact le_rfl
  | cons segment segments ih =>
    have hone := extendedLen_le segment.length
    simp only [segmentsLen, List.map_cons, List.sum_cons, segmentLen] at ih ⊢
    omega

theorem sum_length_le (segments : List (List UInt8)) :
    (segments.map List.length).sum + segments.length =
      (segments.map fun segment => segment.length + 1).sum := by
  induction segments with
  | nil => rfl
  | cons segment segments ih =>
    simp only [List.map_cons, List.sum_cons, List.length_cons]
    omega

/-- The options for one path. -/
theorem segmentsLen_uriSegments_le (path : List UInt8) :
    segmentsLen (uriSegments path) ≤ strlen path + strlen path / 13 + 1 := by
  set text := (cString path).dropWhile (· = slash) with htext
  have hlen : text.length ≤ strlen path := by
    rw [strlen_eq]
    exact (List.dropWhile_sublist _).length_le
  have hsplit := sum_length_splitOn text
  have hdropped := sum_dropLastEmpty_le (text.splitOn slash) fun segment => segment.length + 1
  have hsum := sum_length_le (uriSegments path)
  have hle := segmentsLen_le (uriSegments path)
  have hsegments : uriSegments path = dropLastEmpty (text.splitOn slash) := rfl
  rw [← hsegments] at hdropped
  by_cases hnil : uriSegments path = []
  · rw [hnil]
    exact Nat.zero_le _
  · have hpos := List.length_pos_iff.mpr hnil
    omega

/-- The options for all paths. -/
theorem segmentsLen_flatMap_le (pathv : List (List UInt8)) :
    segmentsLen (pathv.flatMap uriSegments) ≤ coapPathvEstimateAllocLen pathv := by
  induction pathv with
  | nil => exact le_rfl
  | cons path pathv ih =>
    have hone := segmentsLen_uriSegments_le path
    have hsplit : segmentsLen ((path :: pathv).flatMap uriSegments) =
        segmentsLen (uriSegments path) + segmentsLen (pathv.flatMap uriSegments) := by
      rw [List.flatMap_cons, segmentsLen, List.map_append, List.sum_append, segmentsLen, segmentsLen]
    have hestimate : coapPathvEstimateAllocLen (path :: pathv) =
        strlen path + strlen path / 13 + 1 + coapPathvEstimateAllocLen pathv := by
      rw [coapPathvEstimateAllocLen, List.map_cons, List.sum_cons, coapPathvEstimateAllocLen]
    omega

/-- **Path length estimate.** Whatever its components are, a path vector adds no more bytes to a
packet without options other than an Observe option than the estimate says. -/
theorem pathv_added_le_estimate {z : Zephyr} (hz : z.WritingContract) (hroom : z.RoomContract)
    {packet : CoapPacket} (hdelta : packet.delta ≤ OptionNum.observe.value)
    (pathv : List (List UInt8)) :
    (coapPacketAppendUriPathFromPathv z packet pathv).2.offset ≤
      packet.offset + coapPathvEstimateAllocLen pathv := by
  have hle : packet.delta ≤ OptionNum.uriPath.value := hdelta.trans (by decide)
  rw [coapPacketAppendUriPathFromPathv_eq]
  exact (offset_appendSegments_le hz hroom _ hle).trans
    (Nat.add_le_add_left (segmentsLen_flatMap_le pathv) _)

/-- An empty packet with room for 64 bytes. -/
def samplePacket : CoapPacket where
  data := List.replicate 12 0
  maxLen := 64
  hdrLen := 12
  optLen := 0
  delta := 0

/-- `"//a/bb//"` and `"logs"`. -/
def samplePathv : List (List UInt8) := [[47, 47, 97, 47, 98, 98, 47, 47], [108, 111, 103, 115]]

theorem pathv_added_le_estimate_sample :
    (coapPacketAppendUriPathFromPathv Reference.zephyr samplePacket samplePathv).2.offset ≤
      12 + coapPathvEstimateAllocLen samplePathv :=
  pathv_added_le_estimate Reference.writingContract Reference.roomContract (by decide) samplePathv

/-! ## The segments of a path -/

/-- The memory in a range: up to its end, if it has one. -/
def inRange (memory : List UInt8) : (length : Option ℕ) → List UInt8
  | none => memory
  | some length => memory.take length

/-- The text of a path: what is in its range, up to a zero and without the slashes it starts
with. -/
def pathText (memory : List UInt8) (length : Option ℕ) : List UInt8 :=
  (cString (inRange memory length)).dropWhile (· = slash)

section Segments

variable {z : Zephyr} {packet : CoapPacket} {header : List UInt8} {entries : List Entry}
  {bytes : List UInt8} {segments : List (List UInt8)}

/-- A range is scanned like a string that ends with it. -/
theorem scanUriPath_some (z : Zephyr) (memory : List UInt8) (room : ℕ) (segment : List UInt8)
    (packet : CoapPacket) :
    scanUriPath z memory (some room) segment packet =
      scanUriPath z (memory.take room) none segment packet := by
  induction memory generalizing room segment packet with
  | nil => simp [scanUriPath]
  | cons byte memory ih =>
    cases room with
    | zero => simp [scanUriPath]
    | succ room =>
      rw [List.take_succ_cons, scanUriPath, scanUriPath]
      simp only [Option.map_some, Nat.add_sub_cancel, ih, Option.map_none, Option.some.injEq,
        Nat.succ_ne_zero, false_or, reduceCtorEq]

/-- What is skipped at the beginning of the memory is skipped in the range, as far as it goes. -/
theorem take_dropWhile (p : UInt8 → Bool) (memory : List UInt8) (length : ℕ) :
    (memory.dropWhile p).take (length - (memory.length - (memory.dropWhile p).length)) =
      (memory.take length).dropWhile p := by
  induction memory generalizing length with
  | nil => simp
  | cons byte memory ih =>
    by_cases hskip : p byte = true
    · have hle := (List.dropWhile_sublist p (l := memory)).length_le
      rw [List.dropWhile_cons_of_pos hskip]
      cases length with
      | zero => simp
      | succ length =>
        have hcount : length + 1 - ((byte :: memory).length - (memory.dropWhile p).length) =
            length - (memory.length - (memory.dropWhile p).length) := by
          rw [List.length_cons]
          omega
        rw [List.take_succ_cons, List.dropWhile_cons_of_pos hskip, hcount, ih]
    · rw [List.dropWhile_cons_of_neg hskip, Nat.sub_self, Nat.sub_zero]
      cases length with
      | zero => rfl
      | succ length => rw [List.take_succ_cons, List.dropWhile_cons_of_neg hskip]

/-- **Run of the loop.** The segments of the text are appended in order. -/
theorem stringRange_eq_segments (z : Zephyr) (packet : CoapPacket) (memory : List UInt8)
    (length : Option ℕ) :
    coapPacketAppendUriPathFromStringRange z packet memory length =
      appendSegments z packet (dropLastEmpty ((pathText memory length).splitOn slash)) := by
  cases length with
  | none => exact coapPacketAppendUriPathFromStringRange_eq memory
  | some length =>
    rw [coapPacketAppendUriPathFromStringRange, Option.map_some, scanUriPath_some,
      take_dropWhile, scanUriPath_eq, cString_dropWhile, pathText]
    have hsame (parts : List (List UInt8)) : parts.modifyHead ([] ++ ·) = parts := by
      cases parts <;> rfl
    rw [hsame]
    rfl

/-- What a segment makes of a packet it is appended to. -/
theorem appended_appendUriPath (hz : z.WritingContract) (hroom : z.RoomContract)
    (segment : List UInt8) (hdelta : packet.delta ≤ OptionNum.uriPath.value)
    (hok : (appendUriPath z packet segment).1 = 0) :
    (appendUriPath z packet segment).2.offset = packet.offset + segmentLen (narrowed segment) ∧
      (appendUriPath z packet segment).2.maxLen = packet.maxLen ∧
      (appendUriPath z packet segment).2.delta = OptionNum.uriPath.value := by
  obtain ⟨hdata, hafter⟩ := hz.appendOption packet .uriPath (narrowed segment) hdelta
    (length_narrowed_lt segment) hok
  refine ⟨?_, hroom.option_maxLen packet .uriPath (narrowed segment), hafter⟩
  rw [← @length_encode_uriPath packet.delta]
  exact (congrArg List.length hdata).trans List.length_append

/-- Segments are appended exactly where there is room for all of them. -/
theorem appendSegments_eq_zero_iff (hz : z.WritingContract) (hroom : z.RoomContract)
    (segments : List (List UInt8)) (hdelta : packet.delta ≤ OptionNum.uriPath.value)
    (hle : packet.offset ≤ packet.maxLen) :
    (appendSegments z packet segments).1 = 0 ↔
      packet.offset + segmentsLen (segments.map narrowed) ≤ packet.maxLen := by
  induction segments generalizing packet with
  | nil => exact iff_of_true rfl hle
  | cons segment segments ih =>
    have hone := hroom.option_iff packet .uriPath (narrowed segment) hdelta
      (length_narrowed_lt segment)
    rw [length_encode_uriPath] at hone
    rw [appendSegments, orReturn, List.map_cons, segmentsLen_cons]
    split
    · next hok =>
      have hfits := hone.mp hok
      obtain ⟨hoffset, hmax, hafter⟩ := appended_appendUriPath hz hroom segment hdelta hok
      have hrest := ih hafter.le (by omega)
      rw [hrest, hoffset, hmax]
      omega
    · next hne =>
      have hfull := mt hone.mpr hne
      exact iff_of_false hne (by omega)

/-- What segments make of a packet they are all appended to. -/
theorem appended_appendSegments (hz : z.WritingContract) (hroom : z.RoomContract)
    (segments : List (List UInt8)) (hdelta : packet.delta ≤ OptionNum.uriPath.value)
    (hok : (appendSegments z packet segments).1 = 0) :
    (appendSegments z packet segments).2.offset =
        packet.offset + segmentsLen (segments.map narrowed) ∧
      (appendSegments z packet segments).2.maxLen = packet.maxLen ∧
      (appendSegments z packet segments).2.delta =
        if segments = [] then packet.delta else OptionNum.uriPath.value := by
  induction segments generalizing packet with
  | nil => exact ⟨rfl, rfl, rfl⟩
  | cons segment segments ih =>
    rw [appendSegments, orReturn] at hok ⊢
    split at hok
    · next hone =>
      obtain ⟨hoffset, hmax, hafter⟩ := appended_appendUriPath hz hroom segment hdelta hone
      obtain ⟨hoffset', hmax', hdelta'⟩ := ih hafter.le hok
      rw [if_pos hone, hoffset', hmax', hdelta', hoffset, hmax, List.map_cons, segmentsLen_cons,
        if_neg (List.cons_ne_nil _ _), Nat.add_assoc]
      refine ⟨rfl, rfl, ?_⟩
      split
      · exact hafter
      · rfl
    · next hne => exact absurd hok hne

/-- Bytes end with a slash or are empty exactly if their last segment is empty. -/
theorem getLast?_splitOn_eq_nil_iff (bytes : List UInt8) :
    (bytes.splitOn slash).getLast? = some [] ↔ bytes = [] ∨ bytes.getLast? = some slash := by
  induction bytes with
  | nil => simp
  | cons byte bytes ih =>
    obtain ⟨segment, segments, hsplit⟩ :=
      List.exists_cons_of_ne_nil (List.splitOn_ne_nil slash bytes)
    rw [List.splitOn_cons_eq_if_modifyHead, hsplit]
    rw [hsplit] at ih
    by_cases hslash : byte = slash
    · rw [if_pos (by simp [hslash]), List.getLast?_cons_cons, ih]
      cases bytes <;> simp [hslash]
    · rw [if_neg (by simp [hslash]), List.modifyHead_cons]
      cases segments with
      | nil =>
        -- there is one segment, which is not empty
        have hne : bytes.getLast? ≠ some slash ∨ bytes = [] := by
          by_contra hend
          rw [not_or, not_not] at hend
          have hlast := ih.mpr (.inr hend.1)
          rw [List.getLast?_singleton, Option.some.injEq] at hlast
          rw [hlast] at hsplit
          have hjoin : [slash].intercalate (bytes.splitOn slash) = bytes :=
            List.intercalate_splitOn slash
          rw [hsplit] at hjoin
          exact hend.2 (by simpa using hjoin.symm)
        cases bytes with
        | nil => simp [hslash]
        | cons other bytes => simpa using hne
      | cons next segments =>
        rw [List.getLast?_cons_cons] at ih ⊢
        rw [ih]
        cases bytes with
        | nil => simp at hsplit
        | cons other bytes => simp

/-- Segments joined, and one more. -/
theorem intercalate_concat (hne : segments ≠ []) (segment : List UInt8) :
    [slash].intercalate (segments ++ [segment]) =
      [slash].intercalate segments ++ slash :: segment := by
  induction segments with
  | nil => exact absurd rfl hne
  | cons first segments ih =>
    cases segments with
    | nil => simp [List.intercalate]
    | cons second segments =>
      have hrest := ih (List.cons_ne_nil _ _)
      rw [List.cons_append, List.cons_append, List.intercalate_cons_cons,
        List.intercalate_cons_cons, ← List.cons_append, hrest]
      simp

/-- The segments that are kept are joined to the bytes less one slash at their end. -/
theorem intercalate_dropLastEmpty (bytes : List UInt8) :
    [slash].intercalate (dropLastEmpty (bytes.splitOn slash)) = bytes ∨
      [slash].intercalate (dropLastEmpty (bytes.splitOn slash)) ++ [slash] = bytes := by
  have hjoin : [slash].intercalate (bytes.splitOn slash) = bytes := List.intercalate_splitOn slash
  rw [dropLastEmpty]
  split
  · next hlast =>
    have hsplit : (bytes.splitOn slash).dropLast ++ [[]] = bytes.splitOn slash :=
      List.dropLast_append_getLast? [] hlast
    rw [← hsplit] at hjoin
    by_cases hnil : (bytes.splitOn slash).dropLast = []
    · rw [hnil] at hjoin ⊢
      exact .inl (by simpa using hjoin)
    · rw [intercalate_concat hnil] at hjoin
      exact .inr hjoin
  · exact .inl hjoin

end Segments

/-- A component of a path vector that is a path of its own: its text is not empty and neither
begins nor ends with a slash. -/
structure IsComponent (text : List UInt8) : Prop where
  ne_nil : text ≠ []
  head : text.head? ≠ some slash
  last : text.getLast? ≠ some slash

section Components

variable {text : List UInt8} {texts : List (List UInt8)}

/-- Components are joined to a text that is like a component. -/
theorem isComponent_intercalate (hne : texts ≠ []) (h : ∀ text ∈ texts, IsComponent text) :
    IsComponent ([slash].intercalate texts) := by
  induction texts with
  | nil => exact absurd rfl hne
  | cons text texts ih =>
    obtain ⟨htext, htexts⟩ := List.forall_mem_cons.mp h
    obtain ⟨first, rest, rfl⟩ := List.exists_cons_of_ne_nil htext.ne_nil
    cases texts with
    | nil => simpa using htext
    | cons next texts =>
      have hjoined := ih (List.cons_ne_nil _ _) htexts
      obtain ⟨other, others, hother⟩ := List.exists_cons_of_ne_nil hjoined.ne_nil
      have hlast := hjoined.last
      rw [hother] at hlast
      rw [List.intercalate_cons_cons, hother]
      refine ⟨by simp, by simpa using htext.head, ?_⟩
      rw [List.getLast?_append_of_ne_nil _ (List.cons_ne_nil _ _)]
      exact hlast

/-- The segments of components that are joined are the segments of one after the other. -/
theorem splitOn_intercalate_texts (hne : texts ≠ []) :
    ([slash].intercalate texts).splitOn slash = texts.flatMap (List.splitOn slash) := by
  induction texts with
  | nil => exact absurd rfl hne
  | cons text texts ih =>
    cases texts with
    | nil => simp
    | cons next texts =>
      rw [List.intercalate_cons_cons, List.append_assoc, List.singleton_append,
        List.splitOn_append_cons_self, ih (List.cons_ne_nil _ _)]
      rfl

/-- All segments of a component are kept. -/
theorem IsComponent.dropLastEmpty_eq (h : IsComponent text) :
    dropLastEmpty ((text.dropWhile (· = slash)).splitOn slash) = text.splitOn slash := by
  have hskip : text.dropWhile (· = slash) = text := by
    obtain ⟨first, rest, rfl⟩ := List.exists_cons_of_ne_nil h.ne_nil
    have hfirst : first ≠ slash := fun heq => h.head (by rw [heq]; rfl)
    exact List.dropWhile_cons_of_neg (by simpa using hfirst)
  rw [hskip, dropLastEmpty, if_neg]
  rw [getLast?_splitOn_eq_nil_iff]
  exact not_or.mpr ⟨h.ne_nil, h.last⟩

theorem mem_intercalate {byte : UInt8} (hmem : byte ∈ [slash].intercalate texts) :
    byte = slash ∨ ∃ text ∈ texts, byte ∈ text := by
  induction texts with
  | nil => cases hmem
  | cons text texts ih =>
    cases texts with
    | nil => exact .inr ⟨text, by simp, by simpa using hmem⟩
    | cons next texts =>
      rw [List.intercalate_cons_cons, List.mem_append, List.mem_append] at hmem
      rcases hmem with (hmem | hmem) | hmem
      · exact .inr ⟨text, by simp, hmem⟩
      · exact .inl (List.mem_singleton.mp hmem)
      · exact (ih hmem).imp_right fun ⟨other, hother, hbyte⟩ =>
          ⟨other, List.mem_cons_of_mem _ hother, hbyte⟩

/-- The segments of a path vector are the ones of its components joined to one path. -/
theorem uriSegments_intercalate (pathv : List (List UInt8))
    (h : ∀ path ∈ pathv, IsComponent (cString path)) :
    uriSegments ([slash].intercalate (pathv.map cString)) = pathv.flatMap uriSegments := by
  by_cases hnil : pathv = []
  · rw [hnil]
    rfl
  · have hne : pathv.map cString ≠ [] := by simpa using hnil
    have htexts : ∀ text ∈ pathv.map cString, IsComponent text := by
      intro text htext
      obtain ⟨path, hpath, rfl⟩ := List.mem_map.mp htext
      exact h path hpath
    have hwhole : cString ([slash].intercalate (pathv.map cString)) =
        [slash].intercalate (pathv.map cString) := by
      refine List.takeWhile_eq_self_iff.mpr fun byte hbyte => ?_
      rcases mem_intercalate hbyte with rfl | ⟨text, htext, hmem⟩
      · decide
      · obtain ⟨path, -, rfl⟩ := List.mem_map.mp htext
        have hall : (cString path).all fun byte => decide (byte ≠ 0) := List.all_takeWhile
        exact List.all_eq_true.mp hall byte hmem
    rw [uriSegments, hwhole, (isComponent_intercalate hne htexts).dropLastEmpty_eq,
      splitOn_intercalate_texts hne, List.flatMap_map]
    exact List.flatMap_congr fun path hpath => ((h path hpath).dropLastEmpty_eq).symm

end Components

/-- A path is appended as some segments: they fit, each is an option of its own, and they are
joined to the text of the path less one slash at its end. -/
structure SplitsInto (header : List UInt8) (entries : List Entry) (text : List UInt8)
    (segments : List (List UInt8)) (result : ℤ × CoapPacket) : Prop where
  ok : result.1 = 0
  written : Written header
    (entries ++ segments.map fun segment => (OptionNum.uriPath.value, segment)) result.2
  joined : [slash].intercalate segments = text ∨ [slash].intercalate segments ++ [slash] = text

/-- **Path splitting.** The segments of a path are what lies between the slashes of its text but
for a last empty one, and a path vector of components is appended like the path they are joined
to. -/
theorem uriPath_splits {z : Zephyr} (hz : z.WritingContract) (hroom : z.RoomContract)
    {header : List UInt8} {entries : List Entry} {packet : CoapPacket}
    (hwritten : Written header entries packet)
    (hlast : lastNumber 0 entries ≤ OptionNum.uriPath.value) (hmax : packet.maxLen < 2 ^ 16) :
    (∀ memory length,
      packet.offset + segmentsLen (dropLastEmpty ((pathText memory length).splitOn slash)) ≤
        packet.maxLen →
      SplitsInto header entries (pathText memory length)
        (dropLastEmpty ((pathText memory length).splitOn slash))
        (coapPacketAppendUriPathFromStringRange z packet memory length)) ∧
    ∀ pathv : List (List UInt8), (∀ path ∈ pathv, IsComponent (cString path)) →
      coapPacketAppendUriPathFromPathv z packet pathv =
        coapPacketAppendUriPathFromStringRange z packet ([slash].intercalate (pathv.map cString))
          none := by
  constructor
  · intro memory length hfits
    set segments := dropLastEmpty ((pathText memory length).splitOn slash) with hsegments
    have hwhole : ∀ segment ∈ segments, narrowed segment = segment := by
      intro segment hmem
      have hle : segmentLen segment ≤ segmentsLen segments := segmentLen_le_of_mem hmem
      rw [narrowed_eq_iff]
      rw [segmentLen] at hle
      omega
    have hnarrowed : segments.map narrowed = segments := by
      conv_rhs => rw [← List.map_id segments]
      exact List.map_congr_left hwhole
    have hoptions : pathOptions segments =
        segments.map fun segment => (OptionNum.uriPath.value, segment) :=
      List.map_congr_left fun segment hmem => by rw [hwhole segment hmem]
    have hdelta : packet.delta ≤ OptionNum.uriPath.value := hwritten.delta.trans_le hlast
    have hok := (appendSegments_eq_zero_iff hz hroom segments hdelta (by omega)).mpr
      (by rw [hnarrowed]; exact hfits)
    rw [stringRange_eq_segments]
    have happended := writes_appendSegments hz segments hwritten hlast hok
    rw [hoptions] at happended
    exact ⟨hok, happended, intercalate_dropLastEmpty _⟩
  · intro pathv hpathv
    rw [coapPacketAppendUriPathFromPathv_eq, coapPacketAppendUriPathFromStringRange_eq,
      uriSegments_intercalate pathv hpathv]

theorem uriPath_splits_sample :
    (∀ memory length,
      samplePacket.offset +
          segmentsLen (dropLastEmpty ((pathText memory length).splitOn slash)) ≤ 64 →
      SplitsInto (List.replicate 12 0) [] (pathText memory length)
        (dropLastEmpty ((pathText memory length).splitOn slash))
        (coapPacketAppendUriPathFromStringRange Reference.zephyr samplePacket memory length)) ∧
    ∀ pathv : List (List UInt8), (∀ path ∈ pathv, IsComponent (cString path)) →
      coapPacketAppendUriPathFromPathv Reference.zephyr samplePacket pathv =
        coapPacketAppendUriPathFromStringRange Reference.zephyr samplePacket
          ([slash].intercalate (pathv.map cString)) none := by
  have hwritten : Written (List.replicate 12 0) [] samplePacket := ⟨rfl, trivial, rfl⟩
  exact uriPath_splits Reference.writingContract Reference.roomContract hwritten (by decide)
    (by decide)

/-! ## Which bytes are read

An address is the distance from the beginning of the range. -/

/-- The addresses of the bytes a Uri-Path option is appended from; `address` is where its segment
ends. -/
def segmentReads (address : ℕ) (segment : List UInt8) : List ℕ :=
  List.range' (address - segment.length) (segment.length % 2 ^ 16)

/-- The loop that skips the leading slashes reads them and the byte after them. -/
def skipReads : (memory : List UInt8) → (address : ℕ) → List ℕ
  | [], address => [address]
  | byte :: memory, address =>
    address :: if byte = slash then skipReads memory (address + 1) else []

/-- `scanUriPath` with the addresses it reads, for a range that ends; `address` is the one of
`p`. -/
def scanUriPathReads (z : Zephyr) :
    (memory : List UInt8) → (room : ℕ) → (address : ℕ) → (segment : List UInt8) → CoapPacket →
      List ℕ × (ℤ × CoapPacket)
  | [], room, address, segment, packet =>
    ((if room = 0 then [] else [address]) ++ segmentReads address segment,
      if segment = [] then (0, packet) else appendUriPath z packet segment)
  | byte :: memory, room, address, segment, packet =>
    if room = 0 ∨ byte = 0 then
      ((if room = 0 then [] else [address]) ++ segmentReads address segment,
        if segment = [] then (0, packet) else appendUriPath z packet segment)
    else if byte = slash then
      -- the segment before the slash, whose bytes are read again to be copied
      let appended := appendUriPath z packet segment
      let reads := address :: segmentReads address segment
      if appended.1 = 0 then
        let rest := scanUriPathReads z memory (room - 1) (address + 1) [] appended.2
        (reads ++ rest.1, rest.2)
      else (reads, appended)
    else
      let rest := scanUriPathReads z memory (room - 1) (address + 1) (segment ++ [byte]) packet
      (address :: rest.1, rest.2)

/-- The addresses that `coap_packet_append_uri_path_from_string_range` reads. -/
def stringRangeReads (z : Zephyr) (packet : CoapPacket) (memory : List UInt8) (length : ℕ) :
    List ℕ :=
  let trimmed := memory.dropWhile (· = slash)
  let skipped := memory.length - trimmed.length
  skipReads memory 0 ++ (scanUriPathReads z trimmed (length - skipped) skipped [] packet).1

/-- Some byte of the range is not a slash; the memory past the end of the list is zero. -/
def HasOtherByte (memory : List UInt8) (length : ℕ) : Prop :=
  ∃ address < length, memory.getD address 0 ≠ slash

section Reads

variable {z : Zephyr} {packet : CoapPacket} {memory segment : List UInt8} {room address length : ℕ}

/-- The addresses are the ones of the loop. -/
theorem snd_scanUriPathReads (z : Zephyr) (memory : List UInt8) (room address : ℕ)
    (segment : List UInt8) (packet : CoapPacket) :
    (scanUriPathReads z memory room address segment packet).2 =
      scanUriPath z memory (some room) segment packet := by
  induction memory generalizing room address segment packet with
  | nil => rfl
  | cons byte memory ih =>
    rw [scanUriPathReads, scanUriPath]
    simp only [Option.some.injEq, Option.map_some]
    split
    · rfl
    · split
      · rw [orReturn]
        split
        · exact ih _ _ _ _
        · rfl
      · exact ih _ _ _ _

/-- The bytes of a segment lie before its end. -/
theorem lt_of_mem_segmentReads {a : ℕ} (h : a ∈ segmentReads address segment)
    (hle : segment.length ≤ address) : a < address := by
  rw [segmentReads, List.mem_range'_1] at h
  have hmod := Nat.mod_le segment.length (2 ^ 16)
  omega

/-- **Run of the loop.** The second loop stays in the range. -/
theorem lt_of_mem_scanUriPathReads {a : ℕ}
    (h : a ∈ (scanUriPathReads z memory room address segment packet).1)
    (hle : segment.length ≤ address) : a < address + room := by
  have hlast : ∀ {room address : ℕ} {segment : List UInt8}, segment.length ≤ address →
      a ∈ (if room = 0 then [] else [address]) ++ segmentReads address segment →
      a < address + room := by
    intro room address segment hle hmem
    rcases List.mem_append.mp hmem with hmem | hmem
    · split at hmem
      · cases hmem
      · rw [List.mem_singleton] at hmem
        omega
    · exact (lt_of_mem_segmentReads hmem hle).trans_le (Nat.le_add_right _ _)
  induction memory generalizing room address segment packet with
  | nil => exact hlast hle h
  | cons byte memory ih =>
    rw [scanUriPathReads] at h
    split at h
    · exact hlast hle h
    · next hgoes =>
      have hroom : room ≠ 0 := fun hzero => hgoes (.inl hzero)
      split at h
      · dsimp only at h
        split at h
        · rw [List.mem_append, List.mem_cons] at h
          rcases h with (rfl | hmem) | hrest
          · omega
          · have := lt_of_mem_segmentReads hmem hle
            omega
          · have := ih hrest (Nat.zero_le _)
            omega
        · rw [List.mem_cons] at h
          rcases h with rfl | hmem
          · omega
          · have := lt_of_mem_segmentReads hmem hle
            omega
      · rw [List.mem_cons] at h
        rcases h with rfl | hrest
        · omega
        · have hnext := ih hrest (by rw [List.length_append, List.length_singleton]; omega)
          omega

/-- The first loop reads up to the first byte that is not a slash. -/
theorem mem_skipReads_iff {a : ℕ} :
    a ∈ skipReads memory address ↔ address ≤ a ∧
      a ≤ address + (memory.length - (memory.dropWhile (· = slash)).length) := by
  induction memory generalizing address with
  | nil =>
    simp only [skipReads, List.mem_singleton, List.dropWhile_nil, Nat.sub_self, Nat.add_zero]
    omega
  | cons byte memory ih =>
    have hle := (List.dropWhile_sublist (· = slash) (l := memory)).length_le
    rw [skipReads, List.mem_cons]
    by_cases hslash : byte = slash
    · rw [if_pos hslash, List.dropWhile_cons_of_pos (by simpa using hslash), ih, List.length_cons]
      omega
    · rw [if_neg hslash, List.dropWhile_cons_of_neg (by simpa using hslash), Nat.sub_self]
      simp only [List.not_mem_nil, or_false, Nat.add_zero]
      omega

/-- The first loop stays in the range exactly if it finds something else than slashes there. -/
theorem hasOtherByte_iff : HasOtherByte memory length ↔
    memory.length - (memory.dropWhile (· = slash)).length < length := by
  induction memory generalizing length with
  | nil =>
    have hother : (0 : UInt8) ≠ slash := by decide
    simp only [List.dropWhile_nil, Nat.sub_self]
    constructor
    · rintro ⟨address, hlt, -⟩
      omega
    · exact fun hpos => ⟨0, hpos, by simpa using hother⟩
  | cons byte memory ih =>
    have hle := (List.dropWhile_sublist (· = slash) (l := memory)).length_le
    by_cases hslash : byte = slash
    · rw [List.dropWhile_cons_of_pos (by simpa using hslash), List.length_cons]
      have hrest := @ih (length - 1)
      constructor
      · rintro ⟨address, hlt, hother⟩
        cases address with
        | zero => exact absurd hslash (by simpa using hother)
        | succ address =>
          have := hrest.mp ⟨address, by omega, by simpa using hother⟩
          omega
      · intro hlt
        obtain ⟨address, hlt, hother⟩ := hrest.mpr (by omega)
        exact ⟨address + 1, by omega, by simpa using hother⟩
    · rw [List.dropWhile_cons_of_neg (by simpa using hslash), Nat.sub_self]
      constructor
      · rintro ⟨address, hlt, -⟩
        omega
      · exact fun hpos => ⟨0, hpos, by simpa using hslash⟩

/-- The bytes that are read lie in the range exactly if something in it is not a slash. -/
theorem stringRangeReads_lt_iff (z : Zephyr) (packet : CoapPacket) (memory : List UInt8)
    (length : ℕ) :
    (∀ address ∈ stringRangeReads z packet memory length, address < length) ↔
      HasOtherByte memory length := by
  rw [hasOtherByte_iff]
  constructor
  · intro hreads
    refine hreads _ (List.mem_append_left _ (mem_skipReads_iff.mpr ⟨Nat.zero_le _, ?_⟩))
    omega
  · intro hlt address hmem
    rcases List.mem_append.mp hmem with hmem | hmem
    · have := (mem_skipReads_iff.mp hmem).2
      omega
    · have := lt_of_mem_scanUriPathReads hmem (Nat.zero_le _)
      omega

end Reads

end Golioth.Coap
