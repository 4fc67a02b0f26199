/-
# Maps

`zcbor_utils.c` and `zcbor_utils.h`. `zcbor_map_decode` walks through a map and
hands the value of each key it knows to the decoder of an entry of a table; it
skips the values of the other keys. The loops of the client go on for as many
iterations as they are given fuel for.
-/
import Golioth.Zcbor.Library

namespace Golioth.Zcbor

variable {S σ : Type}

/-! ## Keys and entries -/

/-- What a key says: its type and its value. -/
inductive Key
  | u32 (value : UInt32)
  | tstr (text : List UInt8)
  deriving DecidableEq, Repr

def Key.type : Key → ZcborMapKeyType
  | .u32 _ => .u32
  | .tstr _ => .tstr

/-- `struct zcbor_map_entry`: a key and the decoder of its value, which is given the variable
to decode into as part of the state. -/
structure ZcborMapEntry (S σ : Type) where
  key : Key
  decode : Cursor S σ → Walked S σ

/-- What the key that was decoded last says. -/
def ZcborMapKey.content (lib : ZcborDecode S) (zsd : S) (key : ZcborMapKey) : Key :=
  match key.type with
  | .u32 => .u32 key.word
  | .tstr => .tstr (lib.bytes zsd key.word key.len)

/-- The comparison `map_entry_get` makes with one entry, by the type of the entry. -/
def comparesEqual (lib : ZcborDecode S) (zsd : S) (key : ZcborMapKey) : Key → Bool
  | .u32 value => value = key.word
  | .tstr text => key.len = text.length && lib.bytes zsd key.word text.length = text

/-- `map_entry_get`: the place of the first entry that compares equal. -/
def mapEntryGet (lib : ZcborDecode S) (zsd : S) (entries : List (ZcborMapEntry S σ))
    (key : ZcborMapKey) : Option ℕ :=
  entries.findIdx? fun entry => comparesEqual lib zsd key entry.key

/-! ## Decoders of single values -/

/-- `zcbor_list_or_map_end`. -/
def zcborListOrMapEnd (lib : ZcborDecode S) (w : Cursor S σ) : Bool × Cursor S σ :=
  if lib.indefiniteLengthArray w.zsd then
    let (header, w) := readHeader lib w
    (header = breakByte, w)
  else (lib.elemCount w.zsd = 0, w)

/-- A variable of the client, and whether it has been decoded into. -/
structure Local (α : Type) where
  value : α
  decoded : Bool := false

/-- `zcbor_map_int64_decode` into the variable that `assign` writes. -/
def zcborMapInt64Decode (lib : ZcborDecode S) (assign : ℤ → σ → σ) (w : Cursor S σ) :
    Walked S σ :=
  match lib.int64Decode w.zsd with
  | (some value, zsd) => (some 0, { w with zsd := zsd, out := assign value w.out })
  | (none, zsd) => (some (-Errno.ebadmsg), { w with zsd := zsd })

/-- `zcbor_map_tstr_decode` into the variable that `assign` writes. -/
def zcborMapTstrDecode (lib : ZcborDecode S) (assign : ZcborString → σ → σ) (w : Cursor S σ) :
    Walked S σ :=
  match lib.tstrDecode w.zsd with
  | (some str, zsd) => (some 0, { w with zsd := zsd, out := assign str w.out })
  | (none, zsd) => (some (-Errno.ebadmsg), { w with zsd := zsd })

/-- `zcbor_map_key_decode` into a key variable. -/
def zcborMapKeyDecode (lib : ZcborDecode S) (w : Cursor S σ) (key : ZcborMapKey) :
    ℤ × ZcborMapKey × Cursor S σ :=
  let (header, w) := readHeader lib w
  match majorType header with
  | .tstr =>
    match lib.tstrDecode w.zsd with
    | (some str, zsd) =>
      (0, { type := .tstr, word := str.value, len := str.len }, { w with zsd := zsd })
    | (none, zsd) => (-Errno.ebadmsg, key, { w with zsd := zsd })
  | .pint =>
    match lib.uint32Decode w.zsd with
    -- the integer takes the place of the pointer, and the length stays
    | (some value, zsd) => (0, { key with type := .u32, word := value }, { w with zsd := zsd })
    | (none, zsd) => (-Errno.ebadmsg, key, { w with zsd := zsd })
  | _ => (-Errno.ebadmsg, key, w)

/-! ## The loop -/

/-- One lookup of the loop: the decoding state and the key it looks up, the entry it selects,
and what the decoder of the entry returns. -/
structure Visit (S : Type) where
  zsd : S
  key : ZcborMapKey
  selected : Option ℕ
  ret : Option ℤ

/-- How an iteration of the loop of `zcbor_map_decode` ends. -/
inductive Iteration (S σ : Type)
  /-- The map has ended. -/
  | atEnd (w : Cursor S σ)
  /-- The function returns. -/
  | returned (err : ℤ) (visits : List (Visit S)) (w : Cursor S σ)
  /-- The decoder of an entry has not returned. -/
  | running (visit : Visit S) (w : Cursor S σ)
  /-- The loop goes on, with a new key in the key variable. -/
  | passed (visit : Visit S) (w : Cursor S σ)

/-- Look up a key, and decode or skip its value. -/
def decodeValue (lib : ZcborDecode S) (entries : List (ZcborMapEntry S σ)) (key : ZcborMapKey)
    (w : Cursor S σ) : Iteration S σ :=
  let selected := mapEntryGet lib w.zsd entries key
  match selected.bind fun i => entries[i]? with
  | some entry =>
    match entry.decode w with
    | (some 0, w') => .passed ⟨w.zsd, key, selected, some 0⟩ w'
    | (some err, w') => .returned err [⟨w.zsd, key, selected, some err⟩] w'
    | (none, w') => .running ⟨w.zsd, key, selected, none⟩ w'
  | none =>
    -- a key that is not in the table
    match lib.anySkip w.zsd with
    | (true, zsd) => .passed ⟨w.zsd, key, selected, some 0⟩ { w with zsd := zsd }
    | (false, zsd) =>
      .returned (-Errno.ebadmsg) [⟨w.zsd, key, selected, some (-Errno.ebadmsg)⟩]
        { w with zsd := zsd }

/-- An iteration of the loop of `zcbor_map_decode`, before which the key variable holds `key`. -/
def decodeNext (lib : ZcborDecode S) (entries : List (ZcborMapEntry S σ)) (key : ZcborMapKey)
    (w : Cursor S σ) : Iteration S σ :=
  match zcborListOrMapEnd lib (w.record (.key w.zsd)) with
  | (true, w) => .atEnd w
  | (false, w) =>
    match zcborMapKeyDecode lib w key with
    | (0, key, w) => decodeValue lib entries key w
    | (err, _, w) => .returned err [] w

/-- How the loop of `zcbor_map_decode` ends: its fuel does not suffice, it returns from the
function, or it is left after a number of entries has been decoded. -/
inductive LoopEnd
  | running
  | returned (err : ℤ)
  | finished (numDecoded : ℕ)
  deriving DecidableEq, Repr

/-- The number of entries that have been decoded after a lookup. -/
def Visit.count (visit : Visit S) (numDecoded : ℕ) : ℕ :=
  if visit.selected.isSome then numDecoded + 1 else numDecoded

/-- The loop of `zcbor_map_decode`, with the lookups it makes. -/
def decodeEntries (lib : ZcborDecode S) (entries : List (ZcborMapEntry S σ)) :
    (fuel : ℕ) → (key : ZcborMapKey) → (numDecoded : ℕ) → Cursor S σ →
      LoopEnd × List (Visit S) × Cursor S σ
  | 0, _, _, w => (.running, [], w)
  | fuel + 1, key, numDecoded, w =>
    if numDecoded < entries.length then
      match decodeNext lib entries key w with
      | .atEnd w => (.finished numDecoded, [], w)
      | .returned err visits w => (.returned err, visits, w)
      | .running visit w => (.running, [visit], w)
      | .passed visit w =>
        let rest := decodeEntries lib entries fuel visit.key (visit.count numDecoded) w
        (rest.1, visit :: rest.2.1, rest.2.2)
    else (.finished numDecoded, [], w)

/-- The label `map_end_decode` of `zcbor_map_decode`. -/
def mapEndDecode (lib : ZcborDecode S) (err : ℤ) (w : Cursor S σ) : Walked S σ :=
  okOrReturn (-Errno.ebadmsg) w (lib.listMapEndForceDecode w.zsd) fun w => (some err, w)

/-- What follows the loop of `zcbor_map_decode`. -/
def afterLoop (lib : ZcborDecode S) (numEntries : ℕ) (w : Cursor S σ) : LoopEnd → Walked S σ
  | .running => (none, w)
  | .returned err => (some err, w)
  | .finished numDecoded =>
    if numDecoded = 0 then mapEndDecode lib (-Errno.enoent) w
    else if numDecoded < numEntries then (some (-Errno.ebadmsg), w)
    else mapEndDecode lib 0 w

/-- `zcbor_map_decode`, with the lookups it makes. -/
def zcborMapDecodeVisits (lib : ZcborDecode S) (fuel : ℕ) (entries : List (ZcborMapEntry S σ))
    (w : Cursor S σ) : List (Visit S) × Walked S σ :=
  match lib.mapStartDecode w.zsd with
  | (false, zsd) => ([], some (-Errno.ebadmsg), { w with zsd := zsd })
  | (true, zsd) =>
    let loop := decodeEntries lib entries fuel (lib.unassignedKey w.zsd) 0 { w with zsd := zsd }
    (loop.2.1, afterLoop lib entries.length loop.2.2 loop.1)

/-- `zcbor_map_decode`. -/
def zcborMapDecode (lib : ZcborDecode S) (fuel : ℕ) (entries : List (ZcborMapEntry S σ))
    (w : Cursor S σ) : Walked S σ :=
  (zcborMapDecodeVisits lib fuel entries w).2

/-! ## Rules for the loop -/

/-- The lookups of an iteration. -/
def Iteration.visits : Iteration S σ → List (Visit S)
  | .atEnd _ => []
  | .returned _ visits _ => visits
  | .running visit _ => [visit]
  | .passed visit _ => [visit]

/-- The state an iteration leaves. -/
def Iteration.cursor : Iteration S σ → Cursor S σ
  | .atEnd w => w
  | .returned _ _ w => w
  | .running _ w => w
  | .passed _ w => w

section Rules

variable {lib : ZcborDecode S} {entries : List (ZcborMapEntry S σ)} {fuel : ℕ}
  {key : ZcborMapKey} {numDecoded : ℕ} {w : Cursor S σ}

/-- **Lookup rule.** What holds of the lookups of every iteration holds of those of the loop. -/
theorem forall_visits {p : Visit S → Prop}
    (hnext : ∀ key (w : Cursor S σ), ∀ visit ∈ (decodeNext lib entries key w).visits, p visit) :
    ∀ visit ∈ (decodeEntries lib entries fuel key numDecoded w).2.1, p visit := by
  induction fuel generalizing key numDecoded w with
  | zero => simp [decodeEntries]
  | succ fuel ih =>
    rw [decodeEntries]
    split
    · have hvisits := hnext key w
      cases hiteration : decodeNext lib entries key w with
      | atEnd w => simp
      | returned err visits w => simpa [hiteration, Iteration.visits] using hvisits
      | running visit w => simpa [hiteration, Iteration.visits] using hvisits
      | passed visit w =>
        rw [hiteration] at hvisits
        exact List.forall_mem_cons.mpr ⟨hvisits visit List.mem_cons_self, ih⟩
    · simp

/-- **State rule.** A relation that composes holds between the ends of the loop if it holds
between the ends of every iteration. -/
theorem decodeEntries_rel {r : Cursor S σ → Cursor S σ → Prop} (hrefl : ∀ w, r w w)
    (htrans : ∀ {w w' w''}, r w w' → r w' w'' → r w w'')
    (hnext : ∀ key w, r w (decodeNext lib entries key w).cursor) :
    r w (decodeEntries lib entries fuel key numDecoded w).2.2 := by
  induction fuel generalizing key numDecoded w with
  | zero => exact hrefl w
  | succ fuel ih =>
    rw [decodeEntries]
    split
    · have hstep := hnext key w
      cases hiteration : decodeNext lib entries key w with
      | atEnd w' => simpa [hiteration, Iteration.cursor] using hstep
      | returned err visits w' => simpa [hiteration, Iteration.cursor] using hstep
      | running visit w' => simpa [hiteration, Iteration.cursor] using hstep
      | passed visit w' =>
        rw [hiteration] at hstep
        exact htrans hstep ih
    · exact hrefl w

/-- A key is looked up in the state after it has been decoded. -/
theorem selected_of_decodeValue :
    ∀ visit ∈ (decodeValue lib entries key w).visits,
      visit.selected = mapEntryGet lib visit.zsd entries visit.key := by
  intro visit hmem
  unfold decodeValue at hmem
  dsimp only at hmem
  split at hmem <;> split at hmem <;>
    simp only [Iteration.visits, List.mem_singleton] at hmem <;> rw [hmem]

theorem selected_of_decodeNext :
    ∀ visit ∈ (decodeNext lib entries key w).visits,
      visit.selected = mapEntryGet lib visit.zsd entries visit.key := by
  unfold decodeNext
  split
  · simp [Iteration.visits]
  · split
    · exact selected_of_decodeValue
    · simp [Iteration.visits]

/-- The loop looks up every key by `map_entry_get`. -/
theorem selected_of_visits :
    ∀ visit ∈ (zcborMapDecodeVisits lib fuel entries w).1,
      visit.selected = mapEntryGet lib visit.zsd entries visit.key := by
  rw [zcborMapDecodeVisits]
  split
  · simp
  · exact forall_visits fun _ _ => selected_of_decodeNext

end Rules

end Golioth.Zcbor
