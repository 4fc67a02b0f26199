/-
# Encoding in place

The encoding functions of zcbor over a buffer in memory. A string can be encoded
from any place, also from the rest of the buffer it is encoded into: its header is
written at the payload pointer, and then its bytes are moved behind the header.

The contract below is what zcbor documents for these functions. Whatever they
copy is recorded, so that it can be said which bytes have been overwritten.
-/
import Golioth.CS.Memory
import Golioth.Zcbor.Encoding

namespace Golioth.Zcbor

open CS CS.Cbor

/-! ## States -/

/-- `zcbor_state_t`, with the memory of the buffer; pointers are offsets in the buffer. -/
structure EncodeState where
  mem : Memory
  payload : ℕ
  payloadEnd : ℕ
  copies : List Copy

namespace EncodeState

/-- Bytes from elsewhere are written at the payload pointer. -/
def store (s : EncodeState) (bytes : List UInt8) : EncodeState where
  mem := s.mem.write s.payload bytes
  payload := s.payload + bytes.length
  payloadEnd := s.payloadEnd
  copies := s.copies ++ [{ target := s.payload, len := bytes.length, source := none }]

/-- `memmove` to the payload pointer. -/
def move (s : EncodeState) (ptr len : ℕ) : EncodeState where
  mem := s.mem.write s.payload (s.mem.read ptr len)
  payload := s.payload + len
  payloadEnd := s.payloadEnd
  copies := s.copies ++ [{ target := s.payload, len := len, source := some ptr }]

/-- A header is written and then the bytes that belong to it are moved behind it. -/
def encode (s : EncodeState) (header : List UInt8) (ptr len : ℕ) : EncodeState :=
  (s.store header).move ptr len

/-- The copies ended before the payload pointer, and none of them wrote where a later one read. -/
structure Orderly (s : EncodeState) : Prop where
  below : ∀ copy ∈ s.copies, copy.target + copy.len ≤ s.payload
  sparing : Sparing s.copies

variable {s : EncodeState}

theorem Orderly.store (h : s.Orderly) (bytes : List UInt8) : (s.store bytes).Orderly where
  below copy hcopy := by
    rcases List.mem_append.mp hcopy with hcopy | hcopy
    · exact (h.below copy hcopy).trans (Nat.le_add_right _ _)
    · rw [List.mem_singleton.mp hcopy]
      exact le_refl _
  sparing := sparing_append_singleton.mpr
    ⟨h.sparing, fun _ _ => Copy.spares_of_source_eq_none rfl⟩

theorem Orderly.move (h : s.Orderly) {ptr : ℕ} (hptr : s.payload ≤ ptr) (len : ℕ) :
    (s.move ptr len).Orderly where
  below copy hcopy := by
    rcases List.mem_append.mp hcopy with hcopy | hcopy
    · exact (h.below copy hcopy).trans (Nat.le_add_right _ _)
    · rw [List.mem_singleton.mp hcopy]
      exact le_refl _
  sparing := by
    refine sparing_append_singleton.mpr ⟨h.sparing, fun copy hcopy source hsource => .inl ?_⟩
    cases hsource
    exact (h.below copy hcopy).trans hptr

/-- A string is moved from behind its header. -/
theorem Orderly.encode (h : s.Orderly) {header : List UInt8} {ptr : ℕ}
    (hptr : s.payload + header.length ≤ ptr) (len : ℕ) : (s.encode header ptr len).Orderly :=
  (h.store header).move hptr len

end EncodeState

/-! ## The functions -/

/-- The encoding functions of zcbor over a buffer. -/
structure ZcborInPlace where
  newEncodeState : Memory → (payload payloadLen elemCount : ℕ) → EncodeState
  mapStartEncode : (maxNum : ℕ) → EncodeState → Bool × EncodeState
  mapEndEncode : (maxNum : ℕ) → EncodeState → Bool × EncodeState
  uint32Put : UInt32 → EncodeState → Bool × EncodeState
  uint64Put : UInt64 → EncodeState → Bool × EncodeState
  tstrPutLit : List UInt8 → EncodeState → Bool × EncodeState
  tstrPutTerm : List UInt8 → EncodeState → Bool × EncodeState
  tstrEncodePtr : (ptr len : ℕ) → EncodeState → Bool × EncodeState
  bstrEncodePtr : (ptr len : ℕ) → EncodeState → Bool × EncodeState

/-- The bytes that the functions write: the header of a string of some length, and a number. -/
structure InPlaceLayout where
  profile : Profile
  header : (major len : ℕ) → List UInt8
  natural : ℕ → List UInt8

/-- A text with its header. -/
def InPlaceLayout.text (layout : InPlaceLayout) (text : List UInt8) : List UInt8 :=
  layout.header 3 text.length ++ text

/-- How many bytes the header of a string takes. -/
def headerLen (len : ℕ) : ℕ := if len < 24 then 1 else if len < 2 ^ 8 then 2 else 3

theorem headerLen_le (len : ℕ) : headerLen len ≤ 3 := by
  unfold headerLen
  split_ifs <;> decide

/-- A function writes bytes if there is room for all of them, and nothing otherwise. -/
structure Stores (encode : EncodeState → Bool × EncodeState) (bytes : List UInt8) : Prop where
  fits : ∀ s : EncodeState, s.payload + bytes.length ≤ s.payloadEnd →
    encode s = (true, s.store bytes)
  full : ∀ s : EncodeState, s.payloadEnd < s.payload + bytes.length → encode s = (false, s)

/-- A function writes a header and moves bytes behind it if there is room for both, and does
nothing otherwise. -/
structure Moves (encode : EncodeState → Bool × EncodeState) (header : List UInt8) (ptr len : ℕ) :
    Prop where
  fits : ∀ s : EncodeState, s.payload + (header.length + len) ≤ s.payloadEnd →
    encode s = (true, s.encode header ptr len)
  full : ∀ s : EncodeState, s.payloadEnd < s.payload + (header.length + len) →
    encode s = (false, s)

/-- The functions of zcbor do what is documented of them. -/
structure InPlaceContract (lib : ZcborInPlace) (layout : InPlaceLayout) : Prop where
  newEncodeState : ∀ mem payload payloadLen elemCount,
    lib.newEncodeState mem payload payloadLen elemCount =
      { mem := mem, payload := payload, payloadEnd := payload + payloadLen, copies := [] }
  mapStart : ∀ maxNum, Stores (lib.mapStartEncode maxNum) mapHead
  mapEnd : ∀ maxNum, Stores (lib.mapEndEncode maxNum) [breakCode]
  uint32 : ∀ value, Stores (lib.uint32Put value) (layout.natural value.toNat)
  uint64 : ∀ value, Stores (lib.uint64Put value) (layout.natural value.toNat)
  tstrLit : ∀ text, Stores (lib.tstrPutLit text) (layout.text text)
  tstrTerm : ∀ text, Stores (lib.tstrPutTerm text) (layout.text text)
  tstrPtr : ∀ ptr len, Moves (lib.tstrEncodePtr ptr len) (layout.header 3 len) ptr len
  bstrPtr : ∀ ptr len, Moves (lib.bstrEncodePtr ptr len) (layout.header 2 len) ptr len
  header : ∀ major len, major = 2 ∨ major = 3 → len < 2 ^ 16 →
    layout.profile.Counts major len (layout.header major len)
  length_header : ∀ major len, len < 2 ^ 16 → (layout.header major len).length = headerLen len
  natural : ∀ n : ℕ, n < 2 ^ 64 → IntegerItem n (layout.natural n)

/-! ## An encoder over a buffer -/

namespace Reference

def storing (bytes : List UInt8) (s : EncodeState) : Bool × EncodeState :=
  if s.payload + bytes.length ≤ s.payloadEnd then (true, s.store bytes) else (false, s)

def moving (major ptr len : ℕ) (s : EncodeState) : Bool × EncodeState :=
  if s.payload + ((headerOf major len).length + len) ≤ s.payloadEnd then
    (true, s.encode (headerOf major len) ptr len)
  else (false, s)

/-- The encoder over a buffer. -/
def inPlace : ZcborInPlace where
  newEncodeState mem payload payloadLen _ :=
    { mem := mem, payload := payload, payloadEnd := payload + payloadLen, copies := [] }
  mapStartEncode _ := storing [0xbf]
  mapEndEncode _ := storing [breakByte]
  uint32Put value := storing (headerOf 0 value.toNat)
  uint64Put value := storing (headerOf 0 value.toNat)
  tstrPutLit text := storing (headerOf 3 text.length ++ text)
  tstrPutTerm text := storing (headerOf 3 text.length ++ text)
  tstrEncodePtr := moving 3
  bstrEncodePtr := moving 2

def inPlaceLayout : InPlaceLayout where
  profile := profile
  header := headerOf
  natural := headerOf 0

theorem stores_storing (bytes : List UInt8) : Stores (storing bytes) bytes where
  fits _ hfits := if_pos hfits
  full _ hfull := if_neg (not_le.mpr hfull)

theorem moves_moving (major ptr len : ℕ) :
    Moves (moving major ptr len) (headerOf major len) ptr len where
  fits _ hfits := if_pos hfits
  full _ hfull := if_neg (not_le.mpr hfull)

theorem inPlaceContract : InPlaceContract inPlace inPlaceLayout where
  newEncodeState _ _ _ _ := rfl
  mapStart _ := stores_storing _
  mapEnd _ := stores_storing _
  uint32 _ := stores_storing _
  uint64 _ := stores_storing _
  tstrLit _ := stores_storing _
  tstrTerm _ := stores_storing _
  tstrPtr := moves_moving 3
  bstrPtr := moves_moving 2
  header major len hmajor hlen :=
    ⟨head_headerOf (by omega) (by omega), length_headerOf_le (by omega)⟩
  length_header major len hlen := by
    show (headerOf major len).length = headerLen len
    rw [headerOf, headerLen]
    split_ifs <;> simp [length_toBytes]
  natural n hn := ⟨n, .inl ⟨head_headerOf (by decide) hn, rfl⟩⟩

end Reference

end Golioth.Zcbor
