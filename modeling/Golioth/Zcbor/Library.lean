/-
# The zcbor library

The functions of `zcbor_decode.h` and `zcbor_encode.h` that the client calls, as
parameters over the type of a decoding or encoding state. A function of the
library returns its `bool` or its value, and the state as it leaves it.

The client also looks into a decoding state itself: it reads the byte at the
payload pointer, and whether the present container has an indefinite length or
how many of its elements are left.
-/
import Golioth.Platform

namespace Golioth.Zcbor

/-- `struct zcbor_string`: a pointer and a length. -/
structure ZcborString where
  value : UInt32
  len : ℕ
  deriving DecidableEq, Repr

/-- The types of map keys, `ZCBOR_MAP_KEY_TYPE_U32` and `ZCBOR_MAP_KEY_TYPE_TSTR`. -/
inductive ZcborMapKeyType
  | u32
  | tstr
  deriving DecidableEq, Repr

/-- `struct zcbor_map_key` as it lies in memory: the word at the start of its union is the
integer or the pointer of the string, and the length follows it. -/
structure ZcborMapKey where
  type : ZcborMapKeyType
  word : UInt32
  len : ℕ
  deriving DecidableEq, Repr

/-- The decoding functions of zcbor over a type of states, and what the client reads from a
state itself. -/
structure ZcborDecode (S : Type) where
  /-- A state for a payload that holds the given number of elements, with backups. -/
  newDecodeState : (payload : List UInt8) → (elemCount backups : ℕ) → S
  /-- `payload_end - payload`. -/
  payloadLeft : S → ℕ
  /-- The byte at `payload`, whatever lies there where the payload has ended. -/
  payloadByte : S → UInt8
  indefiniteLengthArray : S → Bool
  elemCount : S → ℕ
  /-- The byte at an address. -/
  memory : S → UInt32 → UInt8
  /-- What a key variable that has not been assigned to holds. -/
  unassignedKey : S → ZcborMapKey
  mapStartDecode : S → Bool × S
  mapEndDecode : S → Bool × S
  listStartDecode : S → Bool × S
  listEndDecode : S → Bool × S
  listMapEndForceDecode : S → Bool × S
  tstrDecode : S → Option ZcborString × S
  uint32Decode : S → Option UInt32 × S
  int64Decode : S → Option ℤ × S
  floatDecode : S → Option Float × S
  boolDecode : S → Option Bool × S
  nilExpect : S → Bool × S
  anySkip : S → Bool × S

/-- The encoding functions of zcbor over a type of states. -/
structure ZcborEncode (E : Type) where
  newEncodeState : (bufLen backups : ℕ) → E
  /-- The bytes written so far, `payload - buf` of them. -/
  encoded : E → List UInt8
  mapStartEncode : (maxNum : ℕ) → E → Bool × E
  mapEndEncode : (maxNum : ℕ) → E → Bool × E
  listStartEncode : (maxNum : ℕ) → E → Bool × E
  listEndEncode : (maxNum : ℕ) → E → Bool × E
  tstrEncode : List UInt8 → E → Bool × E
  int64Put : ℤ → E → Bool × E
  uint64Put : ℕ → E → Bool × E

/-- The state after a function of the encoder that succeeded, and `-ENOMEM` otherwise. -/
def encoding {E : Type} (result : Bool × E) : Except ℤ E :=
  if result.1 then .ok result.2 else .error (-Errno.enomem)

variable {S : Type}

/-- The bytes from an address on. -/
def ZcborDecode.bytes (lib : ZcborDecode S) (zsd : S) (address : UInt32) (len : ℕ) :
    List UInt8 :=
  (List.range len).map fun i => lib.memory zsd (address + UInt32.ofNat i)

@[simp] theorem ZcborDecode.length_bytes (lib : ZcborDecode S) (zsd : S) (address : UInt32)
    (len : ℕ) : (lib.bytes zsd address len).length = len := by
  simp [ZcborDecode.bytes]

/-- The text of a string. -/
def ZcborDecode.text (lib : ZcborDecode S) (zsd : S) (str : ZcborString) : List UInt8 :=
  lib.bytes zsd str.value str.len

/-! ## Headers -/

/-- `zcbor_major_type_t`. -/
inductive MajorType
  | pint
  | nint
  | bstr
  | tstr
  | list
  | map
  | tag
  | simple
  deriving DecidableEq, Repr

/-- `ZCBOR_MAJOR_TYPE`: the first three bits of a header byte. -/
def majorType (header : UInt8) : MajorType :=
  match header.toNat / 32 with
  | 0 => .pint
  | 1 => .nint
  | 2 => .bstr
  | 3 => .tstr
  | 4 => .list
  | 5 => .map
  | 6 => .tag
  | _ => .simple

/-- The byte that ends a container of indefinite length. -/
def breakByte : UInt8 := 0xff

/-! ## The state of a walk -/

/-- What is recorded of a walk through a payload: where the walk comes to the next key of a map
that has a table or to the next element of another container, before it looks whether there is
one, where it comes to the value that belongs to a label, and where the client itself reads
the byte at the payload pointer. -/
inductive Event (S : Type)
  | key (zsd : S)
  | element (zsd : S)
  | value (zsd : S)
  | read (zsd : S)

/-- The state of the client while it walks through a payload: the decoding state, the
variables it decodes into, and the record. -/
structure Cursor (S σ : Type) where
  zsd : S
  out : σ
  log : List (Event S) := []

variable {σ : Type}

def Cursor.record (w : Cursor S σ) (event : Event S) : Cursor S σ :=
  { w with log := w.log ++ [event] }

/-- `*zsd->payload`. -/
def readHeader (lib : ZcborDecode S) (w : Cursor S σ) : UInt8 × Cursor S σ :=
  (lib.payloadByte w.zsd, w.record (.read w.zsd))

/-- What a walk returns: `none` if its steps have not been enough, and an error code
otherwise, with the state it leaves. -/
abbrev Walked (S σ : Type) := Option ℤ × Cursor S σ

/-- Go on after a function of the client that returned zero. -/
def orReturn (result : Walked S σ) (next : Cursor S σ → Walked S σ) : Walked S σ :=
  match result with
  | (some 0, w) => next w
  | other => other

/-- Go on after a function of the library that succeeded, and return an error otherwise. -/
def okOrReturn (err : ℤ) (w : Cursor S σ) (result : Bool × S) (next : Cursor S σ → Walked S σ) :
    Walked S σ :=
  if result.1 then next { w with zsd := result.2 } else (some err, { w with zsd := result.2 })

end Golioth.Zcbor
