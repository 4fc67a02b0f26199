/-
# A decoder for CBOR

The decoding functions of zcbor over a payload in memory, RFC 8949, with the
checks and the bookkeeping the library documents: every function looks at the
end of the payload and at the number of elements that are left before it reads a
header, and leaves the payload pointer alone where it fails.

`zcbor_any_skip` is the one of `zcbor_any_skip_fixed.c`.
-/
import Golioth.Zcbor.Library

namespace Golioth.Zcbor.Reference

/-- What is saved of a state while a container is decoded. -/
structure Backup where
  elemCount : ℕ
  indefinite : Bool
  deriving DecidableEq, Repr

/-- `zcbor_state_t`: the payload that is left, and its place in memory. -/
structure State where
  payload : List UInt8
  address : UInt32
  /-- The bytes in memory from `base` on. -/
  bytes : List UInt8
  base : UInt32
  elemCount : ℕ
  indefinite : Bool
  backups : List Backup
  /-- How many backups there is room for. -/
  maxBackups : ℕ
  deriving DecidableEq, Repr

/-- Where the receive buffer lies. -/
def bufferAddress : UInt32 := 0x20001000

/-- `ZCBOR_LARGE_ELEM_COUNT`. -/
def largeElemCount : ℕ := 2 ^ 32 - 16

def State.advance (s : State) (n : ℕ) : State :=
  { s with payload := s.payload.drop n, address := s.address + UInt32.ofNat n }

/-- A number from its bytes, the most significant one first. -/
def ofBytes (bytes : List UInt8) : ℕ := bytes.foldl (fun n byte => 256 * n + byte.toNat) 0

/-- `additional_len`. -/
def additionalLen (additional : ℕ) : ℕ :=
  if 24 ≤ additional ∧ additional ≤ 27 then 2 ^ (additional - 24) else 0

def additionalOf (header : UInt8) : ℕ := header.toNat % 32

/-- `ZCBOR_VALUE_IS_INDEFINITE_LENGTH`. -/
def isIndefiniteHeader (header : UInt8) : Bool := additionalOf header = 31

/-- `value_extract`, for a result of at most `resultLen` bytes. -/
def valueExtract (resultLen : ℕ) (s : State) : Option (ℕ × State) :=
  match s.payload with
  | [] => none
  | header :: rest =>
    let additional := additionalOf header
    let len := additionalLen additional
    if s.elemCount = 0 then none
    else if additional < 24 then some (additional, { s.advance 1 with elemCount := s.elemCount - 1 })
    else if resultLen < len ∨ len = 0 ∨ rest.length < len then none
    else some (ofBytes (rest.take len), { s.advance (1 + len) with elemCount := s.elemCount - 1 })

/-- A value whose header has a major type. -/
def valueOf (types : List MajorType) (resultLen : ℕ) (s : State) :
    Option (MajorType × ℕ × State) :=
  match s.payload with
  | [] => none
  | header :: _ =>
    if majorType header ∈ types then
      (valueExtract resultLen s).map fun (value, s) => (majorType header, value, s)
    else none

/-- A function that leaves the state as it is where it fails. -/
def orKeep {α : Type} (s : State) (result : Option (α × State)) : Option α × State :=
  match result with
  | some (value, s) => (some value, s)
  | none => (none, s)

def succeeds (s : State) (result : Option State) : Bool × State :=
  match result with
  | some s => (true, s)
  | none => (false, s)

def uint32Decode (s : State) : Option UInt32 × State :=
  orKeep s <| (valueOf [.pint] 4 s).map fun (_, value, s) => (UInt32.ofNat value, s)

def int64Decode (s : State) : Option ℤ × State :=
  orKeep s <| (valueOf [.pint, .nint] 8 s).bind fun (type, value, s) =>
    if value < 2 ^ 63 then some (if type = .pint then (value : ℤ) else -1 - value, s) else none

def tstrDecode (s : State) : Option ZcborString × State :=
  orKeep s <| (valueOf [.tstr] 4 s).bind fun (_, len, s) =>
    if len ≤ s.payload.length then some ({ value := s.address, len := len }, s.advance len)
    else none

/-- Enter a container with the given number of items for each of its elements. -/
def startDecode (type : MajorType) (factor : ℕ) (s : State) : Bool × State :=
  succeeds s <|
    match s.payload with
    | [] => none
    | header :: _ =>
      if majorType header ≠ type ∨ s.elemCount = 0 ∨ s.maxBackups ≤ s.backups.length then none
      else if isIndefiniteHeader header then
        some { s.advance 1 with
          elemCount := largeElemCount
          indefinite := true
          backups := { elemCount := s.elemCount - 1, indefinite := s.indefinite } :: s.backups }
      else
        (valueExtract 4 s).map fun (count, s') =>
          { s' with
            elemCount := factor * count
            indefinite := false
            backups := { elemCount := s'.elemCount, indefinite := s.indefinite } :: s.backups }

/-- Leave a container, where the payload pointer stays where it is. -/
def restore (s : State) : Option State :=
  match s.backups with
  | [] => none
  | backup :: backups =>
    some { s with
      elemCount := backup.elemCount
      indefinite := backup.indefinite
      backups := backups }

def endDecode (s : State) : Bool × State :=
  succeeds s <|
    if s.indefinite then
      if s.payload.head? = some breakByte then restore (s.advance 1) else none
    else if s.elemCount = 0 then restore s
    else none

def simpleValue (s : State) : Option (UInt8 × State) :=
  match s.payload with
  | [] => none
  | header :: _ =>
    if s.elemCount = 0 then none
    else some (header, { s.advance 1 with elemCount := s.elemCount - 1 })

def boolDecode (s : State) : Option Bool × State :=
  orKeep s <| (simpleValue s).bind fun (header, s) =>
    if header = 0xf4 then some (false, s) else if header = 0xf5 then some (true, s) else none

def nilExpect (s : State) : Bool × State :=
  succeeds s <| (simpleValue s).bind fun (header, s) => if header = 0xf6 then some s else none

/-- A number of half precision. -/
def floatOfHalf (bits : ℕ) : Float :=
  let exponent := bits / 1024 % 32
  let mantissa := bits % 1024
  let magnitude : Float :=
    if exponent = 0 then Float.scaleB (Float.ofNat mantissa) (-24)
    else if exponent < 31 then Float.scaleB (Float.ofNat (1024 + mantissa)) (exponent - 25)
    else if mantissa = 0 then 1 / 0
    else 0 / 0
  if bits < 2 ^ 15 then magnitude else -magnitude

def floatDecode (s : State) : Option Float × State :=
  orKeep s <|
    match s.payload with
    | [] => none
    | header :: _ =>
      (valueExtract 8 s).bind fun (bits, s) =>
        if header = 0xf9 then some (floatOfHalf bits, s)
        else if header = 0xfa then some ((Float32.ofBits (UInt32.ofNat bits)).toFloat, s)
        else if header = 0xfb then some (Float.ofBits (UInt64.ofNat bits), s)
        else none

/-- The tags at the head of a payload are skipped. -/
def skipTags : (fuel : ℕ) → State → Option State
  | 0, _ => none
  | fuel + 1, s =>
    match valueOf [.tag] 4 s with
    -- a tag is no element of its own
    | some (_, _, s') => skipTags fuel { s' with elemCount := s.elemCount }
    | none =>
      match s.payload with
      | header :: _ => if majorType header = .tag then none else some s
      | [] => none

mutual

/-- `zcbor_any_skip_fixed`, which takes an element of the state and its bytes away. -/
def anySkip : (fuel : ℕ) → State → Option State
  | 0, _ => none
  | fuel + 1, s =>
    (skipTags (fuel + 1) s).bind fun copy =>
      match copy.payload with
      | [] => none
      | header :: _ =>
        let type := majorType header
        let skipped : Option State :=
          if isIndefiniteHeader header ∧ (type = .list ∨ type = .map) then
            skipElements fuel
              { copy.advance 1 with elemCount := largeElemCount, indefinite := true }
          else
            (valueExtract 8 copy).bind fun (value, copy) =>
              match type with
              | .bstr | .tstr =>
                if copy.payload.length < value then none else some (copy.advance value)
              | .map => skipElements fuel { copy with elemCount := 2 * value, indefinite := false }
              | .list => skipElements fuel { copy with elemCount := value, indefinite := false }
              | _ => some copy
        skipped.map fun copy =>
          { s with payload := copy.payload, address := copy.address, elemCount := s.elemCount - 1 }

/-- The elements of a container are skipped, and the byte that ends it. -/
def skipElements : (fuel : ℕ) → State → Option State
  | 0, _ => none
  | fuel + 1, s =>
    if s.indefinite then
      if s.payload.head? = some breakByte then some (s.advance 1)
      else (anySkip fuel s).bind (skipElements fuel)
    else if s.elemCount = 0 then some s
    else (anySkip fuel s).bind (skipElements fuel)

end

/-- The byte at an address, zero outside of the receive buffer. -/
def memory (s : State) (address : UInt32) : UInt8 :=
  (s.bytes[(address - s.base).toNat]?).getD 0

def newDecodeState (payload : List UInt8) (elemCount backups : ℕ) : State where
  payload := payload
  address := bufferAddress
  bytes := payload
  base := bufferAddress
  elemCount := elemCount
  indefinite := false
  backups := []
  maxBackups := backups

/-- The decoder as the functions the client calls. -/
def library : ZcborDecode State where
  newDecodeState := newDecodeState
  payloadLeft s := s.payload.length
  payloadByte s := s.payload.headD (memory s s.address)
  indefiniteLengthArray := State.indefinite
  elemCount := State.elemCount
  memory := memory
  unassignedKey _ := { type := .u32, word := 0, len := 0 }
  mapStartDecode := startDecode .map 2
  mapEndDecode := endDecode
  listStartDecode := startDecode .list 1
  listEndDecode := endDecode
  listMapEndForceDecode s := succeeds s (restore s)
  tstrDecode := tstrDecode
  uint32Decode := uint32Decode
  int64Decode := int64Decode
  floatDecode := floatDecode
  boolDecode := boolDecode
  nilExpect := nilExpect
  anySkip s := succeeds s (anySkip (2 * s.payload.length + 2) s)

/-! ## The encoder -/

/-- What has been written to a buffer of `bufLen` bytes. -/
structure Output where
  bufLen : ℕ
  written : List UInt8 := []
  deriving DecidableEq, Repr

/-- Bytes are written if there is room for all of them. -/
def put (bytes : List UInt8) (output : Output) : Bool × Output :=
  if output.written.length + bytes.length ≤ output.bufLen then
    (true, { output with written := output.written ++ bytes })
  else (false, output)

/-- The bytes of a number, the most significant one first. -/
def toBytes (len value : ℕ) : List UInt8 :=
  (List.range len).reverse.map fun i => UInt8.ofNat (value / 256 ^ i)

/-- The header of a value whose major type is the given number. -/
def headerOf (type value : ℕ) : List UInt8 :=
  if value < 24 then [UInt8.ofNat (32 * type + value)]
  else if value < 2 ^ 8 then UInt8.ofNat (32 * type + 24) :: toBytes 1 value
  else if value < 2 ^ 16 then UInt8.ofNat (32 * type + 25) :: toBytes 2 value
  else if value < 2 ^ 32 then UInt8.ofNat (32 * type + 26) :: toBytes 4 value
  else UInt8.ofNat (32 * type + 27) :: toBytes 8 value

/-- The encoder as the functions the client calls. A container has an indefinite length, as it
has where `CONFIG_ZCBOR_CANONICAL` is not set. -/
def encoder : ZcborEncode Output where
  newEncodeState bufLen _ := { bufLen := bufLen }
  encoded := Output.written
  mapStartEncode _ := put [0xbf]
  mapEndEncode _ := put [breakByte]
  listStartEncode _ := put [0x9f]
  listEndEncode _ := put [breakByte]
  tstrEncode text := put (headerOf 3 text.length ++ text)
  int64Put value :=
    put (if 0 ≤ value then headerOf 0 value.toNat else headerOf 1 (-1 - value).toNat)
  uint64Put value := put (headerOf 0 value)

end Golioth.Zcbor.Reference
