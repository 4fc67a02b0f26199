/-
# What the client relies on

What is assumed of the decoding functions of zcbor. A decoding state stands at a
position: what is left of the payload, how many elements are left of the container
it is in, and the containers around it. A decoder takes one element of the type it
is for, or it leaves the position as it is; a container is entered, where there is
room for a backup of what is around it, and left at its end. To leave one by force
brings back what is around it and leaves the payload where it is.
-/
import Golioth.CS.Cbor
import Golioth.Zcbor.Utils
import Mathlib.Tactic.IntervalCases

namespace Golioth.Zcbor

open CS CS.Cbor

/-! ## Major types -/

/-- The number of a major type. -/
def MajorType.number : MajorType → ℕ
  | .pint => 0
  | .nint => 1
  | .bstr => 2
  | .tstr => 3
  | .list => 4
  | .map => 5
  | .tag => 6
  | .simple => 7

theorem majorType_eq_iff {byte : UInt8} {type : MajorType} :
    majorType byte = type ↔ byte.toNat / 32 = type.number := by
  have hlt := byte.toNat_lt
  have hcases : byte.toNat / 32 < 8 := by omega
  rw [majorType]
  generalize byte.toNat / 32 = major at hcases
  cases type <;> interval_cases major <;> simp [MajorType.number]

/-! ## Positions -/

/-- Where a decoding state stands. -/
structure Position where
  memory : UInt32 → UInt8
  /-- What is left of the payload. -/
  payload : List UInt8
  /-- How many elements are left of a container of definite length. -/
  left : Option ℕ
  /-- What is left of the containers around it, the innermost one first. -/
  outer : List (Option ℕ)
  /-- How many more containers can be entered. -/
  room : ℕ

namespace Position

variable (p : Position)

/-- The bytes from an address on. -/
def bytes (address : UInt32) (len : ℕ) : List UInt8 :=
  (List.range len).map fun i => p.memory (address + UInt32.ofNat i)

/-- The text of a string. -/
def text (str : ZcborString) : List UInt8 := p.bytes str.value str.len

/-- The container is not known to have ended. -/
def HasNext : Prop := p.left ≠ some 0

/-- An element has been taken from what is left. -/
def next (rest : List UInt8) : Position :=
  { p with payload := rest, left := p.left.map (· - 1) }

/-- A container has been entered that has a number of elements. -/
def enter (rest : List UInt8) (left : Option ℕ) : Position where
  memory := p.memory
  payload := rest
  left := left
  outer := p.left.map (· - 1) :: p.outer
  room := p.room - 1

/-- The container has been left. -/
def leave (rest : List UInt8) : Position where
  memory := p.memory
  payload := rest
  left := p.outer.headD none
  outer := p.outer.tail
  room := p.room + 1

@[simp] theorem memory_next (rest : List UInt8) : (p.next rest).memory = p.memory := rfl

@[simp] theorem payload_next (rest : List UInt8) : (p.next rest).payload = rest := rfl

@[simp] theorem outer_next (rest : List UInt8) : (p.next rest).outer = p.outer := rfl

@[simp] theorem room_next (rest : List UInt8) : (p.next rest).room = p.room := rfl

@[simp] theorem left_next (rest : List UInt8) : (p.next rest).left = p.left.map (· - 1) := rfl

@[simp] theorem memory_leave (rest : List UInt8) : (p.leave rest).memory = p.memory := rfl

@[simp] theorem payload_leave (rest : List UInt8) : (p.leave rest).payload = rest := rfl

/-- A container that is left is an element that has been taken. -/
theorem leave_enter (hroom : 0 < p.room) (rest rest' : List UInt8) (left : Option ℕ) :
    (p.enter rest left).leave rest' = p.next rest' := by
  simp only [leave, enter, next, List.headD_cons, List.tail_cons]
  congr 1
  omega

end Position

/-- How many elements a container says it has left. -/
def leftOf (count : ℕ) : Framing → Option ℕ
  | .definite => some count
  | .indefinite => none

/-! ## Decoders -/

variable {S σ : Type}

/-- What is known of the states of a decoder: the position a state stands at, the profile of the
items it takes, and the numbers it makes of those of half, single or double precision. -/
structure Decoding (S : Type) where
  profile : Profile
  At : S → Position → Prop
  float : List UInt8 → Float

/-- A decoder takes the items it is for, of which it makes the value they have, and leaves the
position as it is where there is none. -/
structure Decodes {α β : Type} (d : Decoding S) (decode : S → Option α × S)
    (means : Position → α → β) (reads : List UInt8 → β → Prop) : Prop where
  takes : ∀ {zsd p item rest value}, d.At zsd p → p.HasNext → p.payload = item ++ rest →
    reads item value →
    ∃ raw zsd', decode zsd = (some raw, zsd') ∧ means p raw = value ∧ d.At zsd' (p.next rest)
  refuses : ∀ {zsd p}, d.At zsd p →
    (∀ item rest value, p.payload = item ++ rest → ¬ reads item value) →
    ∃ zsd', decode zsd = (none, zsd') ∧ d.At zsd' p

/-- A function enters the containers with a major type, which have a number of items for each of
their elements. -/
def Starts (d : Decoding S) (start : S → Bool × S) (major factor : ℕ) : Prop :=
  ∀ {zsd p framing count head rest}, d.At zsd p → p.HasNext → 0 < p.room →
    p.payload = head ++ rest → framing.Opens d.profile major count head →
    ∃ zsd', start zsd = (true, zsd') ∧ d.At zsd' (p.enter rest (leftOf (factor * count) framing))

/-- A function leaves a container at its end only. -/
structure Ends (d : Decoding S) (finish : S → Bool × S) : Prop where
  leaves : ∀ {zsd p framing rest}, d.At zsd p → p.outer ≠ [] →
    p.payload = framing.close ++ rest → p.left = leftOf 0 framing →
    ∃ zsd', finish zsd = (true, zsd') ∧ d.At zsd' (p.leave rest)
  refuses : ∀ {zsd p}, d.At zsd p → p.left = none → p.payload.head? ≠ some breakCode →
    (finish zsd).1 = false

/-- The functions of zcbor do what is documented of them. -/
structure Conforms (lib : ZcborDecode S) (d : Decoding S) : Prop where
  newDecodeState : ∀ {payload : List UInt8} {count backups : ℕ},
    payload.length + 16 < sizeModulus →
    ∃ memory, d.At (lib.newDecodeState payload count backups)
      { memory := memory, payload := payload, left := some count, outer := [], room := backups }
  memory : ∀ {zsd p}, d.At zsd p → lib.memory zsd = p.memory
  payloadByte : ∀ {zsd p byte rest}, d.At zsd p → p.payload = byte :: rest →
    lib.payloadByte zsd = byte
  indefinite : ∀ {zsd p}, d.At zsd p → lib.indefiniteLengthArray zsd = p.left.isNone
  elemCount : ∀ {zsd p count}, d.At zsd p → p.left = some count → lib.elemCount zsd = count
  mapStart : Starts d lib.mapStartDecode 5 2
  listStart : Starts d lib.listStartDecode 4 1
  mapEnd : Ends d lib.mapEndDecode
  listEnd : Ends d lib.listEndDecode
  forceEnd : ∀ {zsd p}, d.At zsd p → p.outer ≠ [] →
    ∃ zsd', lib.listMapEndForceDecode zsd = (true, zsd') ∧ d.At zsd' (p.leave p.payload)
  tstr : Decodes d lib.tstrDecode Position.text fun item text => TextItem d.profile text item
  uint32 : Decodes d lib.uint32Decode (fun _ value => value.toNat) fun item n =>
    NaturalItem d.profile n item ∧ n < 2 ^ 32
  int64 : Decodes d lib.int64Decode (fun _ value => value) fun item value =>
    IntegerItem value item ∧ -2 ^ 63 ≤ value ∧ value < 2 ^ 63
  float : Decodes d lib.floatDecode (fun _ value => value) fun item value =>
    FloatItem item ∧ value = d.float item
  bool : Decodes d lib.boolDecode (fun _ value => value) fun item value => BoolItem value item
  notNil : ∀ {zsd p byte rest}, d.At zsd p → p.payload = byte :: rest → byte ≠ 0xf6 →
    ∃ zsd', lib.nilExpect zsd = (false, zsd') ∧ d.At zsd' p
  skip : ∀ {zsd p item rest}, d.At zsd p → p.HasNext → p.payload = item ++ rest →
    WellFormed d.profile item →
    ∃ zsd', lib.anySkip zsd = (true, zsd') ∧ d.At zsd' (p.next rest)

end Golioth.Zcbor
