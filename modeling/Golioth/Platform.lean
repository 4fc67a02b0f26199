/-
# The C platform

Error numbers and the integer conversions the client's code goes through. An
`int` is an integer; a value of type `size_t` is a natural number below
`sizeModulus`, since the supported boards have 32-bit address spaces. The
conversions are written out wherever the code relies on them, because several
results turn on a negative `int` becoming a large `size_t`.
-/
import Mathlib.Data.Int.ModEq
import Mathlib.Order.Lattice

namespace Golioth

/-! ## Error numbers -/

namespace Errno

def enoent : ℤ := 2
def eio : ℤ := 5
def e2big : ℤ := 7
def eagain : ℤ := 11
def enomem : ℤ := 12
def eacces : ℤ := 13
def efault : ℤ := 14
def ebusy : ℤ := 16
def exdev : ℤ := 18
def einval : ℤ := 22
def efbig : ℤ := 27
def enospc : ℤ := 28
def enomsg : ℤ := 35
def ebadmsg : ℤ := 77
def enobufs : ℤ := 105
def eshutdown : ℤ := 110
def enetdown : ℤ := 115
def etimedout : ℤ := 116
def ealready : ℤ := 120
def emsgsize : ℤ := 122
def enotconn : ℤ := 128
def enotsup : ℤ := 134

end Errno

/-! ## Texts -/

/-- The bytes of a string literal of the source. -/
def ascii (literal : String) : List UInt8 := literal.toList.map fun c => UInt8.ofNat c.toNat

/-- What a C string reads as: everything before the first zero byte. -/
def cString (bytes : List UInt8) : List UInt8 := bytes.takeWhile (· ≠ 0)

/-! ## Integer conversions -/

/-- The number of values of type `size_t`. -/
def sizeModulus : ℕ := 2 ^ 32

/-- An `int` converted to `size_t`. -/
def sizeOfInt (value : ℤ) : ℕ := (value % sizeModulus).toNat

/-- Addition of two values of type `size_t`. -/
def sizeAdd (a b : ℕ) : ℕ := (a + b) % sizeModulus

/-- `SIZE_MAX`. -/
def sizeMax : ℕ := sizeModulus - 1

/-- The largest value of type `int64_t`. -/
def int64Max : ℤ := 2 ^ 63 - 1

/-- A `uint32_t` read as an `int32_t`. -/
def int32OfUInt32 (value : UInt32) : ℤ := Int.bmod value.toNat (2 ^ 32)

/-- Subtraction of two values of type `int32_t`, wrapping around. -/
def int32Sub (a b : ℤ) : ℤ := Int.bmod (a - b) (2 ^ 32)

/-- An integer narrowed to `uint32_t`. -/
def uint32OfInt (value : ℤ) : UInt32 := UInt32.ofNat (value % 2 ^ 32).toNat

theorem sizeOfInt_nonneg {value : ℤ} (hnonneg : 0 ≤ value) (hlt : value < sizeModulus) :
    sizeOfInt value = value.toNat := by
  rw [sizeOfInt, Int.emod_eq_of_lt hnonneg hlt]

@[simp] theorem sizeOfInt_zero : sizeOfInt 0 = 0 := by decide

/-- No `int` other than zero becomes a zero `size_t`: the conversion loses
nothing within 32 bits. -/
theorem sizeOfInt_ne_zero {value : ℤ} (hne : value ≠ 0) (hlow : -2 ^ 31 ≤ value)
    (hhigh : value < 2 ^ 31) : sizeOfInt value ≠ 0 := by
  have hmod : (sizeModulus : ℤ) = 2 ^ 32 := rfl
  rw [sizeOfInt, hmod]
  omega

theorem sizeAdd_eq {a b : ℕ} (h : a + b < sizeModulus) : sizeAdd a b = a + b :=
  Nat.mod_eq_of_lt h

end Golioth
