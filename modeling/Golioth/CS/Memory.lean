/-
# Memory

Bytes at addresses, read and written a piece at a time. What is written at one
place leaves what lies at another as it was, so that bytes can be moved within
the memory in steps, as long as no step writes where a later one reads.
-/
import Mathlib.Data.List.Basic
import Mathlib.Data.List.Range
import Mathlib.Data.Nat.Notation

namespace CS

/-- The byte at each address. -/
abbrev Memory := ℕ → UInt8

namespace Memory

variable {mem : Memory} {start target len len' : ℕ} {bytes bytes' : List UInt8}

/-- The bytes from an address on. -/
def read (mem : Memory) (start len : ℕ) : List UInt8 := (List.range len).map fun i => mem (start + i)

/-- Write bytes from an address on. -/
def write (mem : Memory) (target : ℕ) (bytes : List UInt8) : Memory := fun address =>
  if address < target then mem address else bytes[address - target]?.getD (mem address)

@[simp] theorem length_read (mem : Memory) (start len : ℕ) : (mem.read start len).length = len := by
  simp [read]

@[simp] theorem read_zero (mem : Memory) (start : ℕ) : mem.read start 0 = [] := rfl

theorem read_add (mem : Memory) (start len len' : ℕ) :
    mem.read start (len + len') = mem.read start len ++ mem.read (start + len) len' := by
  simp [read, List.range_add, Nat.add_assoc]

theorem read_succ (mem : Memory) (start len : ℕ) :
    mem.read start (len + 1) = mem start :: mem.read (start + 1) len := by
  rw [Nat.add_comm, read_add]
  rfl

/-- Two pieces lie one after the other. -/
theorem read_append (h : mem.read start (bytes ++ bytes').length = bytes ++ bytes') :
    mem.read start bytes.length = bytes ∧
      mem.read (start + bytes.length) bytes'.length = bytes' := by
  rw [List.length_append, read_add] at h
  exact List.append_inj h (length_read _ _ _)

/-- What was written is there. -/
theorem read_write_self (mem : Memory) (target : ℕ) (bytes : List UInt8) :
    (mem.write target bytes).read target bytes.length = bytes := by
  apply List.ext_getElem
  · rw [length_read]
  · intro i hi hi'
    simp [read, write, hi']

/-- What lies before it is still there. -/
theorem read_write_before (h : start + len ≤ target) :
    (mem.write target bytes).read start len = mem.read start len := by
  refine List.map_congr_left fun i hi => ?_
  have hi := List.mem_range.mp hi
  rw [write, if_pos (by omega)]

/-- What lies after it is still there. -/
theorem read_write_after (h : target + bytes.length ≤ start) :
    (mem.write target bytes).read start len = mem.read start len := by
  refine List.map_congr_left fun i hi => ?_
  rw [write, if_neg (by omega), List.getElem?_eq_none (by omega), Option.getD_none]

theorem write_nil (mem : Memory) (target : ℕ) : mem.write target [] = mem := by
  funext address
  simp [write]

/-- What is written in two pieces is written as one. -/
theorem write_write (mem : Memory) (target : ℕ) (bytes bytes' : List UInt8) :
    (mem.write target bytes).write (target + bytes.length) bytes' =
      mem.write target (bytes ++ bytes') := by
  funext address
  unfold write
  by_cases hlow : address < target
  · rw [if_pos (by omega), if_pos hlow, if_pos hlow]
  · rw [if_neg hlow, if_neg hlow]
    split
    · next hin => rw [List.getElem?_append_left (by omega)]
    · next hout =>
      have hnone : bytes[address - target]? = none := List.getElem?_eq_none (by omega)
      rw [hnone, Option.getD_none, List.getElem?_append_right (by omega), Nat.sub_sub]

end Memory

/-! ## Copies -/

/-- Bytes are written to a piece of memory. They come from another piece of it, or from
elsewhere. -/
structure Copy where
  target : ℕ
  len : ℕ
  source : Option ℕ
  deriving DecidableEq, Repr

/-- A copy does not write where a later one reads. -/
def Copy.Spares (copy later : Copy) : Prop :=
  ∀ source, later.source = some source →
    copy.target + copy.len ≤ source ∨ source + later.len ≤ copy.target

/-- No copy writes where a later one reads. -/
def Sparing (copies : List Copy) : Prop := copies.Pairwise Copy.Spares

theorem sparing_append_singleton {copies : List Copy} {copy : Copy} :
    Sparing (copies ++ [copy]) ↔ Sparing copies ∧ ∀ earlier ∈ copies, earlier.Spares copy := by
  simp [Sparing, List.pairwise_append]

/-- Bytes from elsewhere can be written anywhere. -/
theorem Copy.spares_of_source_eq_none {copy later : Copy} (h : later.source = none) :
    copy.Spares later := by
  intro source hsource
  rw [h] at hsource
  cases hsource

end CS
