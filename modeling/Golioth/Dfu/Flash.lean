/-
# Preparing the slot of an image

`flash_img_prepare` of the sample `dfu`. An image is written to a slot of the flash
through a buffer, and flash can be written to only where it has been erased: unless the
library erases the slot as it goes along, the sample erases it beforehand, if it is not
empty already. A slot that has been prepared takes an image.
-/
import Golioth.Platform

namespace Golioth.Dfu

variable {F : Type}

/-- `BOOT_SWAP_TYPE_*`. -/
inductive SwapType
  | none
  | test
  | perm
  | revert
  | fail
  | unknown
  deriving DecidableEq, Repr

/-- The functions of the bootloader and of the flash, whose state is `F`: the contents of the
flash, and the `struct flash_img_context` of the sample. -/
structure FlashLib (F : Type) where
  /-- `CONFIG_IMG_ERASE_PROGRESSIVELY` -/
  imgEraseProgressively : Bool
  /-- `fa_size` of the area of the image. -/
  faSize : ℕ
  flashAreaErasedVal : UInt8
  mcubootSwapType : F → SwapType
  flashImgInit : F → ℤ × F
  flashImgBufferedWrite : (data : List UInt8) → (flush : Bool) → F → ℤ × F
  flashAreaRead : (off len : ℕ) → F → ℤ × List UInt8
  flashAreaErase : (off len : ℕ) → F → ℤ × F
  bootRequestUpgrade : F → ℤ × F

/-! ## The functions -/

/-- The words of four bytes that a buffer holds. -/
def words : List UInt8 → List (List UInt8)
  | a :: b :: c :: d :: rest => [a, b, c, d] :: words rest
  | _ => []

/-- `ERASED_VAL_32`, by its bytes. -/
def erasedVal32 (x : UInt8) : List UInt8 := [x, x, x, x]

/-- `sizeof(data)` of `flash_area_check_empty`. -/
def checkStep : ℕ := 64

/-- The loop of `flash_area_check_empty`, with at most the given number of iterations. -/
def checkEmptyFrom (lib : FlashLib F) (flash : F) : (iterations addr : ℕ) → ℤ × Bool
  | 0, _ => (0, true)
  | iterations + 1, addr =>
    if addr < lib.faSize then
      -- the last read is as long as what is left of the area
      let bytesToRead :=
        if lib.faSize - addr < checkStep then lib.faSize - addr else checkStep
      let read := lib.flashAreaRead addr bytesToRead flash
      if read.1 ≠ 0 then (read.1, false)
      else if (words read.2).all (· = erasedVal32 lib.flashAreaErasedVal) then
        checkEmptyFrom lib flash iterations (addr + checkStep)
      else (0, false)
    else (0, true)

/-- `flash_area_check_empty`: what it returns, and what it leaves in `out_empty`. -/
def flashAreaCheckEmpty (lib : FlashLib F) (flash : F) : ℤ × Bool :=
  checkEmptyFrom lib flash (lib.faSize / checkStep + 1) 0

/-- `flash_img_erase_if_needed`. -/
def flashImgEraseIfNeeded (lib : FlashLib F) (flash : F) : ℤ × F :=
  if lib.imgEraseProgressively then (0, flash)
  else
    let check := flashAreaCheckEmpty lib flash
    if check.1 ≠ 0 then (check.1, flash)
    else if check.2 then (0, flash)
    else lib.flashAreaErase 0 lib.faSize flash

/-- `flash_img_prepare`. -/
def flashImgPrepare (lib : FlashLib F) (flash : F) : ℤ × F :=
  match lib.mcubootSwapType flash with
  | .revert => (-Errno.ebusy, flash)
  | _ =>
    let init := lib.flashImgInit flash
    if init.1 ≠ 0 then init else flashImgEraseIfNeeded lib init.2

/-! ## What the flash does -/

/-- The slot takes an image: it begins with bytes that the image so far begins with, and what
follows them is erased, or will be. -/
def Takes (lib : FlashLib F) (area given : F → List UInt8) (flash : F) : Prop :=
  ∃ stored rest, area flash = stored ++ rest ∧ stored <+: given flash ∧
    (lib.imgEraseProgressively = true ∨ ∀ byte ∈ rest, byte = lib.flashAreaErasedVal)

/-- What is documented of the functions, of which `area` is what the slot holds and `given` what
the image context has been given since it was initialised. A write passes on to the slot as much
of the image as it likes, and all of it when it flushes; nothing is known of a write to a part of
the slot that has not been erased, or of one that fails. -/
structure FlashContract (lib : FlashLib F) (area given : F → List UInt8) : Prop where
  size : ∀ flash, (area flash).length = lib.faSize
  aligned : lib.faSize % 4 = 0
  init : ∀ flash, (lib.flashImgInit flash).1 = 0 → given (lib.flashImgInit flash).2 = []
  read : ∀ off len flash, (lib.flashAreaRead off len flash).1 = 0 →
    (lib.flashAreaRead off len flash).2 = ((area flash).drop off).take len
  erase : ∀ flash, (lib.flashAreaErase 0 lib.faSize flash).1 = 0 →
    area (lib.flashAreaErase 0 lib.faSize flash).2 =
        List.replicate lib.faSize lib.flashAreaErasedVal ∧
      given (lib.flashAreaErase 0 lib.faSize flash).2 = given flash
  write : ∀ data flush flash, Takes lib area given flash →
    (lib.flashImgBufferedWrite data flush flash).1 = 0 →
      Takes lib area given (lib.flashImgBufferedWrite data flush flash).2 ∧
        given (lib.flashImgBufferedWrite data flush flash).2 = given flash ++ data ∧
        (flush = true → given (lib.flashImgBufferedWrite data flush flash).2 <+:
          area (lib.flashImgBufferedWrite data flush flash).2)

section Prepare

variable {lib : FlashLib F} {area given : F → List UInt8} {flash : F}

/-- A buffer of whole words holds nothing but a value if its words do. -/
theorem all_eq_of_words {x : UInt8} : ∀ {bytes : List UInt8}, bytes.length % 4 = 0 →
    (∀ word ∈ words bytes, word = erasedVal32 x) → ∀ byte ∈ bytes, byte = x
  | [], _, _ => by simp
  | [_], hlength, _ => by simp at hlength
  | [_, _], hlength, _ => by simp at hlength
  | [_, _, _], hlength, _ => by simp at hlength
  | a :: b :: c :: d :: rest, hlength, hwords => by
    rw [words, List.forall_mem_cons] at hwords
    obtain ⟨hword, hrest⟩ := hwords
    have hlength' : rest.length % 4 = 0 := by
      simp only [List.length_cons] at hlength
      omega
    have htail := all_eq_of_words hlength' hrest
    simp only [erasedVal32, List.cons.injEq, and_true] at hword
    obtain ⟨rfl, rfl, rfl, rfl⟩ := hword
    simpa using htail

/-- A slot found empty from an address on is erased there. -/
theorem erased_of_checkEmptyFrom (hflash : FlashContract lib area given) {iterations addr : ℕ}
    (henough : lib.faSize ≤ addr + checkStep * iterations) (haligned : addr % 4 = 0)
    (hempty : checkEmptyFrom lib flash iterations addr = (0, true)) :
    ∀ byte ∈ (area flash).drop addr, byte = lib.flashAreaErasedVal := by
  have hsize := hflash.size flash
  have hend : ∀ {addr}, lib.faSize ≤ addr → ∀ byte ∈ (area flash).drop addr,
      byte = lib.flashAreaErasedVal := by
    intro addr hle byte hmem
    rw [List.drop_eq_nil_of_le (by rw [hsize]; exact hle)] at hmem
    cases hmem
  induction iterations generalizing addr with
  | zero => exact hend henough
  | succ iterations ih =>
    rw [checkEmptyFrom] at hempty
    split at hempty
    · next hlt =>
      dsimp only at hempty
      generalize hbytes : (if lib.faSize - addr < checkStep then lib.faSize - addr
        else checkStep) = bytesToRead at hempty
      split at hempty
      · next hfailed => exact absurd (Prod.mk.inj hempty).1 hfailed
      · next hread =>
        have hdata := hflash.read _ _ _ (not_not.mp hread)
        split at hempty
        · next hwords =>
          have hstep : checkStep % 4 = 0 := rfl
          have hlength : bytesToRead % 4 = 0 := by
            have haligned' := hflash.aligned
            rw [← hbytes]
            split <;> omega
          have hhere : ∀ byte ∈ ((area flash).drop addr).take bytesToRead,
              byte = lib.flashAreaErasedVal := by
            refine all_eq_of_words ?_ fun word hword => ?_
            · rw [List.length_take, List.length_drop, hsize, min_eq_left]
              · exact hlength
              · rw [← hbytes]
                split <;> omega
            · rw [← hdata] at hword
              simpa using List.all_eq_true.mp hwords word hword
          have hrest : lib.faSize ≤ addr + checkStep + checkStep * iterations := by
            rw [Nat.mul_succ] at henough
            omega
          have hthere := ih hrest (by omega) hempty
          intro byte hmem
          rw [← List.take_append_drop bytesToRead ((area flash).drop addr), List.drop_drop,
            List.mem_append] at hmem
          refine hmem.elim (hhere byte) fun hmem => ?_
          -- nothing is left after a read that is shorter than a step
          by_cases hshort : lib.faSize - addr < checkStep
          · rw [if_pos hshort] at hbytes
            exact hend (by omega) byte hmem
          · rw [if_neg hshort] at hbytes
            exact hthere byte (hbytes ▸ hmem)
        · cases hempty
    · next hge => exact hend (not_lt.mp hge)

theorem erased_of_checkEmpty (hflash : FlashContract lib area given)
    (hempty : flashAreaCheckEmpty lib flash = (0, true)) :
    ∀ byte ∈ area flash, byte = lib.flashAreaErasedVal := by
  have henough : lib.faSize ≤ 0 + checkStep * (lib.faSize / checkStep + 1) := by
    rw [checkStep]
    omega
  exact erased_of_checkEmptyFrom hflash henough rfl hempty

/-- A slot that has been given nothing takes an image once it is erased. -/
theorem takes_of_eraseIfNeeded (hflash : FlashContract lib area given) (hgiven : given flash = [])
    (hok : (flashImgEraseIfNeeded lib flash).1 = 0) :
    Takes lib area given (flashImgEraseIfNeeded lib flash).2 ∧
      given (flashImgEraseIfNeeded lib flash).2 = [] := by
  have herased : ∀ flash', given flash' = [] → (lib.imgEraseProgressively = true ∨
      ∀ byte ∈ area flash', byte = lib.flashAreaErasedVal) → Takes lib area given flash' ∧
        given flash' = [] := fun flash' hgiven herased =>
    ⟨⟨[], area flash', rfl, hgiven ▸ List.nil_prefix, herased⟩, hgiven⟩
  unfold flashImgEraseIfNeeded at hok ⊢
  dsimp only at hok ⊢
  split at hok
  · next hprogressively =>
    rw [if_pos hprogressively]
    exact herased flash hgiven (.inl hprogressively)
  · next hbeforehand =>
    rw [if_neg hbeforehand]
    split at hok
    · next hfailed => exact absurd hok hfailed
    · next hchecked =>
      rw [if_neg hchecked]
      split at hok
      · next hempty =>
        rw [if_pos hempty]
        exact herased flash hgiven
          (.inr (erased_of_checkEmpty hflash (Prod.ext (not_not.mp hchecked) hempty)))
      · next hfull =>
        rw [if_neg hfull]
        obtain ⟨harea, hsame⟩ := hflash.erase flash hok
        refine herased _ (hsame.trans hgiven) (.inr fun byte hmem => ?_)
        rw [harea] at hmem
        exact List.eq_of_mem_replicate hmem

/-- A slot that is to be reverted to is not touched. -/
theorem flashImgPrepare_of_revert (hrevert : lib.mcubootSwapType flash = .revert) :
    flashImgPrepare lib flash = (-Errno.ebusy, flash) := by
  rw [flashImgPrepare, hrevert]

/-- **Preparation.** A slot that has been prepared takes an image, of which it has been given
nothing. -/
theorem takes_of_prepare (hflash : FlashContract lib area given)
    (hok : (flashImgPrepare lib flash).1 = 0) :
    Takes lib area given (flashImgPrepare lib flash).2 ∧
      given (flashImgPrepare lib flash).2 = [] := by
  have hinit : ∀ swapType, lib.mcubootSwapType flash = swapType → swapType ≠ .revert →
      flashImgPrepare lib flash =
        if (lib.flashImgInit flash).1 ≠ 0 then lib.flashImgInit flash
        else flashImgEraseIfNeeded lib (lib.flashImgInit flash).2 := by
    rintro swapType hswap hrevert
    rw [flashImgPrepare, hswap]
    cases swapType <;> first | rfl | exact absurd rfl hrevert
  by_cases hrevert : lib.mcubootSwapType flash = .revert
  · rw [flashImgPrepare_of_revert hrevert] at hok
    exact absurd hok (show -Errno.ebusy ≠ 0 by decide)
  · rw [hinit _ rfl hrevert] at hok ⊢
    split at hok
    · next hfailed => exact absurd hok hfailed
    · next hready =>
      rw [if_neg hready]
      exact takes_of_eraseIfNeeded hflash (hflash.init flash (not_not.mp hready)) hok

end Prepare

/-! ## A slot of sixty-four bytes -/

namespace Reference

/-- A slot of sixty-four bytes, and the image that its context has been given. The buffer of the
context is larger than the slot, so that nothing is written before a write flushes it. -/
structure Slot where
  bytes : List UInt8
  size : bytes.length = 64
  image : List UInt8

/-- What programming the image makes of the bytes: a bit of flash can only be cleared. -/
def Slot.programmed (slot : Slot) : List UInt8 :=
  List.zipWith (· &&& ·) slot.bytes (slot.image ++ List.replicate 64 0xff)

theorem Slot.length_programmed (slot : Slot) : slot.programmed.length = 64 := by
  rw [Slot.programmed, List.length_zipWith, slot.size, List.length_append, List.length_replicate]
  omega

theorem Slot.length_erased : (List.replicate 64 (0xff : UInt8)).length = 64 :=
  List.length_replicate

def flashLib : FlashLib Slot where
  imgEraseProgressively := false
  faSize := 64
  flashAreaErasedVal := 0xff
  mcubootSwapType _ := .none
  flashImgInit slot := (0, { slot with image := [] })
  flashImgBufferedWrite data flush slot :=
    let slot' : Slot := { slot with image := slot.image ++ data }
    if 64 < slot'.image.length then (-Errno.enomem, slot)
    else if flush then (0, { slot' with bytes := slot'.programmed, size := slot'.length_programmed })
    else (0, slot')
  flashAreaRead off len slot := (0, (slot.bytes.drop off).take len)
  flashAreaErase _ _ slot :=
    (0, { slot with bytes := List.replicate 64 0xff, size := Slot.length_erased })
  bootRequestUpgrade slot := (0, slot)

/-- Flash that is erased takes on what it is programmed with. -/
theorem zipWith_erased : ∀ {rest bytes : List UInt8}, (∀ byte ∈ rest, byte = 0xff) →
    rest.length ≤ bytes.length → List.zipWith (· &&& ·) rest bytes = bytes.take rest.length
  | [], _, _, _ => by simp
  | _ :: _, [], _, hlength => by simp at hlength
  | x :: rest, byte :: bytes, hrest, hlength => by
    rw [List.forall_mem_cons] at hrest
    obtain ⟨rfl, hrest⟩ := hrest
    have htail := zipWith_erased hrest (Nat.le_of_succ_le_succ hlength)
    rw [List.zipWith_cons_cons, htail, List.length_cons, List.take_succ_cons]
    congr 1
    exact UInt8.neg_one_and

/-- Flash that holds the beginning of an image, and is erased otherwise, takes on the image. -/
theorem Slot.programmed_of_erased {slot : Slot} {stored rest : List UInt8}
    (hbytes : slot.bytes = stored ++ rest) (hstored : stored <+: slot.image)
    (hrest : ∀ byte ∈ rest, byte = 0xff) (hfits : slot.image.length ≤ 64) :
    slot.programmed = slot.image ++ List.replicate (64 - slot.image.length) 0xff := by
  obtain ⟨tail, himage⟩ := hstored
  have hsize := slot.size
  rw [hbytes, List.length_append] at hsize
  rw [← himage, List.length_append] at hfits ⊢
  have hlength : rest.length ≤ (tail ++ List.replicate 64 (0xff : UInt8)).length := by
    rw [List.length_append, List.length_replicate]
    omega
  have hself : List.zipWith (· &&& ·) stored stored = stored := by simp
  rw [Slot.programmed, hbytes, ← himage, List.append_assoc, List.zipWith_append rfl, hself,
    zipWith_erased hrest hlength, List.take_append, List.take_of_length_le (by omega),
    List.take_replicate, List.append_assoc]
  congr 3
  omega

theorem flashContract : FlashContract flashLib Slot.bytes Slot.image where
  size := Slot.size
  aligned := rfl
  init _ _ := rfl
  read _ _ _ _ := rfl
  erase _ _ := ⟨rfl, rfl⟩
  write data flush slot htakes hok := by
    obtain ⟨stored, rest, hbytes, hstored, herased⟩ := htakes
    have hrest := herased.resolve_left Bool.false_ne_true
    have hgrown : stored <+: slot.image ++ data := hstored.trans (List.prefix_append _ _)
    simp only [flashLib] at hok ⊢
    split at hok
    · exact absurd hok (show -Errno.enomem ≠ 0 by decide)
    · next hfits =>
      rw [if_neg hfits]
      cases flush with
      | false => exact ⟨⟨stored, rest, hbytes, hgrown, herased⟩, rfl, fun h => by cases h⟩
      | true =>
        have himage : Slot.programmed { slot with image := slot.image ++ data } = _ :=
          Slot.programmed_of_erased hbytes hgrown hrest (not_lt.mp hfits)
        refine ⟨⟨_, _, himage, List.prefix_rfl, .inr fun byte hmem => ?_⟩, rfl, fun _ => ?_⟩
        · exact List.eq_of_mem_replicate hmem
        · exact ⟨_, himage.symm⟩

end Reference
end Golioth.Dfu
