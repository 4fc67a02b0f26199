/-
# CBOR

The data items of RFC 8949 as bytes. A head gives the major type of an item and an
argument, and the rest of the item follows from both. A list or a map either says
how many elements it has, or it has an indefinite length and ends with a break.

A profile says which of the formats are in use: how many bytes the arguments may
take that count something, and whether a string may come in chunks.
-/
import Mathlib.Data.Int.ModEq
import Mathlib.Data.List.Basic

namespace CS.Cbor

/-! ## Heads -/

/-- A number from its bytes, the most significant one first. -/
def bigEndian (bytes : List UInt8) : ℕ := bytes.foldl (fun n byte => 256 * n + byte.toNat) 0

/-- The head of an item: its argument is inside the initial byte, or in the bytes that follow
it. -/
inductive Head (major : ℕ) : (argument : ℕ) → List UInt8 → Prop
  | inside {initial : UInt8} (hmajor : initial.toNat / 32 = major)
      (hargument : initial.toNat % 32 < 24) : Head major (initial.toNat % 32) [initial]
  | following {initial : UInt8} {bytes : List UInt8} (hmajor : initial.toNat / 32 = major)
      (hlow : 24 ≤ initial.toNat % 32) (hhigh : initial.toNat % 32 ≤ 27)
      (hlength : bytes.length = 2 ^ (initial.toNat % 32 - 24)) :
      Head major (bigEndian bytes) (initial :: bytes)

section Heads

variable {major major' argument argument' : ℕ} {head head' rest rest' : List UInt8}

/-- The initial byte of a head: it gives the major type, and is none of an indefinite length. -/
theorem Head.initial (h : Head major argument head) :
    ∃ initial following, head = initial :: following ∧ initial.toNat / 32 = major ∧
      initial.toNat % 32 ≤ 27 := by
  cases h with
  | inside hmajor hargument => exact ⟨_, [], rfl, hmajor, by omega⟩
  | following hmajor _ hhigh _ => exact ⟨_, _, rfl, hmajor, hhigh⟩

/-- What begins with a head does so in one way only. -/
theorem Head.unique (h : Head major argument head) (h' : Head major' argument' head')
    (heq : head ++ rest = head' ++ rest') :
    major = major' ∧ argument = argument' ∧ head = head' ∧ rest = rest' := by
  cases h with
  | inside hmajor hargument =>
    cases h' with
    | inside hmajor' hargument' =>
      obtain ⟨rfl, rfl⟩ := List.cons.inj heq
      exact ⟨hmajor.symm.trans hmajor', rfl, rfl, rfl⟩
    | following hmajor' hlow' hhigh' hlength' =>
      obtain ⟨rfl, -⟩ := List.cons.inj heq
      omega
  | following hmajor hlow hhigh hlength =>
    cases h' with
    | inside hmajor' hargument' =>
      obtain ⟨rfl, -⟩ := List.cons.inj heq
      omega
    | following hmajor' hlow' hhigh' hlength' =>
      obtain ⟨rfl, htail⟩ := List.cons.inj heq
      obtain ⟨rfl, rfl⟩ := List.append_inj htail (hlength.trans hlength'.symm)
      exact ⟨hmajor.symm.trans hmajor', rfl, rfl, rfl⟩

/-- The initial byte of what begins with a head. -/
theorem Head.initial_of_append {byte : UInt8} {bytes : List UInt8}
    (h : Head major argument head) (heq : byte :: bytes = head ++ rest) :
    byte.toNat / 32 = major ∧ byte.toNat % 32 ≤ 27 := by
  obtain ⟨initial, following, rfl, hmajor, hargument⟩ := h.initial
  obtain ⟨rfl, -⟩ := List.cons.inj heq
  exact ⟨hmajor, hargument⟩

theorem bigEndian_cons (byte : UInt8) (bytes : List UInt8) :
    bigEndian (byte :: bytes) = byte.toNat * 256 ^ bytes.length + bigEndian bytes := by
  have hfold : ∀ (bytes : List UInt8) (n : ℕ),
      bytes.foldl (fun n byte => 256 * n + byte.toNat) n =
        n * 256 ^ bytes.length + bigEndian bytes := by
    intro bytes
    induction bytes with
    | nil => simp [bigEndian]
    | cons byte bytes ih =>
      intro n
      rw [bigEndian, List.foldl_cons, List.foldl_cons, ih, ih, List.length_cons, Nat.pow_succ',
        Nat.mul_zero, Nat.zero_add, Nat.add_mul, Nat.mul_comm 256 n, Nat.mul_assoc, Nat.add_assoc]
  rw [bigEndian, List.foldl_cons, hfold]
  simp

theorem bigEndian_lt (bytes : List UInt8) : bigEndian bytes < 256 ^ bytes.length := by
  induction bytes with
  | nil => exact Nat.one_pos
  | cons byte bytes ih =>
    have hbyte : byte.toNat + 1 ≤ 256 := byte.toNat_lt
    rw [bigEndian_cons, List.length_cons, Nat.pow_succ']
    calc _ < byte.toNat * 256 ^ bytes.length + 256 ^ bytes.length := Nat.add_lt_add_left ih _
      _ = (byte.toNat + 1) * 256 ^ bytes.length := by rw [Nat.add_one_mul]
      _ ≤ 256 * 256 ^ bytes.length := Nat.mul_le_mul_right _ hbyte

theorem Head.argument_lt {n : ℕ} (h : Head major argument head) (hlen : head.length ≤ n + 1)
    (hn : 0 < n) : argument < 256 ^ n := by
  cases h with
  | inside _ hargument =>
    calc _ < 256 ^ 1 := by omega
      _ ≤ 256 ^ n := Nat.pow_le_pow_right (by decide) hn
  | following _ _ _ _ =>
    rw [List.length_cons] at hlen
    exact Nat.lt_of_lt_of_le (bigEndian_lt _) (Nat.pow_le_pow_right (by decide) (by omega))

theorem Head.length_le (h : Head major argument head) : head.length ≤ 9 := by
  cases h with
  | inside _ _ => simp
  | following _ _ hhigh hlength =>
    rw [List.length_cons, hlength]
    have hpow : ∀ n ≤ 3, 2 ^ n ≤ 8 := fun n hn => Nat.pow_le_pow_right Nat.two_pos hn
    exact Nat.succ_le_succ (hpow _ (by omega))

theorem Head.ne_nil (h : Head major argument head) : head ≠ [] := by
  obtain ⟨initial, following, rfl, -⟩ := h.initial
  exact List.cons_ne_nil initial following

end Heads

/-! ## Profiles -/

/-- What is in use of the format. -/
structure Profile where
  /-- How many bytes an argument may take that is a length, a number of elements or a tag. -/
  width : ℕ
  /-- Whether the chunks of a string may follow one another up to a break. -/
  chunked : Bool

/-- A head whose argument counts something. -/
def Profile.Counts (profile : Profile) (major argument : ℕ) (head : List UInt8) : Prop :=
  Head major argument head ∧ head.length ≤ profile.width + 1

/-- The byte that ends what has an indefinite length. -/
def breakCode : UInt8 := 0xff

/-- How a container says where it ends. -/
inductive Framing
  | definite
  | indefinite
  deriving DecidableEq, Repr

/-- What a container with a number of elements begins with. -/
def Framing.Opens (profile : Profile) (major count : ℕ) (head : List UInt8) : Framing → Prop
  | .definite => profile.Counts major count head
  | .indefinite => head = [UInt8.ofNat (32 * major + 31)]

/-- What a container ends with. -/
def Framing.close : Framing → List UInt8
  | .definite => []
  | .indefinite => [breakCode]

/-! ## Items -/

/-- The item is a string of definite length. -/
def StringItem (profile : Profile) (major : ℕ) (content item : List UInt8) : Prop :=
  ∃ head, profile.Counts major content.length head ∧ item = head ++ content

/-- A well-formed data item. -/
inductive WellFormed (profile : Profile) : List UInt8 → Prop
  | integer {major argument : ℕ} {head : List UInt8} (hmajor : major = 0 ∨ major = 1)
      (hhead : Head major argument head) : WellFormed profile head
  | string {major : ℕ} {content item : List UInt8} (hmajor : major = 2 ∨ major = 3)
      (hitem : StringItem profile major content item) : WellFormed profile item
  | chunks {major : ℕ} {items : List (List UInt8)} (hprofile : profile.chunked = true)
      (hmajor : major = 2 ∨ major = 3)
      (hitems : ∀ item ∈ items, ∃ content, StringItem profile major content item) :
      WellFormed profile (UInt8.ofNat (32 * major + 31) :: (items.flatten ++ [breakCode]))
  | list {framing : Framing} {head : List UInt8} {items : List (List UInt8)}
      (hhead : framing.Opens profile 4 items.length head)
      (hitems : ∀ item ∈ items, WellFormed profile item) :
      WellFormed profile (head ++ (items.flatten ++ framing.close))
  | map {framing : Framing} {count : ℕ} {head : List UInt8} {items : List (List UInt8)}
      (hhead : framing.Opens profile 5 count head) (hcount : items.length = 2 * count)
      (hitems : ∀ item ∈ items, WellFormed profile item) :
      WellFormed profile (head ++ (items.flatten ++ framing.close))
  | tag {argument : ℕ} {head item : List UInt8} (hhead : profile.Counts 6 argument head)
      (hitem : WellFormed profile item) : WellFormed profile (head ++ item)
  | simple {argument : ℕ} {head : List UInt8} (hhead : Head 7 argument head)
      (hargument : head.length = 2 → 32 ≤ argument) : WellFormed profile head

/-! ## Values -/

section Values

variable {profile : Profile} {item item' rest rest' : List UInt8}

/-- The item is a text of definite length. -/
def TextItem (profile : Profile) (text item : List UInt8) : Prop := StringItem profile 3 text item

/-- The item is a number that is not negative. -/
def NaturalItem (profile : Profile) (n : ℕ) (item : List UInt8) : Prop :=
  profile.Counts 0 n item

/-- The item is an integer. -/
def IntegerItem (value : ℤ) (item : List UInt8) : Prop :=
  ∃ n : ℕ, Head 0 n item ∧ value = n ∨ Head 1 n item ∧ value = -1 - n

/-- The item is a number of half, single or double precision. -/
def FloatItem (item : List UInt8) : Prop :=
  ∃ argument, Head 7 argument item ∧ 3 ≤ item.length

/-- The item is a truth value. -/
def BoolItem (value : Bool) (item : List UInt8) : Prop :=
  item = [if value then 0xf5 else 0xf4]

theorem TextItem.wellFormed {text : List UInt8} (h : TextItem profile text item) :
    WellFormed profile item := .string (.inr rfl) h

theorem NaturalItem.wellFormed {n : ℕ} (h : NaturalItem profile n item) :
    WellFormed profile item :=
  .integer (.inl rfl) h.1

theorem TextItem.initial {text : List UInt8} (h : TextItem profile text item) :
    ∃ byte following, item = byte :: following ∧ byte.toNat / 32 = 3 := by
  obtain ⟨head, hhead, rfl⟩ := h
  obtain ⟨byte, following, rfl, hmajor, -⟩ := hhead.1.initial
  exact ⟨byte, following ++ text, rfl, hmajor⟩

theorem NaturalItem.initial {n : ℕ} (h : NaturalItem profile n item) :
    ∃ byte following, item = byte :: following ∧ byte.toNat / 32 = 0 := by
  obtain ⟨byte, following, rfl, hmajor, -⟩ := h.1.initial
  exact ⟨byte, following, rfl, hmajor⟩

theorem BoolItem.head {value : Bool} (h : BoolItem value item) :
    Head 7 (if value then 21 else 20) item := by
  rw [h]
  cases value
  · exact @Head.inside 7 0xf4 rfl (by decide)
  · exact @Head.inside 7 0xf5 rfl (by decide)

theorem TextItem.unique {text text' : List UInt8} (h : TextItem profile text item)
    (h' : TextItem profile text' item') (heq : item ++ rest = item' ++ rest') :
    text = text' ∧ item = item' ∧ rest = rest' := by
  obtain ⟨head, hhead, rfl⟩ := h
  obtain ⟨head', hhead', rfl⟩ := h'
  rw [List.append_assoc, List.append_assoc] at heq
  obtain ⟨-, hlength, rfl, htail⟩ := hhead.1.unique hhead'.1 heq
  obtain ⟨rfl, rfl⟩ := List.append_inj htail hlength
  exact ⟨rfl, rfl, rfl⟩

theorem NaturalItem.unique {n n' : ℕ} (h : NaturalItem profile n item)
    (h' : NaturalItem profile n' item') (heq : item ++ rest = item' ++ rest') :
    n = n' ∧ item = item' ∧ rest = rest' :=
  (h.1.unique h'.1 heq).2

theorem IntegerItem.unique {value value' : ℤ} (h : IntegerItem value item)
    (h' : IntegerItem value' item') (heq : item ++ rest = item' ++ rest') :
    value = value' ∧ item = item' ∧ rest = rest' := by
  obtain ⟨n, h⟩ := h
  obtain ⟨n', h'⟩ := h'
  rcases h with ⟨h, rfl⟩ | ⟨h, rfl⟩ <;> rcases h' with ⟨h', rfl⟩ | ⟨h', rfl⟩ <;>
    obtain ⟨hmajor, rfl, rfl, rfl⟩ := h.unique h' heq
  · exact ⟨rfl, rfl, rfl⟩
  · cases hmajor
  · cases hmajor
  · exact ⟨rfl, rfl, rfl⟩

end Values

/-! ## Beginnings of items -/

section Beginnings

variable {profile : Profile} {item head rest rest' : List UInt8} {major argument : ℕ}

theorem toNat_indefinite (h : major < 8) :
    (UInt8.ofNat (32 * major + 31)).toNat = 32 * major + 31 := by
  rw [UInt8.toNat_ofNat']
  omega

/-- The initial byte of a container. -/
theorem Framing.Opens.initial {framing : Framing} {count : ℕ} (hmajor : major < 8)
    (h : framing.Opens profile major count head) :
    ∃ byte following, head = byte :: following ∧ byte.toNat / 32 = major := by
  cases framing with
  | definite =>
    obtain ⟨byte, following, heq, hbyte, -⟩ := h.1.initial
    exact ⟨byte, following, heq, hbyte⟩
  | indefinite => exact ⟨_, [], h, by rw [toNat_indefinite hmajor]; omega⟩

/-- An item begins with a byte that is not a break. -/
theorem WellFormed.initial (h : WellFormed profile item) :
    ∃ byte following, item = byte :: following ∧ byte ≠ breakCode := by
  -- the argument of a break is not one of a head, and its major type not one of a container
  have hhead : ∀ {major argument head} tail, Head major argument head →
      ∃ byte following, head ++ tail = byte :: following ∧ byte ≠ breakCode := by
    intro major argument head tail h
    obtain ⟨byte, following, rfl, -, hargument⟩ := h.initial
    refine ⟨byte, following ++ tail, rfl, ?_⟩
    rintro rfl
    exact absurd hargument (by decide)
  have hopens : ∀ {framing : Framing} {major count head tail}, major = 4 ∨ major = 5 →
      framing.Opens profile major count head →
      ∃ byte following, head ++ tail = byte :: following ∧ byte ≠ breakCode := by
    intro framing major count head tail hmajor h
    obtain ⟨byte, following, rfl, hbyte⟩ := h.initial (by omega)
    refine ⟨byte, following ++ tail, rfl, ?_⟩
    rintro rfl
    have hbreak : breakCode.toNat / 32 = 7 := by decide
    omega
  cases h with
  | integer hmajor h => simpa using hhead [] h
  | string hmajor h =>
    obtain ⟨head, h, rfl⟩ := h
    exact hhead _ h.1
  | chunks hprofile hmajor hitems =>
    refine ⟨_, _, rfl, ?_⟩
    rcases hmajor with rfl | rfl <;> decide
  | list h hitems => exact hopens (.inl rfl) h
  | map h hcount hitems => exact hopens (.inr rfl) h
  | tag h hitem => exact hhead _ h.1
  | simple h hargument => simpa using hhead [] h

/-- An item that begins with a head: the head is all of an integer or a simple value, a string
has its content after it, and otherwise it counts elements or is a tag. -/
theorem WellFormed.of_head (h : WellFormed profile item) (hhead : Head major argument head)
    (heq : item ++ rest = head ++ rest') :
    (major ≤ 1 ∨ major = 7) ∧ item = head ∨
      (major = 2 ∨ major = 3) ∧ (∃ content, content.length = argument ∧ item = head ++ content) ∨
      4 ≤ major ∧ major ≤ 6 := by
  have hopens : ∀ {framing : Framing} {major' count start tail}, major' = 4 ∨ major' = 5 →
      framing.Opens profile major' count start → start ++ tail ++ rest = head ++ rest' →
      4 ≤ major ∧ major ≤ 6 := by
    intro framing major' count start tail hmajor h heq
    obtain ⟨byte, following, rfl, hbyte⟩ := h.initial (by omega)
    have := (hhead.initial_of_append heq).1
    omega
  cases h with
  | integer hmajor h =>
    obtain ⟨rfl, -, rfl, -⟩ := h.unique hhead heq
    exact .inl ⟨by omega, rfl⟩
  | simple h _ =>
    obtain ⟨rfl, -, rfl, -⟩ := h.unique hhead heq
    exact .inl ⟨.inr rfl, rfl⟩
  | string hmajor h =>
    obtain ⟨start, h, rfl⟩ := h
    rw [List.append_assoc] at heq
    obtain ⟨rfl, rfl, rfl, -⟩ := h.1.unique hhead heq
    exact .inr (.inl ⟨hmajor, _, rfl, rfl⟩)
  | chunks _ hmajor _ =>
    -- the argument of a head is not the one of an indefinite length
    have := (hhead.initial_of_append heq).2
    rw [toNat_indefinite (by omega)] at this
    omega
  | list h _ => exact .inr (.inr (hopens (.inl rfl) h heq))
  | map h _ _ => exact .inr (.inr (hopens (.inr rfl) h heq))
  | tag h _ =>
    rw [List.append_assoc] at heq
    obtain ⟨rfl, -⟩ := h.1.unique hhead heq
    exact .inr (.inr ⟨by omega, by omega⟩)

/-- Where an item begins as an integer or a simple value does, it is one. -/
theorem WellFormed.eq_head (h : WellFormed profile item) (hhead : Head major argument head)
    (hmajor : major ≤ 1 ∨ major = 7) (heq : item ++ rest = head ++ rest') : item = head := by
  rcases h.of_head hhead heq with ⟨-, heq⟩ | ⟨hstring, -⟩ | hcount
  · exact heq
  · omega
  · omega

/-- Where an item begins as a text does, it is one. -/
theorem WellFormed.eq_text {text : List UInt8} (h : WellFormed profile item)
    (htext : TextItem profile text head) (heq : item ++ rest = head ++ rest') : item = head := by
  obtain ⟨start, hstart, rfl⟩ := htext
  have hbegins := heq
  rw [List.append_assoc] at hbegins
  rcases h.of_head hstart.1 hbegins with ⟨hsimple, -⟩ | ⟨-, content, hlength, rfl⟩ | hcount
  · omega
  · exact (List.append_inj heq (by simp [hlength])).1
  · omega

end Beginnings

end CS.Cbor
