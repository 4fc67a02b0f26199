/-
# Delta-encoded options

A list of options, each a number and a value, as CoAP lays it out in bytes: the
numbers are stored as differences to the previous one, and both the difference
and the length of the value are a nibble of the first byte, extended by one or
two further bytes where the nibble is too small. The byte `0xFF` ends the list.

Decoding what was encoded gives the options back, for every sorted list.
-/
import Mathlib.Data.List.Basic

namespace CS.OptionFormat

/-- An option: its number and its value. -/
abbrev Entry := ℕ × List UInt8

/-! ## Encoding -/

/-- The nibble a difference or a length is stored as, and its further bytes. -/
def extend (n : ℕ) : ℕ × List UInt8 :=
  if n < 13 then (n, [])
  else if n < 269 then (13, [UInt8.ofNat (n - 13)])
  else (14, [UInt8.ofNat ((n - 269) / 256), UInt8.ofNat ((n - 269) % 256)])

/-- One option after an option whose number is less by `delta`. -/
def encode (delta : ℕ) (value : List UInt8) : List UInt8 :=
  UInt8.ofNat ((extend delta).1 * 16 + (extend value.length).1) ::
    ((extend delta).2 ++ (extend value.length).2 ++ value)

/-- Options after one with the number `previous`. -/
def encodeAll : (previous : ℕ) → List Entry → List UInt8
  | _, [] => []
  | previous, (number, value) :: rest =>
    encode (number - previous) value ++ encodeAll number rest

/-- The number of the last option. -/
def lastNumber (previous : ℕ) (entries : List Entry) : ℕ :=
  (entries.getLast?.map Prod.fst).getD previous

@[simp] theorem lastNumber_append_singleton (previous : ℕ) (entries : List Entry)
    (entry : Entry) : lastNumber previous (entries ++ [entry]) = entry.1 := by
  simp [lastNumber]

theorem lastNumber_cons (previous number : ℕ) (value : List UInt8) (entries : List Entry) :
    lastNumber previous ((number, value) :: entries) = lastNumber number entries := by
  cases entries with
  | nil => rfl
  | cons entry entries => simp [lastNumber, List.getLast?_cons]

theorem encodeAll_append_singleton (previous : ℕ) (entries : List Entry) (entry : Entry) :
    encodeAll previous (entries ++ [entry]) =
      encodeAll previous entries ++
        encode (entry.1 - lastNumber previous entries) entry.2 := by
  induction entries generalizing previous with
  | nil => simp [encodeAll, lastNumber]
  | cons first rest ih =>
    obtain ⟨number, value⟩ := first
    rw [List.cons_append, encodeAll, ih, encodeAll, lastNumber_cons, List.append_assoc]

/-! ## Decoding -/

/-- A difference or a length, from its nibble and the bytes that follow, with the
bytes left over. -/
def readExtended : (nibble : ℕ) → List UInt8 → Option (ℕ × List UInt8)
  | 13, byte :: rest => some (byte.toNat + 13, rest)
  | 14, high :: low :: rest => some (high.toNat * 256 + low.toNat + 269, rest)
  | nibble, bytes => if nibble < 13 then some (nibble, bytes) else none

/-- The options in a sequence of bytes, `none` if it is malformed. -/
def decode : (fuel : ℕ) → (previous : ℕ) → List UInt8 → Option (List Entry)
  | _, _, [] => some []
  | 0, _, _ :: _ => none
  | fuel + 1, previous, byte :: bytes =>
    if byte = 255 then some []
    else
      (readExtended (byte.toNat / 16) bytes).bind fun delta =>
      (readExtended (byte.toNat % 16) delta.2).bind fun length =>
      if length.2.length < length.1 then none
      else
        (decode fuel (previous + delta.1) (length.2.drop length.1)).map
          ((previous + delta.1, length.2.take length.1) :: ·)

/-- The options in a sequence of bytes and what follows the byte that ends them, `none` for the
latter if the bytes end with the options. -/
def decodeMarked : (fuel : ℕ) → (previous : ℕ) → List UInt8 →
    Option (List Entry × Option (List UInt8))
  | _, _, [] => some ([], none)
  | 0, _, _ :: _ => none
  | fuel + 1, previous, byte :: bytes =>
    if byte = 255 then some ([], some bytes)
    else
      (readExtended (byte.toNat / 16) bytes).bind fun delta =>
      (readExtended (byte.toNat % 16) delta.2).bind fun length =>
      if length.2.length < length.1 then none
      else
        (decodeMarked fuel (previous + delta.1) (length.2.drop length.1)).map fun rest =>
          ((previous + delta.1, length.2.take length.1) :: rest.1, rest.2)

theorem decode_eq_decodeMarked (fuel previous : ℕ) (bytes : List UInt8) :
    decode fuel previous bytes = (decodeMarked fuel previous bytes).map Prod.fst := by
  induction fuel generalizing previous bytes with
  | zero => cases bytes <;> rfl
  | succ fuel ih =>
    cases bytes with
    | nil => rfl
    | cons byte bytes =>
      rw [decode, decodeMarked]
      split
      · rfl
      · cases readExtended (byte.toNat / 16) bytes with
        | none => rfl
        | some delta =>
          simp only [Option.bind_some]
          cases readExtended (byte.toNat % 16) delta.2 with
          | none => rfl
          | some length =>
            simp only [Option.bind_some]
            split
            · rfl
            · rw [ih, Option.map_map, Option.map_map]
              rfl

/-! ## Round trip -/

/-- The largest difference or length the format can store, plus one. -/
def limit : ℕ := 65536 + 269

theorem extend_lt (n : ℕ) : (extend n).1 < 15 := by
  unfold extend
  split
  · omega
  · split <;> simp

theorem readExtended_extend {n : ℕ} (hlt : n < limit) (rest : List UInt8) :
    readExtended (extend n).1 ((extend n).2 ++ rest) = some (n, rest) := by
  unfold extend
  split
  · next h =>
    rw [readExtended, if_pos h]
    · rfl
    all_goals omega
  · next h =>
    split
    · next h' =>
      have : n - 13 < 256 := by omega
      simp only [List.cons_append, List.nil_append, readExtended, UInt8.toNat_ofNat',
        Nat.reducePow, Nat.mod_eq_of_lt this]
      congr 2
      omega
    · next h' =>
      have hhigh : (n - 269) / 256 < 256 := by
        rw [limit] at hlt
        omega
      have hlow : (n - 269) % 256 < 256 := Nat.mod_lt _ (by decide)
      simp only [List.cons_append, List.nil_append, readExtended, UInt8.toNat_ofNat',
        Nat.reducePow, Nat.mod_eq_of_lt hhigh, Nat.mod_eq_of_lt hlow]
      congr 2
      omega

theorem decodeMarked_encode {fuel previous delta : ℕ} {value rest : List UInt8}
    (hdelta : delta < limit) (hvalue : value.length < limit) :
    decodeMarked (fuel + 1) previous (encode delta value ++ rest) =
      (decodeMarked fuel (previous + delta) rest).map fun result =>
        ((previous + delta, value) :: result.1, result.2) := by
  have hd := extend_lt delta
  have hl := extend_lt value.length
  have htoNat : (UInt8.ofNat ((extend delta).1 * 16 + (extend value.length).1)).toNat =
      (extend delta).1 * 16 + (extend value.length).1 := by
    rw [UInt8.toNat_ofNat']
    exact Nat.mod_eq_of_lt (by omega)
  have hmarker : UInt8.ofNat ((extend delta).1 * 16 + (extend value.length).1) ≠ 255 := by
    intro h
    rw [h] at htoNat
    have : (255 : UInt8).toNat = 255 := rfl
    omega
  have hdiv : ((extend delta).1 * 16 + (extend value.length).1) / 16 = (extend delta).1 := by
    omega
  have hmod : ((extend delta).1 * 16 + (extend value.length).1) % 16 =
      (extend value.length).1 := by omega
  rw [encode, List.cons_append, decodeMarked, if_neg hmarker, htoNat, hdiv, hmod]
  simp only [List.append_assoc]
  rw [readExtended_extend hdelta, Option.bind_some, readExtended_extend hvalue,
    Option.bind_some, if_neg (by simp), List.drop_left, List.take_left]

/-- What can be encoded after `previous`: sorted numbers, with differences and
lengths the format can store. -/
def Encodable : (previous : ℕ) → List Entry → Prop
  | _, [] => True
  | previous, (number, value) :: rest =>
    previous ≤ number ∧ number - previous < limit ∧ value.length < limit ∧
      Encodable number rest

theorem encodable_append_singleton {previous : ℕ} {entries : List Entry} {entry : Entry}
    (h : Encodable previous entries) (hle : lastNumber previous entries ≤ entry.1)
    (hdelta : entry.1 < limit) (hvalue : entry.2.length < limit) :
    Encodable previous (entries ++ [entry]) := by
  induction entries generalizing previous with
  | nil => exact ⟨hle, by omega, hvalue, trivial⟩
  | cons first rest ih =>
    obtain ⟨number, value⟩ := first
    obtain ⟨hnumber, hsmall, hlength, hrest⟩ := h
    rw [lastNumber_cons] at hle
    exact ⟨hnumber, hsmall, hlength, ih hrest hle⟩

/-- What is left to decode after the options. -/
theorem decodeMarked_encodeAll {entries : List Entry} {previous : ℕ}
    (h : Encodable previous entries) {fuel : ℕ} (hfuel : entries.length ≤ fuel)
    (rest : List UInt8) :
    decodeMarked fuel previous (encodeAll previous entries ++ rest) =
      (decodeMarked (fuel - entries.length) (lastNumber previous entries) rest).map fun result =>
        (entries ++ result.1, result.2) := by
  induction entries generalizing previous fuel with
  | nil => simp [encodeAll, lastNumber]
  | cons first entries ih =>
    obtain ⟨number, value⟩ := first
    obtain ⟨hnumber, hsmall, hlength, hrest⟩ := h
    obtain ⟨fuel, rfl⟩ : ∃ n, fuel = n + 1 := ⟨fuel - 1, by simp at hfuel; omega⟩
    rw [encodeAll, List.append_assoc, decodeMarked_encode hsmall hlength,
      Nat.add_sub_cancel' hnumber, ih hrest (by simpa using hfuel), lastNumber_cons,
      Option.map_map, List.length_cons, Nat.add_sub_add_right]
    rfl

/-- **Round trip.** The options come back with what follows the byte that ends them. -/
theorem decodeMarked_encodeAll_marker {entries : List Entry} {previous : ℕ}
    (h : Encodable previous entries) {fuel : ℕ} (hfuel : entries.length < fuel)
    (rest : List UInt8) :
    decodeMarked fuel previous (encodeAll previous entries ++ 255 :: rest) =
      some (entries, some rest) := by
  obtain ⟨left, hleft⟩ : ∃ n, fuel - entries.length = n + 1 := ⟨fuel - entries.length - 1, by omega⟩
  rw [decodeMarked_encodeAll h (Nat.le_of_lt hfuel), hleft]
  simp [decodeMarked]

/-- **Round trip.** Options alone. -/
theorem decodeMarked_encodeAll_nil {entries : List Entry} {previous : ℕ}
    (h : Encodable previous entries) {fuel : ℕ} (hfuel : entries.length ≤ fuel) :
    decodeMarked fuel previous (encodeAll previous entries) = some (entries, none) := by
  have hmarked := decodeMarked_encodeAll h hfuel []
  rw [List.append_nil] at hmarked
  rw [hmarked]
  simp [decodeMarked]

/-- **Round trip.** -/
theorem decode_encodeAll {entries : List Entry} {previous : ℕ}
    (h : Encodable previous entries) {fuel : ℕ} (hfuel : entries.length ≤ fuel) :
    decode fuel previous (encodeAll previous entries) = some entries := by
  rw [decode_eq_decodeMarked, decodeMarked_encodeAll_nil h hfuel]
  rfl

theorem length_le_length_encodeAll (previous : ℕ) (entries : List Entry) :
    entries.length ≤ (encodeAll previous entries).length := by
  induction entries generalizing previous with
  | nil => simp
  | cons first rest ih =>
    obtain ⟨number, value⟩ := first
    have := ih number
    simp only [encodeAll, encode, List.length_append, List.length_cons]
    omega

end CS.OptionFormat
