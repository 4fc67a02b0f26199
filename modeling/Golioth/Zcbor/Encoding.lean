/-
# What the client relies on when it encodes

What is assumed of the encoding functions of zcbor. Each of them appends one item,
or the beginning or the end of a container, if there is room for all of it, and
otherwise it fails and leaves what has been written as it is. A container has an
indefinite length, as it has where `CONFIG_ZCBOR_CANONICAL` is not set.
-/
import Golioth.CS.CborTokens
import Golioth.Zcbor.Conformance
import Golioth.Zcbor.Walk

namespace Golioth.Zcbor

open CS CS.Cbor

variable {E : Type}

/-! ## Encoders -/

/-- What is known of the states of an encoder: what a state has written and how many bytes more
there is room for, the profile of the items it writes, and the items for a text and an integer. -/
structure Encoding (E : Type) where
  profile : Profile
  At : E → (written : List UInt8) → (room : ℕ) → Prop
  text : List UInt8 → List UInt8
  integer : ℤ → List UInt8

/-- A function appends bytes if there is room for all of them. -/
structure Puts (e : Encoding E) (encode : E → Bool × E) (bytes : List UInt8) : Prop where
  fits : ∀ {zse written room}, e.At zse written room → bytes.length ≤ room →
    ∃ zse', encode zse = (true, zse') ∧ e.At zse' (written ++ bytes) (room - bytes.length)
  full : ∀ {zse written room}, e.At zse written room → room < bytes.length →
    ∃ zse', encode zse = (false, zse') ∧ e.At zse' written room

/-- What a map of indefinite length begins with. -/
def mapHead : List UInt8 := [0xbf]

/-- What a list of indefinite length begins with. -/
def listHead : List UInt8 := [0x9f]

theorem opens_mapHead (profile : Profile) (count : ℕ) :
    Framing.indefinite.Opens profile 5 count mapHead := rfl

theorem opens_listHead (profile : Profile) (count : ℕ) :
    Framing.indefinite.Opens profile 4 count listHead := rfl

/-- The functions of zcbor do what is documented of them. -/
structure Writes (enc : ZcborEncode E) (e : Encoding E) : Prop where
  newEncodeState : ∀ bufLen backups, e.At (enc.newEncodeState bufLen backups) [] bufLen
  encoded : ∀ {zse written room}, e.At zse written room → enc.encoded zse = written
  mapStart : ∀ maxNum, Puts e (enc.mapStartEncode maxNum) mapHead
  mapEnd : ∀ maxNum, Puts e (enc.mapEndEncode maxNum) [breakCode]
  listStart : ∀ maxNum, Puts e (enc.listStartEncode maxNum) listHead
  listEnd : ∀ maxNum, Puts e (enc.listEndEncode maxNum) [breakCode]
  tstr : ∀ text, Puts e (enc.tstrEncode text) (e.text text)
  int64 : ∀ value, -2 ^ 63 ≤ value → value < 2 ^ 63 → Puts e (enc.int64Put value) (e.integer value)
  uint64 : ∀ value < 2 ^ 64, Puts e (enc.uint64Put value) (e.integer value)
  text : ∀ text, text.length < sizeModulus → TextItem e.profile text (e.text text)
  integer : ∀ value, -2 ^ 63 ≤ value → value < 2 ^ 64 → IntegerItem value (e.integer value)

/-! ## Functions one after the other -/

/-- A part of the client appends bytes, or returns an error where there is no room for all of
them. -/
structure Emits (e : Encoding E) (run : E → Except ℤ E) (bytes : List UInt8) : Prop where
  fits : ∀ {zse written room}, e.At zse written room → bytes.length ≤ room →
    ∃ zse', run zse = .ok zse' ∧ e.At zse' (written ++ bytes) (room - bytes.length)
  full : ∀ {zse written room}, e.At zse written room → room < bytes.length →
    run zse = .error (-Errno.enomem)

section Parts

variable {e : Encoding E} {encode : E → Bool × E} {run next : E → Except ℤ E}
  {bytes bytes' : List UInt8}

theorem Puts.emits (h : Puts e encode bytes) : Emits e (fun zse => encoding (encode zse)) bytes where
  fits hat hle := by
    obtain ⟨zse', heq, hat'⟩ := h.fits hat hle
    exact ⟨zse', by rw [encoding, heq]; rfl, hat'⟩
  full hat hlt := by
    obtain ⟨zse', heq, -⟩ := h.full hat hlt
    rw [encoding, heq]
    rfl

theorem Emits.bind (h : Emits e run bytes) (h' : Emits e next bytes') :
    Emits e (fun zse => run zse >>= next) (bytes ++ bytes') where
  fits := by
    intro zse written room hat hle
    rw [List.length_append] at hle
    obtain ⟨zse₁, heq, hat₁⟩ := h.fits hat (by omega)
    obtain ⟨zse₂, heq', hat₂⟩ := h'.fits hat₁ (by omega)
    refine ⟨zse₂, by rw [heq]; exact heq', ?_⟩
    rw [List.append_assoc, Nat.sub_sub] at hat₂
    rw [List.length_append]
    exact hat₂
  full := by
    intro zse written room hat hlt
    rw [List.length_append] at hlt
    by_cases hle : bytes.length ≤ room
    · obtain ⟨zse₁, heq, hat₁⟩ := h.fits hat hle
      rw [heq]
      exact h'.full hat₁ (by omega)
    · rw [h.full hat (not_le.mp hle)]
      rfl

/-- What has been written at the end. -/
theorem Emits.encoded {enc : ZcborEncode E} (henc : Writes enc e) (h : Emits e run bytes) {zse : E}
    {written : List UInt8} {room : ℕ} (hat : e.At zse written room) :
    (run zse >>= fun zse => pure (enc.encoded zse)) =
      if bytes.length ≤ room then .ok (written ++ bytes) else .error (-Errno.enomem) := by
  split
  · next hle =>
    obtain ⟨zse', heq, hat'⟩ := h.fits hat hle
    rw [heq]
    exact congrArg Except.ok (henc.encoded hat')
  · next hlt =>
    rw [h.full hat (not_le.mp hlt)]
    rfl

end Parts

/-! ## Entries -/

/-- The entry of a map has a text as its key, and its value reads as something. -/
structure TextEntry (profile : Profile) (text : List UInt8) (reads : List UInt8 → Prop)
    (pair : Pair) : Prop where
  key : pair.key = .tstr text
  label : TextItem profile text pair.label
  value : reads pair.value

/-- The entry that is written for a key and a value. -/
def textPair (e : Encoding E) (key value : List UInt8) : Pair where
  key := .tstr key
  label := e.text key
  value := value

theorem Writes.textEntry {enc : ZcborEncode E} {e : Encoding E} (henc : Writes enc e)
    {key value : List UInt8} {reads : List UInt8 → Prop} (hkey : key.length < sizeModulus)
    (hvalue : reads value) : TextEntry e.profile key reads (textPair e key value) where
  key := rfl
  label := henc.text key hkey
  value := hvalue

section Entries

variable {profile : Profile} {item : List UInt8} {leaves : List Leaf}

/-- An entry is its key and what its value says. -/
theorem TextEntry.tokens {text : List UInt8} {reads : List UInt8 → Prop} {pair : Pair}
    (h : TextEntry profile text reads pair) (hvalue : Tokens pair.value leaves) :
    Tokens pair.bytes (.text text :: leaves) :=
  h.label.token.tokens.append hvalue

/-- A map is its entries one after the other. -/
theorem IsMap.tokens {framing : Framing} {pairs : List Pair} (h : IsMap profile framing pairs item)
    (hpairs : Tokens (pairBytes pairs) leaves) : Tokens item leaves := by
  obtain ⟨head, hopens, rfl⟩ := h
  simpa using (hopens.token (.inr rfl)).tokens.append (hpairs.append framing.tokens_close)

theorem tokens_pair {first second : Pair} {leaves' : List Leaf} (h : Tokens first.bytes leaves)
    (h' : Tokens second.bytes leaves') : Tokens (pairBytes [first, second]) (leaves ++ leaves') := by
  simpa [pairBytes] using h.append h'

end Entries

/-! ## The encoder for CBOR -/

namespace Reference

theorem length_toBytes (len value : ℕ) : (toBytes len value).length = len := by
  simp [toBytes]

theorem bigEndian_toBytes (len value : ℕ) : bigEndian (toBytes len value) = value % 256 ^ len := by
  induction len with
  | zero => simp [toBytes, bigEndian, Nat.mod_one]
  | succ len ih =>
    have hsucc : toBytes (len + 1) value = UInt8.ofNat (value / 256 ^ len) :: toBytes len value := by
      simp [toBytes, List.range_succ]
    have hbyte : (UInt8.ofNat (value / 256 ^ len)).toNat = value / 256 ^ len % 256 := by
      rw [UInt8.toNat_ofNat']
    rw [hsucc, bigEndian_cons, ih, length_toBytes, hbyte, @Nat.pow_succ 256 len, Nat.mod_mul,
      Nat.add_comm, Nat.mul_comm]

/-- The header of a value is its head. -/
theorem head_headerOf {major value : ℕ} (hmajor : major < 8) (hvalue : value < 2 ^ 64) :
    Head major value (headerOf major value) := by
  have hinitial : ∀ argument < 32, (UInt8.ofNat (32 * major + argument)).toNat / 32 = major ∧
      (UInt8.ofNat (32 * major + argument)).toNat % 32 = argument := by
    intro argument hargument
    rw [UInt8.toNat_ofNat']
    omega
  have hfollowing : ∀ k ≤ 3, value < 256 ^ 2 ^ k →
      Head major value (UInt8.ofNat (32 * major + (24 + k)) :: toBytes (2 ^ k) value) := by
    intro k hk hlt
    obtain ⟨hdiv, hmod⟩ := hinitial (24 + k) (by omega)
    have hhead := @Head.following major _ (toBytes (2 ^ k) value) hdiv (by omega) (by omega)
      (by rw [hmod, length_toBytes, Nat.add_sub_cancel_left])
    rw [bigEndian_toBytes, Nat.mod_eq_of_lt hlt] at hhead
    exact hhead
  rw [headerOf]
  split
  · next hlt =>
    obtain ⟨hdiv, hmod⟩ := hinitial value (by omega)
    have hhead := Head.inside hdiv (by omega)
    rw [hmod] at hhead
    exact hhead
  · split
    · exact hfollowing 0 (by decide) (by omega)
    · split
      · exact hfollowing 1 (by decide) (by omega)
      · split
        · exact hfollowing 2 (by decide) (by omega)
        · exact hfollowing 3 (by decide) (by omega)

theorem length_headerOf_le {major value : ℕ} (hvalue : value < 2 ^ 32) :
    (headerOf major value).length ≤ 5 := by
  rw [headerOf]
  split
  · simp
  · split
    · simp [length_toBytes]
    · split
      · simp [length_toBytes]
      · simp [length_toBytes]

def encoderText (text : List UInt8) : List UInt8 := headerOf 3 text.length ++ text

def encoderInteger (value : ℤ) : List UInt8 :=
  if 0 ≤ value then headerOf 0 value.toNat else headerOf 1 (-1 - value).toNat

/-- The states of the encoder. -/
def encoding : Encoding Output where
  profile := profile
  At output written room := output.written = written ∧ written.length + room = output.bufLen
  text := encoderText
  integer := encoderInteger

theorem puts_put (bytes : List UInt8) : Puts encoding (put bytes) bytes where
  fits := by
    rintro output written room ⟨rfl, hroom⟩ hle
    refine ⟨{ output with written := output.written ++ bytes }, ?_, rfl, ?_⟩
    · rw [put, if_pos (by omega)]
    · show (output.written ++ bytes).length + (room - bytes.length) = output.bufLen
      rw [List.length_append]
      omega
  full := by
    rintro output written room ⟨rfl, hroom⟩ hlt
    exact ⟨output, by rw [put, if_neg (by omega)], rfl, hroom⟩

theorem writes : Writes encoder encoding where
  newEncodeState bufLen backups := ⟨rfl, Nat.zero_add bufLen⟩
  encoded hat := hat.1
  mapStart _ := puts_put _
  mapEnd _ := puts_put _
  listStart _ := puts_put _
  listEnd _ := puts_put _
  tstr _ := puts_put _
  int64 _ _ _ := puts_put _
  uint64 value hvalue := by
    have hitem : encoderInteger value = headerOf 0 value := by
      rw [encoderInteger, if_pos (Int.natCast_nonneg value), Int.toNat_natCast]
    show Puts encoding (put (headerOf 0 value)) (encoderInteger value)
    rw [hitem]
    exact puts_put _
  text text hlen := by
    have hlen : text.length < 2 ^ 32 := hlen
    exact ⟨_, ⟨head_headerOf (by decide) (by omega), length_headerOf_le hlen⟩, rfl⟩
  integer value hlow hhigh := by
    show IntegerItem value (encoderInteger value)
    rw [encoderInteger]
    split
    · exact ⟨value.toNat, .inl ⟨head_headerOf (by decide) (by omega), by omega⟩⟩
    · exact ⟨(-1 - value).toNat, .inr ⟨head_headerOf (by decide) (by omega), by omega⟩⟩

end Reference

end Golioth.Zcbor
