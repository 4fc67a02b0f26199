/-
# The decoder conforms

The decoder of `Reference` does what the client relies on: its states stand at
positions, its functions take the items they are for, and `zcbor_any_skip` takes
whatever item is next, however deep it is. The lengths and the tags it takes have at
most four bytes, and it takes no strings in chunks.
-/
import Golioth.Zcbor.Contract
import Golioth.Zcbor.Reference
import Mathlib.Data.List.Forall2

namespace Golioth.Zcbor.Reference

open CS CS.Cbor

/-- What the decoder takes on a platform with 32 bits. -/
def profile : Profile where
  width := 4
  chunked := false

/-! ## Positions -/

/-- A number of elements and whether there is one at all, where so many bytes are left. -/
def Counted (len : ℕ) (backup : Backup) : Option ℕ → Prop
  | some count => backup.indefinite = false ∧ backup.elemCount = count
  | none => backup.indefinite = true ∧ len ≤ backup.elemCount

/-- The state stands at the position: what is left of the payload lies in memory where the state
says, and is not so long that a count could run out in a container of indefinite length. -/
structure Stands (s : State) (p : Position) : Prop where
  memory : p.memory = memory s
  payload : p.payload = s.payload
  left : Counted s.payload.length ⟨s.elemCount, s.indefinite⟩ p.left
  outer : List.Forall₂ (Counted s.payload.length) s.backups p.outer
  room : s.backups.length + p.room = s.maxBackups
  located : s.payload =
    (List.range s.payload.length).map fun i => Reference.memory s (s.address + UInt32.ofNat i)
  fits : s.payload.length ≤ largeElemCount

section Positions

variable {s : State} {p : Position} {item rest : List UInt8} {len len' : ℕ} {backup : Backup}
  {left : Option ℕ}

theorem Counted.mono (h : Counted len backup left) (hle : len' ≤ len) :
    Counted len' backup left := by
  cases left with
  | none => exact ⟨h.1, hle.trans h.2⟩
  | some count => exact h

theorem Stands.elemCount_pos (h : Stands s p) (hnext : p.HasNext) {byte : UInt8}
    {rest : List UInt8} (hpayload : p.payload = byte :: rest) : s.elemCount ≠ 0 := by
  have hleft := h.left
  cases hp : p.left with
  | none =>
    rw [hp] at hleft
    have hlen : s.payload.length ≤ s.elemCount := hleft.2
    rw [← h.payload, hpayload, List.length_cons] at hlen
    omega
  | some count =>
    rw [hp] at hleft
    have hcount : s.elemCount = count := hleft.2
    rintro hzero
    exact hnext (by rw [hp, ← hcount, hzero])

/-- What is left lies in memory after what has been taken. -/
theorem Stands.located_drop (h : Stands s p) (n : ℕ) :
    s.payload.drop n = (List.range (s.payload.drop n).length).map fun i =>
      Reference.memory s (s.address + UInt32.ofNat n + UInt32.ofNat i) := by
  refine List.ext_getElem (by simp) fun i hi _ => ?_
  have hlen : n + i < s.payload.length := by
    rw [List.length_drop] at hi
    omega
  have hget := congrArg (fun l => l[n + i]?) h.located
  rw [List.getElem_drop, List.getElem_map, List.getElem_range, UInt32.add_assoc,
    ← UInt32.ofNat_add]
  simpa [hlen] using hget

/-- Some of the payload has been passed. -/
theorem Stands.advance (h : Stands s p) (hpayload : p.payload = item ++ rest) :
    Stands (s.advance item.length) { p with payload := rest } := by
  have hdrop : s.payload.drop item.length = rest := by
    rw [← h.payload, hpayload, List.drop_left]
  have hle : (s.payload.drop item.length).length ≤ s.payload.length := by
    rw [List.length_drop]
    omega
  exact ⟨h.memory, hdrop.symm, h.left.mono hle, h.outer.imp fun _ _ hcounted => hcounted.mono hle,
    h.room, h.located_drop item.length, hle.trans h.fits⟩

/-- An item has been taken. -/
theorem Stands.take (h : Stands s p) (hpayload : p.payload = item ++ rest) (hne : item ≠ []) :
    Stands { s.advance item.length with elemCount := s.elemCount - 1 } (p.next rest) := by
  have hadvance := h.advance hpayload
  refine ⟨hadvance.memory, hadvance.payload, ?_, hadvance.outer, hadvance.room, hadvance.located,
    hadvance.fits⟩
  have hlen : s.payload.length = item.length + rest.length := by
    rw [← h.payload, hpayload, List.length_append]
  have hpos : 0 < item.length := List.length_pos_iff.mpr hne
  have hleft := h.left
  show Counted (s.payload.drop item.length).length ⟨s.elemCount - 1, s.indefinite⟩
    (p.left.map (· - 1))
  cases hp : p.left with
  | none =>
    rw [hp] at hleft
    refine ⟨hleft.1, ?_⟩
    have hcount : s.payload.length ≤ s.elemCount := hleft.2
    rw [List.length_drop]
    show s.payload.length - item.length ≤ s.elemCount - 1
    omega
  | some count =>
    rw [hp] at hleft
    exact ⟨hleft.1, congrArg (· - 1) hleft.2⟩

end Positions

/-! ## Heads -/

section Heads

variable {s s' : State} {major argument resultLen : ℕ} {head rest bytes : List UInt8}

/-- The argument of a head is extracted. -/
theorem valueExtract_head (h : Head major argument head) (hpayload : s.payload = head ++ rest)
    (hcount : s.elemCount ≠ 0) (hlen : head.length ≤ resultLen + 1) :
    valueExtract resultLen s =
      some (argument, { s.advance head.length with elemCount := s.elemCount - 1 }) := by
  cases h with
  | @inside initial hmajor hargument =>
    have hpayload : s.payload = initial :: rest := hpayload
    rw [valueExtract, hpayload]
    simp [hcount, additionalOf, hargument]
  | @following initial bytes hmajor hlow hhigh hlength =>
    have hpayload : s.payload = initial :: (bytes ++ rest) := hpayload
    have hargument : additionalLen (additionalOf initial) = bytes.length := by
      rw [additionalLen, additionalOf, if_pos ⟨hlow, hhigh⟩, hlength]
    have hne : bytes.length ≠ 0 := by
      rw [hlength]
      exact (Nat.two_pow_pos _).ne'
    have hlen : bytes.length ≤ resultLen := by
      rw [List.length_cons] at hlen
      omega
    have hnot : ¬ additionalOf initial < 24 := by
      rw [additionalOf]
      omega
    rw [valueExtract, hpayload]
    dsimp only
    rw [if_neg hcount, if_neg hnot, hargument, if_neg (by simp [hne]; omega), List.take_left]
    rw [List.length_cons, Nat.add_comm]
    rfl

/-- What is extracted is the argument of a head. -/
theorem head_of_valueExtract (h : valueExtract resultLen s = some (argument, s')) :
    ∃ major head rest, Head major argument head ∧ s.payload = head ++ rest ∧
      head.length ≤ resultLen + 1 ∧ s.elemCount ≠ 0 ∧
      s' = { s.advance head.length with elemCount := s.elemCount - 1 } := by
  unfold valueExtract at h
  cases hpayload : s.payload with
  | nil =>
    rw [hpayload] at h
    cases h
  | cons initial rest =>
    rw [hpayload] at h
    dsimp only at h
    split at h
    · cases h
    · next hcount =>
      split at h
      · next hinside =>
        obtain ⟨rfl, rfl⟩ := Prod.mk.inj (Option.some_inj.mp h)
        exact ⟨_, [initial], rest, .inside rfl hinside, rfl, by simp, hcount, rfl⟩
      · split at h
        · cases h
        · next hinside hwide =>
          obtain ⟨rfl, rfl⟩ := Prod.mk.inj (Option.some_inj.mp h)
          rw [not_or, not_or] at hwide
          obtain ⟨hresult, hzero, hrest⟩ := hwide
          have hrange : 24 ≤ additionalOf initial ∧ additionalOf initial ≤ 27 := by
            by_contra hnot
            exact hzero (by rw [additionalLen, if_neg hnot])
          have hlength : (rest.take (additionalLen (additionalOf initial))).length =
              additionalLen (additionalOf initial) := by
            rw [List.length_take]
            omega
          refine ⟨_, initial :: rest.take (additionalLen (additionalOf initial)),
            rest.drop (additionalLen (additionalOf initial)), .following rfl hrange.1 hrange.2 ?_,
            by simp, ?_, hcount, ?_⟩
          · rw [hlength, additionalLen, if_pos hrange]
            rfl
          · rw [List.length_cons, hlength]
            omega
          · rw [List.length_cons, hlength, Nat.add_comm]

theorem valueOf_head {types : List MajorType} {type : MajorType} (htype : type ∈ types)
    (h : Head type.number argument head) (hpayload : s.payload = head ++ rest)
    (hcount : s.elemCount ≠ 0) (hlen : head.length ≤ resultLen + 1) :
    valueOf types resultLen s =
      some (type, argument, { s.advance head.length with elemCount := s.elemCount - 1 }) := by
  obtain ⟨initial, following, hhead, hmajor, -⟩ := h.initial
  have hcons : s.payload = initial :: (following ++ rest) := by rw [hpayload, hhead]; rfl
  rw [valueOf, hcons]
  dsimp only
  rw [majorType_eq_iff.mpr hmajor, if_pos htype, valueExtract_head h hpayload hcount hlen]
  rfl

theorem head_of_valueOf {types : List MajorType} {type : MajorType}
    (h : valueOf types resultLen s = some (type, argument, s')) :
    ∃ head rest, type ∈ types ∧ Head type.number argument head ∧ s.payload = head ++ rest ∧
      head.length ≤ resultLen + 1 ∧
      s' = { s.advance head.length with elemCount := s.elemCount - 1 } := by
  unfold valueOf at h
  cases hcons : s.payload with
  | nil =>
    rw [hcons] at h
    cases h
  | cons initial following =>
    rw [hcons] at h
    dsimp only at h
    split at h
    · next hmem =>
      obtain ⟨⟨value, s₁⟩, hextract, hvalue⟩ := Option.map_eq_some_iff.mp h
      simp only [Prod.mk.injEq] at hvalue
      obtain ⟨rfl, rfl, rfl⟩ := hvalue
      obtain ⟨major, head, rest, hhead, hpayload, hlen, -, rfl⟩ := head_of_valueExtract hextract
      obtain ⟨hmajor, -⟩ := hhead.initial_of_append (hcons.symm.trans hpayload)
      obtain rfl : (majorType initial).number = major := (majorType_eq_iff.mp rfl).symm.trans hmajor
      exact ⟨head, rest, hmem, hhead, hcons.symm.trans hpayload, hlen, rfl⟩
    · cases h

end Heads

/-! ## Decoders -/

/-- The number that the bits after a header are. -/
def floatOfBits (header : UInt8) (bits : ℕ) : Option Float :=
  if header = 0xf9 then some (floatOfHalf bits)
  else if header = 0xfa then some ((Float32.ofBits (UInt32.ofNat bits)).toFloat)
  else if header = 0xfb then some (Float.ofBits (UInt64.ofNat bits))
  else none

/-- The states of the decoder, and what it takes. -/
def decoding : Decoding State where
  profile := profile
  At := Stands
  float item := ((valueExtract 8 (newDecodeState item 1 0)).bind fun (bits, _) =>
    floatOfBits (item.headD 0) bits).getD 0

section Decoders

variable {s : State} {p : Position}

/-- A function that keeps the state where it fails, from what it does where it does not. -/
theorem decodes_orKeep {α β : Type} {decode : State → Option (α × State)}
    {means : Position → α → β} {reads : List UInt8 → β → Prop}
    (htakes : ∀ {s p item rest value}, Stands s p → s.elemCount ≠ 0 → s.payload = item ++ rest →
      reads item value → ∃ raw, means p raw = value ∧
        decode s = some (raw, { s.advance item.length with elemCount := s.elemCount - 1 }))
    (hrefuses : ∀ {s raw s'}, decode s = some (raw, s') →
      ∃ item rest value, s.payload = item ++ rest ∧ reads item value)
    (hne : ∀ {item value}, reads item value → item ≠ []) :
    Decodes decoding (fun s => orKeep s (decode s)) means reads where
  takes := by
    intro s p item rest value hat hnext hpayload hreads
    obtain ⟨byte, following, hcons⟩ := List.exists_cons_of_ne_nil (hne hreads)
    have hfirst : p.payload = byte :: (following ++ rest) := by
      rw [hpayload, hcons]
      rfl
    obtain ⟨raw, hmeans, hdecode⟩ := htakes hat (hat.elemCount_pos hnext hfirst)
      (hat.payload.symm.trans hpayload) hreads
    refine ⟨raw, _, ?_, hmeans, hat.take hpayload (hne hreads)⟩
    show orKeep s (decode s) = _
    rw [hdecode]
    rfl
  refuses := by
    intro s p hat hnone
    refine ⟨s, ?_, hat⟩
    show orKeep s (decode s) = (none, s)
    cases hdecode : decode s with
    | none => rfl
    | some result =>
      obtain ⟨raw, s'⟩ := result
      obtain ⟨item, rest, value, hpayload, hreads⟩ := hrefuses hdecode
      exact absurd hreads (hnone item rest value (hat.payload.trans hpayload))

theorem uint32_decodes : Decodes decoding uint32Decode (fun _ value => value.toNat)
    fun item n => NaturalItem profile n item ∧ n < 2 ^ 32 := by
  refine decodes_orKeep ?_ ?_ fun h => h.1.1.ne_nil
  · intro s p item rest value hat hcount hpayload ⟨hitem, hlt⟩
    have htype : MajorType.pint ∈ [MajorType.pint] := List.mem_singleton_self _
    have hvalue := valueOf_head htype hitem.1 hpayload hcount hitem.2
    refine ⟨UInt32.ofNat value, ?_, ?_⟩
    · rw [UInt32.toNat_ofNat']
      omega
    · have hvalue : valueOf [.pint] 4 s = _ := hvalue
      rw [hvalue]
      rfl
  · intro s raw s' h
    obtain ⟨⟨type, value, s₁⟩, hvalue, heq⟩ := Option.map_eq_some_iff.mp h
    obtain ⟨head, rest, htype, hhead, hpayload, hlen, -⟩ := head_of_valueOf hvalue
    obtain rfl := List.mem_singleton.mp htype
    exact ⟨head, rest, value, hpayload, ⟨hhead, hlen⟩, hhead.argument_lt hlen (by decide)⟩

theorem int64_decodes : Decodes decoding int64Decode (fun _ value => value)
    fun item value => IntegerItem value item ∧ -2 ^ 63 ≤ value ∧ value < 2 ^ 63 := by
  refine decodes_orKeep ?_ ?_ ?_
  · intro s p item rest value hat hcount hpayload ⟨⟨n, hitem⟩, hlow, hhigh⟩
    rcases hitem with ⟨hhead, rfl⟩ | ⟨hhead, rfl⟩
    · have htype : MajorType.pint ∈ [MajorType.pint, MajorType.nint] := by simp
      have hvalue := valueOf_head htype hhead hpayload hcount hhead.length_le
      have hlt : n < 2 ^ 63 := by omega
      exact ⟨n, rfl, by rw [hvalue]; exact if_pos hlt⟩
    · have htype : MajorType.nint ∈ [MajorType.pint, MajorType.nint] := by simp
      have hvalue := valueOf_head htype hhead hpayload hcount hhead.length_le
      have hlt : n < 2 ^ 63 := by omega
      exact ⟨-1 - n, rfl, by rw [hvalue]; exact if_pos hlt⟩
  · intro s raw s' h
    obtain ⟨⟨type, value, s₁⟩, hvalue, hif⟩ := Option.bind_eq_some_iff.mp h
    obtain ⟨head, rest, htype, hhead, hpayload, hlen, -⟩ := head_of_valueOf hvalue
    have hlt : value < 2 ^ 63 := (Option.ite_none_right_eq_some.mp hif).1
    simp only [List.mem_cons, List.not_mem_nil, or_false] at htype
    rcases htype with rfl | rfl
    · exact ⟨head, rest, value, hpayload, ⟨value, .inl ⟨hhead, rfl⟩⟩, by omega, by omega⟩
    · exact ⟨head, rest, -1 - value, hpayload, ⟨value, .inr ⟨hhead, rfl⟩⟩, by omega, by omega⟩
  · rintro item value ⟨⟨n, ⟨hhead, -⟩ | ⟨hhead, -⟩⟩, -⟩ <;> exact hhead.ne_nil

theorem bool_decodes : Decodes decoding boolDecode (fun _ value => value)
    fun item value => BoolItem value item := by
  refine decodes_orKeep ?_ ?_ ?_
  · intro s p item rest value hat hcount hpayload hitem
    have hpayload : s.payload = (if value then 0xf5 else 0xf4) :: rest := by
      rw [hpayload, hitem]
      rfl
    refine ⟨value, rfl, ?_⟩
    rw [simpleValue, hpayload, hitem]
    cases value <;> simp [hcount]
  · intro s raw s' h
    obtain ⟨⟨header, s₁⟩, hvalue, hif⟩ := Option.bind_eq_some_iff.mp h
    unfold simpleValue at hvalue
    cases hpayload : s.payload with
    | nil =>
      rw [hpayload] at hvalue
      cases hvalue
    | cons byte rest =>
      rw [hpayload] at hvalue
      obtain ⟨-, hvalue⟩ := Option.ite_none_left_eq_some.mp hvalue
      obtain ⟨rfl, -⟩ := Prod.mk.inj (Option.some_inj.mp hvalue)
      dsimp only at hif
      split at hif
      · next hfalse => exact ⟨[byte], rest, false, rfl, by simp [BoolItem, hfalse]⟩
      · next _ =>
        have htrue := (Option.ite_none_right_eq_some.mp hif).1
        exact ⟨[byte], rest, true, rfl, by simp [BoolItem, htrue]⟩
  · rintro item value rfl
    exact List.cons_ne_nil _ _

theorem advance_advance (s : State) (m n : ℕ) : (s.advance m).advance n = s.advance (m + n) := by
  simp [State.advance, List.drop_drop, UInt32.add_assoc, UInt32.ofNat_add]

/-- What has been taken and what follows it lies in memory from where the state says. -/
theorem Stands.bytes_eq (h : Stands s p) {head text rest : List UInt8}
    (hpayload : s.payload = head ++ (text ++ rest)) :
    p.bytes (s.address + UInt32.ofNat head.length) text.length = text := by
  have hlocated := h.located_drop head.length
  rw [hpayload, List.drop_left] at hlocated
  have htake := congrArg (List.take text.length) hlocated
  rw [List.take_left, ← List.map_take, List.take_range, List.length_append,
    Nat.min_eq_left (Nat.le_add_right _ _)] at htake
  rw [Position.bytes, h.memory]
  exact htake.symm

theorem tstr_decodes : Decodes decoding tstrDecode Position.text
    fun item text => TextItem profile text item := by
  refine decodes_orKeep ?_ ?_ ?_
  · rintro s p item rest text hat hcount hpayload ⟨head, hhead, rfl⟩
    rw [List.append_assoc] at hpayload
    have htype : MajorType.tstr ∈ [MajorType.tstr] := List.mem_singleton_self _
    have hvalue := valueOf_head htype hhead.1 hpayload hcount hhead.2
    have hvalue : valueOf [.tstr] 4 s = _ := hvalue
    have hdrop : s.payload.drop head.length = text ++ rest := by rw [hpayload, List.drop_left]
    have hfits : text.length ≤ (s.payload.drop head.length).length := by
      rw [hdrop, List.length_append]
      omega
    refine ⟨⟨s.address + UInt32.ofNat head.length, text.length⟩, hat.bytes_eq hpayload, ?_⟩
    rw [hvalue, Option.bind_some]
    refine (if_pos hfits).trans ?_
    rw [List.length_append, ← advance_advance]
    rfl
  · intro s raw s' h
    obtain ⟨⟨type, len, s₁⟩, hvalue, hif⟩ := Option.bind_eq_some_iff.mp h
    obtain ⟨head, rest, htype, hhead, hpayload, hlen, rfl⟩ := head_of_valueOf hvalue
    obtain rfl := List.mem_singleton.mp htype
    have hfits : len ≤ (s.payload.drop head.length).length :=
      (Option.ite_none_right_eq_some.mp hif).1
    rw [hpayload, List.drop_left] at hfits
    have hlength : (rest.take len).length = len := by
      rw [List.length_take]
      omega
    refine ⟨head ++ rest.take len, rest.drop len, rest.take len, ?_, head, ⟨?_, hlen⟩, rfl⟩
    · rw [hpayload, List.append_assoc, List.take_append_drop]
    · rw [hlength]
      exact hhead
  · rintro item text ⟨head, hhead, rfl⟩
    exact List.append_ne_nil_of_left_ne_nil hhead.1.ne_nil text

/-- The initial byte of a number of half, single or double precision. -/
theorem initial_of_float {item : List UInt8} (h : FloatItem item) :
    ∃ byte following, item = byte :: following ∧ (byte = 0xf9 ∨ byte = 0xfa ∨ byte = 0xfb) := by
  obtain ⟨argument, hhead, hlen⟩ := h
  cases hhead with
  | inside _ _ => simp at hlen
  | @following initial bytes hmajor hlow hhigh hlength =>
    refine ⟨initial, bytes, rfl, ?_⟩
    have hbyte : initial.toNat % 32 ≠ 24 := by
      intro heq
      rw [heq] at hlength
      simp [hlength] at hlen
    have hcases : initial.toNat = 249 ∨ initial.toNat = 250 ∨ initial.toNat = 251 := by omega
    simpa [← UInt8.toNat_inj] using hcases

theorem float_eq {byte : UInt8} {following : List UInt8} {argument major : ℕ}
    (hhead : Head major argument (byte :: following)) :
    decoding.float (byte :: following) = (floatOfBits byte argument).getD 0 := by
  have hpayload : (newDecodeState (byte :: following) 1 0).payload = (byte :: following) ++ [] := by
    simp [newDecodeState]
  have hextract := valueExtract_head hhead hpayload one_ne_zero hhead.length_le
  show ((valueExtract 8 (newDecodeState (byte :: following) 1 0)).bind _).getD 0 = _
  rw [hextract]
  rfl

theorem float_decodes : Decodes decoding floatDecode (fun _ value => value)
    fun item value => FloatItem item ∧ value = decoding.float item := by
  refine decodes_orKeep ?_ ?_ ?_
  · rintro s p item rest value hat hcount hpayload ⟨hitem, rfl⟩
    obtain ⟨byte, following, rfl, hbyte⟩ := initial_of_float hitem
    obtain ⟨argument, hhead, hlen⟩ := hitem
    have hextract := valueExtract_head hhead hpayload hcount hhead.length_le
    have hcons : s.payload = byte :: (following ++ rest) := hpayload
    refine ⟨_, rfl, ?_⟩
    rw [float_eq hhead, hcons]
    dsimp only
    rw [hextract, Option.bind_some]
    rcases hbyte with rfl | rfl | rfl <;> rfl
  · intro s raw s' h
    cases hpayload : s.payload with
    | nil =>
      rw [hpayload] at h
      cases h
    | cons byte following =>
      rw [hpayload] at h
      obtain ⟨⟨bits, s₁⟩, hextract, hif⟩ := Option.bind_eq_some_iff.mp h
      obtain ⟨major, head, rest, hhead, hsplit, -⟩ := head_of_valueExtract hextract
      rw [hpayload] at hsplit
      -- any other header is refused
      have hbyte : byte = 0xf9 ∨ byte = 0xfa ∨ byte = 0xfb := by
        by_contra hnot
        rw [not_or, not_or] at hnot
        dsimp only at hif
        rw [if_neg hnot.1, if_neg hnot.2.1, if_neg hnot.2.2] at hif
        cases hif
      refine ⟨head, rest, _, hsplit, ⟨bits, ?_, ?_⟩, rfl⟩
      · obtain ⟨hmajor, -⟩ := hhead.initial_of_append hsplit
        have hseven : byte.toNat / 32 = 7 := by rcases hbyte with rfl | rfl | rfl <;> rfl
        rw [← hmajor, hseven] at hhead
        exact hhead
      · cases hhead with
        | inside _ hargument =>
          obtain ⟨rfl, -⟩ := List.cons.inj hsplit
          rcases hbyte with rfl | rfl | rfl <;> exact absurd hargument (by decide)
        | following _ _ _ hlength =>
          obtain ⟨rfl, -⟩ := List.cons.inj hsplit
          rw [List.length_cons, hlength]
          rcases hbyte with rfl | rfl | rfl <;> decide
  · rintro item value ⟨⟨argument, hhead, -⟩, -⟩
    exact hhead.ne_nil

end Decoders

/-! ## Containers -/

section Containers

variable {s : State} {p : Position}

/-- The count of what is around it has been saved. -/
theorem Stands.enter {q : Position} {count : ℕ} {indefinite : Bool} {left : Option ℕ}
    (h : Stands s q) (hroom : 0 < q.room)
    (hleft : Counted s.payload.length ⟨count, indefinite⟩ left) :
    Stands
      { s with
        elemCount := count
        indefinite := indefinite
        backups := ⟨s.elemCount, s.indefinite⟩ :: s.backups }
      { q with left := left, outer := q.left :: q.outer, room := q.room - 1 } := by
  refine ⟨h.memory, h.payload, hleft, .cons h.left h.outer, ?_, h.located, h.fits⟩
  have hbackups := h.room
  simp only [List.length_cons]
  omega

theorem starts {type : MajorType} (htype : type = .list ∨ type = .map) (factor : ℕ) :
    Starts decoding (startDecode type factor) type.number factor := by
  intro s p framing count head rest hat hnext hroom hpayload hopens
  have hmajor : type.number < 8 := by rcases htype with rfl | rfl <;> decide
  obtain ⟨byte, following, rfl, hbyte⟩ := hopens.initial hmajor
  have hcons : s.payload = byte :: (following ++ rest) := hat.payload.symm.trans hpayload
  have hcount := hat.elemCount_pos hnext hpayload
  have hguard : ¬ (majorType byte ≠ type ∨ s.elemCount = 0 ∨ s.maxBackups ≤ s.backups.length) := by
    have hbackups := hat.room
    rw [not_or, not_or, not_not]
    exact ⟨majorType_eq_iff.mpr hbyte, hcount, by omega⟩
  have htaken : Stands _ (p.next rest) := hat.take hpayload (List.cons_ne_nil _ _)
  unfold startDecode
  rw [hcons]
  dsimp only
  rw [if_neg hguard]
  cases framing with
  | definite =>
    have hopens : profile.Counts type.number count (byte :: following) := hopens
    have hdefinite : ¬ isIndefiniteHeader byte = true := by
      obtain ⟨-, hargument⟩ := hopens.1.initial_of_append (List.append_nil _).symm
      rw [isIndefiniteHeader, decide_eq_true_eq, additionalOf]
      omega
    have hextract := valueExtract_head hopens.1 (hat.payload.symm.trans hpayload) hcount hopens.2
    have hextract : valueExtract 4 s = _ := hextract
    rw [if_neg hdefinite, hextract]
    exact ⟨_, rfl, htaken.enter hroom ⟨rfl, rfl⟩⟩
  | indefinite =>
    obtain ⟨rfl, rfl⟩ := List.cons.inj hopens
    have hindefinite : isIndefiniteHeader (UInt8.ofNat (32 * type.number + 31)) = true := by
      rcases htype with rfl | rfl <;> decide
    rw [if_pos hindefinite]
    have hfits : s.payload.length ≤ largeElemCount := hat.fits
    refine ⟨_, rfl, htaken.enter hroom ⟨rfl, ?_⟩⟩
    show (s.payload.drop 1).length ≤ largeElemCount
    rw [List.length_drop]
    omega

/-- What is around a container has been brought back. -/
theorem Stands.leave (h : Stands s p) (houter : p.outer ≠ []) :
    ∃ s', restore s = some s' ∧ Stands s' (p.leave s.payload) := by
  have hbackups := h.outer
  cases hp : p.outer with
  | nil => exact absurd hp houter
  | cons left outer =>
    rw [hp] at hbackups
    cases hs : s.backups with
    | nil =>
      rw [hs] at hbackups
      cases hbackups
    | cons backup backups =>
      rw [hs] at hbackups
      obtain ⟨hbackup, hrest⟩ := List.forall₂_cons.mp hbackups
      refine ⟨{ s with
          elemCount := backup.elemCount
          indefinite := backup.indefinite
          backups := backups }, by rw [restore, hs], h.memory, rfl, ?_, ?_, ?_, h.located, h.fits⟩
      · rw [Position.leave, hp]
        exact hbackup
      · rw [Position.leave, hp]
        exact hrest
      · have hroom := h.room
        rw [hs, List.length_cons] at hroom
        show backups.length + (p.room + 1) = s.maxBackups
        omega

theorem ends : Ends decoding endDecode where
  leaves := by
    intro s p framing rest hat houter hpayload hleft
    cases framing with
    | definite =>
      have hcounted := hat.left
      rw [hleft] at hcounted
      obtain ⟨hindefinite, hcount⟩ := hcounted
      have hindefinite : s.indefinite = false := hindefinite
      have hcount : s.elemCount = 0 := hcount
      obtain ⟨s', hrestore, hat'⟩ := hat.leave houter
      rw [← hat.payload, hpayload] at hat'
      refine ⟨s', ?_, hat'⟩
      rw [endDecode, hindefinite, hcount, hrestore]
      rfl
    | indefinite =>
      have hcounted := hat.left
      rw [hleft] at hcounted
      have hindefinite : s.indefinite = true := hcounted.1
      have hpayload : p.payload = [breakCode] ++ rest := hpayload
      have hadvance : Stands (s.advance 1) { p with payload := rest } := hat.advance hpayload
      have houter : ({ p with payload := rest } : Position).outer ≠ [] := houter
      obtain ⟨s', hrestore, hat'⟩ := hadvance.leave houter
      have hdrop : (s.advance 1).payload = rest := hadvance.payload.symm
      rw [hdrop] at hat'
      have hhead : s.payload.head? = some breakByte := by
        rw [← hat.payload, hpayload]
        rfl
      refine ⟨s', ?_, hat'⟩
      rw [endDecode, hindefinite, if_pos rfl, if_pos hhead, hrestore]
      rfl
  refuses := by
    intro s p hat hleft hhead
    have hcounted := hat.left
    rw [hleft] at hcounted
    have hindefinite : s.indefinite = true := hcounted.1
    rw [hat.payload] at hhead
    have hhead : ¬ s.payload.head? = some breakByte := hhead
    rw [endDecode, hindefinite, if_pos rfl, if_neg hhead]
    rfl

end Containers

/-! ## Skipping -/

/-- What `zcbor_any_skip` passes after the tags. -/
def skipContent (fuel : ℕ) (copy : State) : Option State :=
  match copy.payload with
  | [] => none
  | header :: _ =>
    if isIndefiniteHeader header ∧ (majorType header = .list ∨ majorType header = .map) then
      skipElements fuel { copy.advance 1 with elemCount := largeElemCount, indefinite := true }
    else
      (valueExtract 8 copy).bind fun (value, copy) =>
        match majorType header with
        | .bstr | .tstr => if copy.payload.length < value then none else some (copy.advance value)
        | .map => skipElements fuel { copy with elemCount := 2 * value, indefinite := false }
        | .list => skipElements fuel { copy with elemCount := value, indefinite := false }
        | _ => some copy

theorem anySkip_eq (fuel : ℕ) (s : State) :
    anySkip (fuel + 1) s =
      (skipTags (fuel + 1) s).bind fun copy => (skipContent fuel copy).map fun copy =>
        { s with payload := copy.payload, address := copy.address, elemCount := s.elemCount - 1 } := by
  rw [anySkip]
  congr 1
  funext copy
  rw [skipContent]
  cases copy.payload <;> rfl

/-- The item is skipped: the tags before it are, and then the rest of it. -/
def Skipped (item : List UInt8) : Prop :=
  ∀ (s : State) (rest : List UInt8), s.payload = item ++ rest → s.elemCount ≠ 0 →
    s.payload.length ≤ largeElemCount →
    ∃ copy, (∀ fuel, item.length ≤ fuel → skipTags fuel s = some copy) ∧
      ∀ fuel, 2 * item.length ≤ fuel + 1 → ∃ copy', skipContent fuel copy = some copy' ∧
        copy'.payload = rest ∧ copy'.address = s.address + UInt32.ofNat item.length

section Skipping

variable {s : State} {item rest head following : List UInt8} {byte : UInt8} {argument : ℕ}

theorem address_append (address : UInt32) (bytes bytes' : List UInt8) :
    address + UInt32.ofNat bytes.length + UInt32.ofNat bytes'.length =
      address + UInt32.ofNat (bytes ++ bytes').length := by
  rw [List.length_append, UInt32.ofNat_add, UInt32.add_assoc]

theorem Skipped.anySkip (h : Skipped item) (fuel : ℕ) (hpayload : s.payload = item ++ rest)
    (hcount : s.elemCount ≠ 0) (hfits : s.payload.length ≤ largeElemCount)
    (hne : item ≠ []) (hfuel : 2 * item.length ≤ fuel) :
    Reference.anySkip fuel s =
      some { s.advance item.length with elemCount := s.elemCount - 1 } := by
  have hpos : 0 < item.length := List.length_pos_iff.mpr hne
  obtain ⟨fuel, rfl⟩ : ∃ steps, fuel = steps + 1 := ⟨fuel - 1, by omega⟩
  obtain ⟨copy, htags, hcontent⟩ := h s rest hpayload hcount hfits
  obtain ⟨copy', hskip, hrest, haddress⟩ := hcontent fuel (by omega)
  rw [anySkip_eq, htags (fuel + 1) (by omega), Option.bind_some, hskip, Option.map_some, hrest,
    haddress]
  simp [State.advance, hpayload]

theorem skipTags_of_ne (fuel : ℕ) (hpayload : s.payload = byte :: rest)
    (hne : majorType byte ≠ .tag) : skipTags (fuel + 1) s = some s := by
  have hnone : valueOf [.tag] 4 s = none := by
    rw [valueOf, hpayload]
    exact if_neg (by simpa using hne)
  rw [skipTags, hnone, hpayload]
  exact if_neg hne

/-- An item that is no tag is skipped if what it holds is. -/
theorem skipped_of_content (hitem : item = byte :: following) (hne : majorType byte ≠ .tag)
    (hcontent : ∀ {s : State} {rest : List UInt8}, s.payload = item ++ rest → s.elemCount ≠ 0 →
      s.payload.length ≤ largeElemCount → ∀ fuel, 2 * item.length ≤ fuel + 1 →
      ∃ copy, skipContent fuel s = some copy ∧ copy.payload = rest ∧
        copy.address = s.address + UInt32.ofNat item.length) : Skipped item := by
  intro s rest hpayload hcount hfits
  have hcons : s.payload = byte :: (following ++ rest) := by
    rw [hpayload, hitem]
    rfl
  refine ⟨s, fun fuel hfuel => ?_, hcontent hpayload hcount hfits⟩
  obtain ⟨fuel, rfl⟩ : ∃ steps, fuel = steps + 1 :=
    ⟨fuel - 1, by rw [hitem] at hfuel; simp at hfuel; omega⟩
  exact skipTags_of_ne fuel hcons hne

/-- The content of an item that begins with a head. -/
theorem skipContent_head {type : MajorType} (fuel : ℕ) (h : Head type.number argument head)
    (hpayload : s.payload = head ++ rest) (hcount : s.elemCount ≠ 0) :
    skipContent fuel s =
      (match type with
      | .bstr | .tstr =>
        if rest.length < argument then none
        else some { s.advance (head.length + argument) with elemCount := s.elemCount - 1 }
      | .map => skipElements fuel
          { s.advance head.length with elemCount := 2 * argument, indefinite := false }
      | .list => skipElements fuel
          { s.advance head.length with elemCount := argument, indefinite := false }
      | _ => some { s.advance head.length with elemCount := s.elemCount - 1 }) := by
  obtain ⟨byte, following, rfl, hmajor, hargument⟩ := h.initial
  have hcons : s.payload = byte :: (following ++ rest) := hpayload
  have htype : majorType byte = type := majorType_eq_iff.mpr hmajor
  have hdefinite : ¬ (isIndefiniteHeader byte = true ∧
      (majorType byte = .list ∨ majorType byte = .map)) := by
    rw [isIndefiniteHeader, decide_eq_true_eq, additionalOf]
    omega
  have hdrop : (s.advance (byte :: following).length).payload = rest := by
    rw [State.advance, hpayload]
    exact List.drop_left
  rw [skipContent, hcons]
  dsimp only
  rw [if_neg hdefinite, valueExtract_head h hpayload hcount h.length_le, Option.bind_some, htype,
    ← advance_advance, ← hdrop]
  cases type <;> rfl

theorem skipped_head {type : MajorType} (h : Head type.number argument head)
    (htype : type = .pint ∨ type = .nint ∨ type = .simple) : Skipped head := by
  obtain ⟨byte, following, heq, hmajor, -⟩ := h.initial
  have hbyte : majorType byte = type := majorType_eq_iff.mpr hmajor
  refine skipped_of_content heq (by rw [hbyte]; rcases htype with rfl | rfl | rfl <;> simp) ?_
  intro s rest hpayload hcount hfits fuel hfuel
  have hdrop : (s.advance head.length).payload = rest := by
    rw [State.advance, hpayload]
    exact List.drop_left
  refine ⟨{ s.advance head.length with elemCount := s.elemCount - 1 }, ?_, hdrop, rfl⟩
  rw [skipContent_head fuel h hpayload hcount]
  rcases htype with rfl | rfl | rfl <;> rfl

theorem skipped_string {type : MajorType} {content : List UInt8}
    (h : Head type.number content.length head) (htype : type = .bstr ∨ type = .tstr) :
    Skipped (head ++ content) := by
  obtain ⟨byte, following, heq, hmajor, -⟩ := h.initial
  have hbyte : majorType byte = type := majorType_eq_iff.mpr hmajor
  have hcons : head ++ content = byte :: (following ++ content) := by rw [heq]; rfl
  refine skipped_of_content hcons (by rw [hbyte]; rcases htype with rfl | rfl <;> simp) ?_
  intro s rest hpayload hcount hfits fuel hfuel
  rw [List.append_assoc] at hpayload
  have hdrop : (s.advance (head.length + content.length)).payload = rest := by
    rw [State.advance, hpayload, ← List.append_assoc, ← List.length_append]
    exact List.drop_left
  have hlen : ¬ (content ++ rest).length < content.length := by
    rw [List.length_append]
    omega
  refine ⟨{ s.advance (head.length + content.length) with elemCount := s.elemCount - 1 }, ?_,
    hdrop, by rw [List.length_append]; rfl⟩
  rw [skipContent_head fuel h hpayload hcount]
  rcases htype with rfl | rfl <;> exact if_neg hlen

/-- A tag is skipped with the item after it. -/
theorem skipped_tag (h : profile.Counts 6 argument head) (hitem : Skipped item) :
    Skipped (head ++ item) := by
  intro s rest hpayload hcount hfits
  rw [List.append_assoc] at hpayload
  have htype : MajorType.tag ∈ [MajorType.tag] := List.mem_singleton_self _
  have hvalue := valueOf_head htype h.1 hpayload hcount h.2
  have hvalue : valueOf [.tag] 4 s = _ := hvalue
  have hdrop : (s.advance head.length).payload = item ++ rest := by
    rw [State.advance, hpayload]
    exact List.drop_left
  have hle : (s.advance head.length).payload.length ≤ largeElemCount := by
    rw [State.advance, List.length_drop]
    exact (Nat.sub_le _ _).trans hfits
  obtain ⟨copy, htags, hcontent⟩ := hitem _ rest hdrop hcount hle
  have hpos : 0 < head.length := List.length_pos_iff.mpr h.1.ne_nil
  refine ⟨copy, fun fuel hfuel => ?_, fun fuel hfuel => ?_⟩
  · rw [List.length_append] at hfuel
    obtain ⟨fuel, rfl⟩ : ∃ steps, fuel = steps + 1 := ⟨fuel - 1, by omega⟩
    rw [skipTags, hvalue]
    exact htags fuel (by omega)
  · rw [List.length_append] at hfuel
    obtain ⟨copy', hskip, hrest, haddress⟩ := hcontent fuel (by omega)
    exact ⟨copy', hskip, hrest, haddress.trans (address_append s.address head item)⟩

/-- The items of a container are skipped one after the other, and its end. -/
theorem skipElements_items {items : List (List UInt8)} {framing : Framing}
    (hitems : ∀ item ∈ items, WellFormed profile item ∧ Skipped item) {fuel : ℕ}
    (hpayload : s.payload = items.flatten ++ (framing.close ++ rest))
    (hleft : Counted s.payload.length ⟨s.elemCount, s.indefinite⟩ (leftOf items.length framing))
    (hfits : s.payload.length ≤ largeElemCount) (hfuel : 2 * items.flatten.length < fuel) :
    ∃ s', skipElements fuel s = some s' ∧ s'.payload = rest ∧
      s'.address = s.address + UInt32.ofNat (items.flatten ++ framing.close).length := by
  induction items generalizing s fuel with
  | nil =>
    obtain ⟨fuel, rfl⟩ : ∃ steps, fuel = steps + 1 := ⟨fuel - 1, by simp at hfuel; omega⟩
    cases framing with
    | definite =>
      obtain ⟨hindefinite, hcount⟩ := hleft
      have hindefinite : s.indefinite = false := hindefinite
      have hcount : s.elemCount = 0 := hcount
      refine ⟨s, ?_, hpayload, by simp [Framing.close]⟩
      rw [skipElements, hindefinite, hcount]
      rfl
    | indefinite =>
      have hindefinite : s.indefinite = true := hleft.1
      have hhead : s.payload.head? = some breakByte := by
        rw [hpayload]
        rfl
      have hdrop : (s.advance 1).payload = rest := by
        rw [State.advance, hpayload]
        rfl
      refine ⟨s.advance 1, ?_, hdrop, rfl⟩
      rw [skipElements, hindefinite, if_pos rfl, if_pos hhead]
  | cons item items ih =>
    obtain ⟨⟨hwf, hskipped⟩, hitems⟩ := List.forall_mem_cons.mp hitems
    obtain ⟨byte, following, hbytes, hbyte⟩ := hwf.initial
    rw [List.flatten_cons, List.append_assoc] at hpayload
    rw [List.flatten_cons, List.length_append] at hfuel
    have hne : item ≠ [] := by simp [hbytes]
    have hpos : 0 < item.length := List.length_pos_iff.mpr hne
    obtain ⟨fuel, rfl⟩ : ∃ steps, fuel = steps + 1 := ⟨fuel - 1, by omega⟩
    have hlen : s.payload.length =
        item.length + (items.flatten ++ (framing.close ++ rest)).length := by
      rw [hpayload, List.length_append]
    have hdrop : s.payload.drop item.length = items.flatten ++ (framing.close ++ rest) := by
      rw [hpayload, List.drop_left]
    -- there is another element
    have hcount : s.elemCount ≠ 0 := by
      cases framing with
      | definite =>
        have hcount : s.elemCount = items.length + 1 := hleft.2
        omega
      | indefinite =>
        have hcount : s.payload.length ≤ s.elemCount := hleft.2
        omega
    have hstep : skipElements (fuel + 1) s = (anySkip fuel s).bind (skipElements fuel) := by
      cases framing with
      | definite =>
        have hindefinite : s.indefinite = false := hleft.1
        rw [skipElements, hindefinite, if_neg Bool.false_ne_true, if_neg hcount]
      | indefinite =>
        have hindefinite : s.indefinite = true := hleft.1
        have hhead : ¬ s.payload.head? = some breakByte := by
          rw [hpayload, hbytes]
          intro heq
          exact hbyte (Option.some_inj.mp heq)
        rw [skipElements, hindefinite, if_pos rfl, if_neg hhead]
    have hskip := hskipped.anySkip fuel hpayload hcount hfits hne (by omega)
    have hleft' : Counted (s.payload.drop item.length).length ⟨s.elemCount - 1, s.indefinite⟩
        (leftOf items.length framing) := by
      cases framing with
      | definite =>
        have hcount : s.elemCount = items.length + 1 := hleft.2
        exact ⟨hleft.1, by simp [hcount]⟩
      | indefinite =>
        have hcount : s.payload.length ≤ s.elemCount := hleft.2
        refine ⟨hleft.1, ?_⟩
        rw [List.length_drop]
        show s.payload.length - item.length ≤ s.elemCount - 1
        omega
    have hfits' : (s.payload.drop item.length).length ≤ largeElemCount := by
      rw [List.length_drop]
      omega
    have hrest := @ih { s.advance item.length with elemCount := s.elemCount - 1 } hitems fuel hdrop
      hleft' hfits' (by omega)
    obtain ⟨s', helements, hrest, haddress⟩ := hrest
    refine ⟨s', by rw [hstep, hskip]; exact helements, hrest, ?_⟩
    rw [List.flatten_cons, List.append_assoc]
    exact haddress.trans (address_append s.address item _)

/-- A container is skipped if its items are. -/
theorem skipped_container {type : MajorType} {factor count : ℕ} {framing : Framing}
    {items : List (List UInt8)} (htype : type = .list ∧ factor = 1 ∨ type = .map ∧ factor = 2)
    (hopens : framing.Opens profile type.number count head)
    (hcount : items.length = factor * count)
    (hitems : ∀ item ∈ items, WellFormed profile item ∧ Skipped item) :
    Skipped (head ++ (items.flatten ++ framing.close)) := by
  have hmajor : type.number < 8 := by rcases htype with ⟨rfl, -⟩ | ⟨rfl, -⟩ <;> decide
  obtain ⟨byte, following, rfl, hbyte⟩ := hopens.initial hmajor
  have htypeByte : majorType byte = type := majorType_eq_iff.mpr hbyte
  refine skipped_of_content rfl
    (by rw [htypeByte]; rcases htype with ⟨rfl, -⟩ | ⟨rfl, -⟩ <;> simp) ?_
  intro s rest hpayload helem hfits fuel hfuel
  rw [List.append_assoc, List.append_assoc] at hpayload
  have hdrop : (s.advance (byte :: following).length).payload =
      items.flatten ++ (framing.close ++ rest) := by
    rw [State.advance, hpayload]
    exact List.drop_left
  have hle : (s.advance (byte :: following).length).payload.length ≤ largeElemCount := by
    rw [State.advance, List.length_drop]
    exact (Nat.sub_le _ _).trans hfits
  have hfuel' : 2 * items.flatten.length < fuel := by
    simp only [List.length_append, List.length_cons] at hfuel
    omega
  -- the items are skipped from where the container has been entered
  have helements : ∀ {n : ℕ} {indefinite : Bool},
      Counted (s.advance (byte :: following).length).payload.length ⟨n, indefinite⟩
        (leftOf items.length framing) →
      ∃ s', skipElements fuel { s.advance (byte :: following).length with
          elemCount := n, indefinite := indefinite } = some s' ∧ s'.payload = rest ∧
        s'.address = s.address +
          UInt32.ofNat (byte :: following ++ (items.flatten ++ framing.close)).length := by
    intro n indefinite hleft
    obtain ⟨s', hskip, hrest, haddress⟩ := @skipElements_items
      { s.advance (byte :: following).length with elemCount := n, indefinite := indefinite } rest
      items framing hitems fuel hdrop hleft hle hfuel'
    refine ⟨s', hskip, hrest, ?_⟩
    exact haddress.trans (address_append s.address (byte :: following) _)
  cases framing with
  | definite =>
    have hhead : Head type.number count (byte :: following) := hopens.1
    obtain ⟨s', hskip, hrest⟩ := helements (n := items.length) ⟨rfl, rfl⟩
    refine ⟨s', ?_, hrest⟩
    rw [skipContent_head fuel hhead hpayload helem]
    rcases htype with ⟨rfl, rfl⟩ | ⟨rfl, rfl⟩
    · rw [hcount, Nat.one_mul] at hskip
      exact hskip
    · rw [hcount] at hskip
      exact hskip
  | indefinite =>
    obtain ⟨rfl, rfl⟩ := List.cons.inj hopens
    obtain ⟨s', hskip, hrest⟩ := helements (n := largeElemCount) ⟨rfl, hle⟩
    refine ⟨s', ?_, hrest⟩
    have hcons : s.payload = UInt8.ofNat (32 * type.number + 31) ::
        (items.flatten ++ (Framing.indefinite.close ++ rest)) := hpayload
    rw [skipContent, hcons]
    dsimp only
    rw [htypeByte, if_pos (by rcases htype with ⟨rfl, -⟩ | ⟨rfl, -⟩ <;> decide)]
    exact hskip

/-- **Skipping.** Every well-formed item is skipped. -/
theorem skipped_of_wellFormed (h : WellFormed profile item) : Skipped item := by
  induction h with
  | @integer major argument head hmajor hhead =>
    rcases hmajor with rfl | rfl
    · have hhead : Head MajorType.pint.number argument head := hhead
      exact skipped_head hhead (.inl rfl)
    · have hhead : Head MajorType.nint.number argument head := hhead
      exact skipped_head hhead (.inr (.inl rfl))
  | @string major content item hmajor hitem =>
    obtain ⟨head, hhead, rfl⟩ := hitem
    rcases hmajor with rfl | rfl
    · have hhead : Head MajorType.bstr.number content.length head := hhead.1
      exact skipped_string hhead (.inl rfl)
    · have hhead : Head MajorType.tstr.number content.length head := hhead.1
      exact skipped_string hhead (.inr rfl)
  | chunks hprofile => cases hprofile
  | @list framing head items hhead hitems ih =>
    have hhead : framing.Opens profile MajorType.list.number items.length head := hhead
    exact skipped_container (.inl ⟨rfl, rfl⟩) hhead (Nat.one_mul _).symm
      fun item hmem => ⟨hitems item hmem, ih item hmem⟩
  | @map framing count head items hhead hcount hitems ih =>
    have hhead : framing.Opens profile MajorType.map.number count head := hhead
    exact skipped_container (.inr ⟨rfl, rfl⟩) hhead hcount
      fun item hmem => ⟨hitems item hmem, ih item hmem⟩
  | tag hhead _ ih => exact skipped_tag hhead ih
  | @simple argument head hhead _ =>
    have hhead : Head MajorType.simple.number argument head := hhead
    exact skipped_head hhead (.inr (.inr rfl))

end Skipping

/-! ## All of it -/

/-- A payload of the client stands where it has been put. -/
theorem stands_newDecodeState {payload : List UInt8} {count backups : ℕ}
    (hfits : payload.length + 16 < sizeModulus) :
    Stands (newDecodeState payload count backups)
      { memory := memory (newDecodeState payload count backups)
        payload := payload
        left := some count
        outer := []
        room := backups } := by
  have hlt : payload.length < 2 ^ 32 := by
    rw [sizeModulus] at hfits
    omega
  refine ⟨rfl, rfl, ⟨rfl, rfl⟩, .nil, Nat.zero_add _, ?_, ?_⟩
  · refine List.ext_getElem (by simp [newDecodeState]) fun i hi _ => ?_
    have hi : i < payload.length := hi
    rw [List.getElem_map, List.getElem_range, memory]
    have hoffset : ((newDecodeState payload count backups).address + UInt32.ofNat i -
        (newDecodeState payload count backups).base).toNat = i := by
      show (bufferAddress + UInt32.ofNat i - bufferAddress).toNat = i
      rw [UInt32.add_comm, UInt32.add_sub_cancel, UInt32.toNat_ofNat']
      omega
    rw [hoffset]
    simp [newDecodeState, hi]
  · show payload.length ≤ largeElemCount
    rw [sizeModulus] at hfits
    rw [largeElemCount]
    omega

/-- **Conformance.** The decoder does what the client relies on. -/
theorem conforms : Conforms library decoding where
  newDecodeState hfits := ⟨_, stands_newDecodeState hfits⟩
  memory hat := hat.memory.symm
  payloadByte := by
    intro s p byte rest hat hpayload
    rw [hat.payload] at hpayload
    show s.payload.headD _ = byte
    rw [hpayload]
    rfl
  indefinite := by
    intro s p hat
    have hleft := hat.left
    show s.indefinite = p.left.isNone
    cases hp : p.left with
    | none =>
      rw [hp] at hleft
      exact hleft.1
    | some count =>
      rw [hp] at hleft
      exact hleft.1
  elemCount := by
    intro s p count hat hp
    have hleft := hat.left
    rw [hp] at hleft
    exact hleft.2
  mapStart := starts (.inr rfl) 2
  listStart := starts (.inl rfl) 1
  mapEnd := ends
  listEnd := ends
  forceEnd := by
    intro s p hat houter
    obtain ⟨s', hrestore, hat'⟩ := hat.leave houter
    rw [← hat.payload] at hat'
    refine ⟨s', ?_, hat'⟩
    show succeeds s (restore s) = _
    rw [hrestore]
    rfl
  tstr := tstr_decodes
  uint32 := uint32_decodes
  int64 := int64_decodes
  float := float_decodes
  bool := bool_decodes
  notNil := by
    intro s p byte rest hat hpayload hbyte
    rw [hat.payload] at hpayload
    refine ⟨s, ?_, hat⟩
    show nilExpect s = _
    rw [nilExpect, simpleValue, hpayload]
    dsimp only
    split
    · rfl
    · rw [Option.bind_some, if_neg hbyte]
      rfl
  skip := by
    intro s p item rest hat hnext hpayload hitem
    -- twice the payload is fuel enough to skip any item in it
    obtain ⟨byte, following, rfl, -⟩ := hitem.initial
    have hcount := hat.elemCount_pos hnext hpayload
    have hpayload' : s.payload = byte :: following ++ rest := hat.payload.symm.trans hpayload
    have hlen : (byte :: following).length ≤ s.payload.length := by
      rw [hpayload', List.length_append]
      omega
    refine ⟨_, ?_, hat.take hpayload (List.cons_ne_nil _ _)⟩
    show succeeds s (anySkip (2 * s.payload.length + 2) s) = _
    rw [(skipped_of_wellFormed hitem).anySkip _ hpayload' hcount hat.fits (List.cons_ne_nil _ _)
      (by omega)]
    rfl

end Golioth.Zcbor.Reference
