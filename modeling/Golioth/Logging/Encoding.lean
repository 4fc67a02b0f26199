/-
# Encoding a log message in place

What the parts of `log_msg_process` append to a packet. A text is moved towards
the encoder, past a label and a header or past two of each, in the space that was
reserved for them, and that space is enough for every length.
-/
import Golioth.Logging.Backend

namespace Golioth.Logging

open CS CS.Cbor Golioth.Coap Golioth.Zcbor

/-! ## Entries -/

/-- A value in a log message. -/
inductive Value
  | text (content : List UInt8)
  | bytes (content : List UInt8)
  | number (n : ℕ)

/-- An entry of the map of a log message. -/
structure LogEntry where
  key : List UInt8
  value : Value

/-- The item is the value. -/
def Value.Reads (profile : Profile) (item : List UInt8) : Value → Prop
  | .text content => TextItem profile content item
  | .bytes content => StringItem profile 2 content item
  | .number n => IntegerItem n item

/-- The item is one map of the entries, in their order. -/
def IsLogMap (profile : Profile) (entries : List LogEntry) (item : List UInt8) : Prop :=
  ∃ pairs, IsMap profile .indefinite pairs item ∧
    List.Forall₂ (fun entry pair => TextEntry profile entry.key (entry.value.Reads profile ·) pair)
      entries pairs

/-! ## Bytes -/

/-- The bytes of a value. -/
def valueBytes (layout : InPlaceLayout) : Value → List UInt8
  | .text content => layout.text content
  | .bytes content => layout.header 2 content.length ++ content
  | .number n => layout.natural n

/-- The bytes of an entry. -/
def entryBytes (layout : InPlaceLayout) (entry : LogEntry) : List UInt8 :=
  layout.text entry.key ++ valueBytes layout entry.value

/-- The bytes of some entries. -/
def entriesBytes (layout : InPlaceLayout) (entries : List LogEntry) : List UInt8 :=
  entries.flatMap (entryBytes layout)

/-- The lengths and numbers of an entry are ones that zcbor encodes. -/
def LogEntry.Short (entry : LogEntry) : Prop :=
  entry.key.length < 2 ^ 16 ∧
    match entry.value with
    | .text content => content.length < 2 ^ 16
    | .bytes content => content.length < 2 ^ 16
    | .number n => n < 2 ^ 64

section Bytes

variable {lib : ZcborInPlace} {layout : InPlaceLayout} {entries entries' : List LogEntry}

@[simp] theorem entriesBytes_nil : entriesBytes layout [] = [] := rfl

@[simp] theorem entriesBytes_cons (entry : LogEntry) :
    entriesBytes layout (entry :: entries) = entryBytes layout entry ++ entriesBytes layout entries :=
  rfl

@[simp] theorem entriesBytes_append :
    entriesBytes layout (entries ++ entries') =
      entriesBytes layout entries ++ entriesBytes layout entries' := List.flatMap_append

theorem entryBytes_text (key content : List UInt8) :
    entryBytes layout ⟨key, .text content⟩ = layout.text key ++ layout.text content := rfl

theorem entryBytes_bytes (key content : List UInt8) :
    entryBytes layout ⟨key, .bytes content⟩ =
      layout.text key ++ (layout.header 2 content.length ++ content) := rfl

theorem entryBytes_number (key : List UInt8) (n : ℕ) :
    entryBytes layout ⟨key, .number n⟩ = layout.text key ++ layout.natural n := rfl

theorem length_text (hlib : InPlaceContract lib layout) {text : List UInt8}
    (hlen : text.length < 2 ^ 16) :
    (layout.text text).length = headerLen text.length + text.length := by
  rw [InPlaceLayout.text, List.length_append, hlib.length_header _ _ hlen]

theorem textItem_text (hlib : InPlaceContract lib layout) {text : List UInt8}
    (hlen : text.length < 2 ^ 16) : TextItem layout.profile text (layout.text text) :=
  ⟨_, hlib.header 3 _ (.inr rfl) hlen, rfl⟩

/-- The bytes of a value are the value. -/
theorem reads_valueBytes (hlib : InPlaceContract lib layout) {entry : LogEntry}
    (hshort : entry.Short) :
    entry.value.Reads layout.profile (valueBytes layout entry.value) := by
  obtain ⟨key, value⟩ := entry
  cases value with
  | text content => exact textItem_text hlib hshort.2
  | bytes content => exact ⟨_, hlib.header 2 _ (.inl rfl) hshort.2, rfl⟩
  | number n => exact hlib.natural n hshort.2

/-- What fits a packet is short enough. -/
theorem short_of_length_lt (hlt : (entriesBytes layout entries).length < 2 ^ 16)
    (hnumber : ∀ entry ∈ entries, ∀ n, entry.value = .number n → n < 2 ^ 64) :
    ∀ entry ∈ entries, entry.Short := by
  intro entry hentry
  have hle : (entryBytes layout entry).length ≤ (entriesBytes layout entries).length :=
    (List.sublist_flatten_of_mem (List.mem_map_of_mem hentry)).length_le
  have hnumber := hnumber entry hentry
  obtain ⟨key, value⟩ := entry
  cases value with
  | text content =>
    simp only [entryBytes_text, InPlaceLayout.text, List.length_append] at hle
    exact ⟨show key.length < _ by omega, show content.length < _ by omega⟩
  | bytes content =>
    simp only [entryBytes_bytes, InPlaceLayout.text, List.length_append] at hle
    exact ⟨show key.length < _ by omega, show content.length < _ by omega⟩
  | number n =>
    simp only [entryBytes_number, InPlaceLayout.text, List.length_append] at hle
    exact ⟨show key.length < _ by omega, hnumber n rfl⟩

/-- The bytes of some entries, between those that a map begins and ends with, are one map. -/
theorem isLogMap_bytes (hlib : InPlaceContract lib layout) (hshort : ∀ entry ∈ entries, entry.Short) :
    IsLogMap layout.profile entries (mapHead ++ (entriesBytes layout entries ++ [breakCode])) := by
  refine ⟨entries.map fun entry =>
    { key := .tstr entry.key, label := layout.text entry.key,
      value := valueBytes layout entry.value },
    ⟨mapHead, opens_mapHead _ _, ?_⟩, ?_⟩
  · rw [pairBytes, List.flatMap_map]
    rfl
  · rw [List.forall₂_map_right_iff, List.forall₂_same]
    exact fun entry hentry =>
      ⟨rfl, textItem_text hlib (hshort entry hentry).1, reads_valueBytes hlib (hshort entry hentry)⟩

end Bytes

/-! ## Steps of the encoder -/

/-- Bytes have been appended at the payload pointer. What lies below is as it was, and so is what
the packet is made of; string encoders that were called have been given distances. -/
structure Appends (ctx : LogCtx) (bytes : List UInt8) (ctx' : LogCtx) : Prop where
  payload : ctx'.zse.payload = ctx.zse.payload + bytes.length
  payloadEnd : ctx'.zse.payloadEnd = ctx.zse.payloadEnd
  bytes : ctx'.zse.mem.read ctx.zse.payload bytes.length = bytes
  below : ∀ {start len}, start + len ≤ ctx.zse.payload →
    ctx'.zse.mem.read start len = ctx.zse.mem.read start len
  coapPacket : ctx'.coapPacket = ctx.coapPacket
  msgIndex : ctx'.msgIndex = ctx.msgIndex
  sent : ctx'.sent = ctx.sent
  calls : ∀ call ∈ ctx'.calls, call ∈ ctx.calls ∨ call.IsDistance

/-- What lies above is as it was, too. -/
structure Puts (ctx : LogCtx) (bytes : List UInt8) (ctx' : LogCtx) : Prop
    extends Appends ctx bytes ctx' where
  above : ∀ {start len}, ctx'.zse.payload ≤ start →
    ctx'.zse.mem.read start len = ctx.zse.mem.read start len
  pdu : ctx'.pdu = ctx.pdu

section Steps

variable {lib : ZcborInPlace} {layout : InPlaceLayout} {ctx ctx' ctx'' : LogCtx}
  {bytes bytes' : List UInt8}

theorem Appends.refl (ctx : LogCtx) : Appends ctx [] ctx where
  payload := rfl
  payloadEnd := rfl
  bytes := rfl
  below _ := rfl
  coapPacket := rfl
  msgIndex := rfl
  sent := rfl
  calls _ hcall := .inl hcall

theorem Appends.trans (h : Appends ctx bytes ctx') (h' : Appends ctx' bytes' ctx'') :
    Appends ctx (bytes ++ bytes') ctx'' where
  payload := by rw [h'.payload, h.payload, List.length_append, Nat.add_assoc]
  payloadEnd := h'.payloadEnd.trans h.payloadEnd
  bytes := by
    rw [List.length_append, Memory.read_add, h'.below h.payload.ge, h.bytes, ← h.payload, h'.bytes]
  below hle := by
    rw [h'.below (by have := h.payload; omega), h.below hle]
  coapPacket := h'.coapPacket.trans h.coapPacket
  msgIndex := h'.msgIndex.trans h.msgIndex
  sent := h'.sent.trans h.sent
  calls call hcall := by
    rcases h'.calls call hcall with hcall | hcall
    · exact h.calls call hcall
    · exact .inr hcall

theorem Puts.trans (h : Puts ctx bytes ctx') (h' : Puts ctx' bytes' ctx'') :
    Puts ctx (bytes ++ bytes') ctx'' where
  toAppends := h.toAppends.trans h'.toAppends
  above hle := by
    rw [h'.above hle, h.above (by have := h'.payload; omega)]
  pdu := h'.pdu.trans h.pdu

/-- The encoder puts bytes that fit. -/
theorem puts_encodes {encode : EncodeState → Bool × EncodeState} (h : Stores encode bytes)
    (hfits : ctx.zse.payload + bytes.length ≤ ctx.zse.payloadEnd) :
    ∃ ctx', encodes encode ctx = (true, ctx') ∧ Puts ctx bytes ctx' := by
  refine ⟨{ ctx with zse := ctx.zse.store bytes }, by rw [encodes, h.fits _ hfits], ?_⟩
  exact
    { payload := rfl
      payloadEnd := rfl
      bytes := Memory.read_write_self _ _ _
      below := Memory.read_write_before
      coapPacket := rfl
      msgIndex := rfl
      sent := rfl
      calls := fun _ hcall => .inl hcall
      above := Memory.read_write_after
      pdu := rfl }

/-- The bytes that are moved are those that lay there before the header was written. -/
theorem mem_encode {s : EncodeState} {header : List UInt8} {ptr len : ℕ}
    (hbehind : s.payload + header.length ≤ ptr) :
    (s.encode header ptr len).mem = s.mem.write s.payload (header ++ s.mem.read ptr len) := by
  have hread : (s.store header).mem.read ptr len = s.mem.read ptr len :=
    Memory.read_write_after hbehind
  rw [EncodeState.encode, EncodeState.move, hread]
  exact Memory.write_write _ _ _ _

/-- A string is put that lies in the buffer, behind where its header will be. -/
theorem puts_encodesBetween {encode : (ptr len : ℕ) → EncodeState → Bool × EncodeState}
    {header : ℕ → List UInt8} (h : ∀ ptr len, Moves (encode ptr len) (header len) ptr len)
    {first len : ℕ} (hlt : first + len < 2 ^ 16)
    (hbehind : ctx.zse.payload + (header len).length ≤ first)
    (hfits : ctx.zse.payload + ((header len).length + len) ≤ ctx.zse.payloadEnd) :
    ∃ ctx', encodesBetween encode first (first + len) ctx = (true, ctx') ∧
      Puts ctx (header len ++ ctx.zse.mem.read first len) ctx' := by
  have hsize : sizeOfInt (((first + len : ℕ) : ℤ) - first) = len := by
    rw [sizeOfInt_nonneg (by omega) (by rw [sizeModulus]; omega)]
    omega
  have hlength : (header len ++ ctx.zse.mem.read first len).length = (header len).length + len := by
    rw [List.length_append, Memory.length_read]
  have hmem := @mem_encode ctx.zse (header len) first len hbehind
  refine ⟨{ ctx with
    zse := ctx.zse.encode (header len) first len
    calls := ctx.calls ++ [⟨first, first + len, len⟩] }, ?_, ?_⟩
  · rw [encodesBetween, hsize, encodes, (h first len).fits _ hfits]
  · exact
      { payload := by
          rw [hlength, ← Nat.add_assoc]
          rfl
        payloadEnd := rfl
        bytes := by rw [hmem, Memory.read_write_self]
        below := fun hle => by rw [hmem, Memory.read_write_before hle]
        coapPacket := rfl
        msgIndex := rfl
        sent := rfl
        calls := by
          intro call hcall
          rcases List.mem_append.mp hcall with hcall | hcall
          · exact .inl hcall
          · rw [List.mem_singleton.mp hcall]
            exact .inr (by simp [StringCall.IsDistance])
        above := by
          intro start len' hle
          have hle : ctx.zse.payload + (header len).length + len ≤ start := hle
          rw [hmem, Memory.read_write_after (by omega)]
        pdu := rfl }

@[simp] theorem orFinish_zero (next : LogCtx → ℤ × LogCtx) : orFinish (0, ctx) next = next ctx := rfl

theorem orFinish_of_ne {err : ℤ} (hne : err ≠ 0) (next : LogCtx → ℤ × LogCtx) :
    orFinish (err, ctx) next = (err, ctx) := if_neg hne

@[simp] theorem andThen_true (next : LogCtx → Bool × LogCtx) : andThen (true, ctx) next = next ctx :=
  rfl

@[simp] theorem okOr_true (err : ℤ) : okOr err (true, ctx) = (0, ctx) := rfl

/-- Two calls of the encoder, one after the other. -/
theorem puts_andThen {result : Bool × LogCtx} {next : LogCtx → Bool × LogCtx} (err : ℤ)
    (hresult : ∃ ctx', result = (true, ctx') ∧ Puts ctx bytes ctx')
    (hnext : ∀ ctx', Puts ctx bytes ctx' →
      ∃ ctx'', next ctx' = (true, ctx'') ∧ Puts ctx' bytes' ctx'') :
    ∃ ctx', okOr err (andThen result next) = (0, ctx') ∧ Puts ctx (bytes ++ bytes') ctx' := by
  obtain ⟨ctx₁, rfl, hputs⟩ := hresult
  obtain ⟨ctx₂, heq, hputs'⟩ := hnext ctx₁ hputs
  exact ⟨ctx₂, by rw [andThen_true, heq, okOr_true], hputs.trans hputs'⟩

end Steps

/-! ## The header fields -/

/-- The entries for the module and the level. -/
def sourceEntries (msg : LogMsg) : List LogEntry :=
  msg.source.toList.map (fun name => { key := ascii "module", value := .text name }) ++
    [{ key := ascii "level", value := .text (levelStr msg.level) }]

/-- The entries before the text. -/
def headerEntries (config : LogConfig) (msg : LogMsg) (index : UInt32) : List LogEntry :=
  { key := ascii "uptime", value := .number (config.timestampToUs msg.timestamp).toNat } ::
    ((if msg.level ≠ logLevelInternalRawString then sourceEntries msg else []) ++
      [{ key := ascii "index", value := .number index.toNat }])

section Headers

variable {lib : ZcborInPlace} {layout : InPlaceLayout} {config : LogConfig} {msg : LogMsg}
  {ctx ctx' : LogCtx}

theorem puts_putText (hlib : InPlaceContract lib layout) (label text : List UInt8)
    (hfits : ctx.zse.payload + (entryBytes layout ⟨label, .text text⟩).length ≤
      ctx.zse.payloadEnd) :
    Puts ctx (entryBytes layout ⟨label, .text text⟩) (putText lib label text ctx) := by
  rw [entryBytes_text, List.length_append] at hfits
  obtain ⟨ctx₁, heq, hputs⟩ := @puts_encodes ctx _ _ (hlib.tstrLit label) (by omega)
  have hroom := hputs.payload
  have hend := hputs.payloadEnd
  obtain ⟨ctx₂, heq', hputs'⟩ := @puts_encodes ctx₁ _ _ (hlib.tstrTerm text) (by omega)
  rw [putText, heq, heq']
  exact hputs.trans hputs'

theorem puts_logCborAppendHeaders (hlib : InPlaceContract lib layout)
    (hfits : ctx.zse.payload + (entriesBytes layout (sourceEntries msg)).length ≤
      ctx.zse.payloadEnd) :
    Puts ctx (entriesBytes layout (sourceEntries msg)) (logCborAppendHeaders lib msg ctx) := by
  rw [sourceEntries] at hfits ⊢
  rw [logCborAppendHeaders]
  cases hsource : msg.source with
  | none =>
    simp only [hsource, Option.toList_none, List.map_nil, List.nil_append, entriesBytes_cons,
      entriesBytes_nil, List.append_nil] at hfits ⊢
    exact puts_putText hlib _ _ hfits
  | some name =>
    simp only [hsource, Option.toList_some, List.map_cons, List.map_nil, List.cons_append,
      List.nil_append, entriesBytes_cons, entriesBytes_nil, List.append_nil, List.length_append]
      at hfits ⊢
    have hmodule := @puts_putText lib layout ctx hlib (ascii "module") name (by omega)
    have hroom := hmodule.payload
    have hend := hmodule.payloadEnd
    exact hmodule.trans (puts_putText hlib _ _ (by omega))

/-- A label and a number are put one after the other. -/
theorem puts_number {encode : EncodeState → Bool × EncodeState} {n : ℕ}
    (hlib : InPlaceContract lib layout) (label : List UInt8) (h : Stores encode (layout.natural n))
    (hfits : ctx.zse.payload + (entryBytes layout ⟨label, .number n⟩).length ≤
      ctx.zse.payloadEnd) (err : ℤ) :
    ∃ ctx', okOr err (andThen (encodes (lib.tstrPutLit label) ctx) (encodes encode)) = (0, ctx') ∧
      Puts ctx (entryBytes layout ⟨label, .number n⟩) ctx' := by
  rw [entryBytes_number] at hfits ⊢
  rw [List.length_append] at hfits
  refine puts_andThen err (puts_encodes (hlib.tstrLit label) (by omega)) fun ctx' hputs => ?_
  have hroom := hputs.payload
  have hend := hputs.payloadEnd
  exact puts_encodes h (by omega)

theorem puts_putHeaders (hlib : InPlaceContract lib layout)
    (hfits : ctx.zse.payload +
      (mapHead ++ entriesBytes layout (headerEntries config msg ctx.msgIndex)).length ≤
        ctx.zse.payloadEnd) :
    ∃ ctx', putHeaders lib config msg ctx = (0, ctx') ∧
      Puts ctx (mapHead ++ entriesBytes layout (headerEntries config msg ctx.msgIndex)) ctx' := by
  rw [headerEntries] at hfits ⊢
  simp only [entriesBytes_cons, entriesBytes_append, entriesBytes_nil, List.append_nil,
    List.length_append] at hfits ⊢
  -- the map begins
  obtain ⟨ctx₁, heq₁, hputs₁⟩ := @puts_encodes ctx _ _ (hlib.mapStart 1) (by omega)
  have hroom₁ := hputs₁.payload
  have hend₁ := hputs₁.payloadEnd
  -- the time
  obtain ⟨ctx₂, heq₂, hputs₂⟩ := @puts_number lib layout ctx₁ _ _ hlib (ascii "uptime")
    (hlib.uint64 (config.timestampToUs msg.timestamp)) (by omega) (-Errno.enomem)
  have hroom₂ := hputs₂.payload
  have hend₂ := hputs₂.payloadEnd
  -- the module and the level
  have hputs₃ : Puts ctx₂
      (entriesBytes layout
        (if msg.level ≠ logLevelInternalRawString then sourceEntries msg else []))
      (if msg.level ≠ logLevelInternalRawString then logCborAppendHeaders lib msg ctx₂ else ctx₂) := by
    split
    · next hlevel =>
      rw [if_pos hlevel] at hfits
      exact puts_logCborAppendHeaders hlib (by omega)
    · exact ⟨Appends.refl ctx₂, fun _ => rfl, rfl⟩
  generalize hctx₃ : (if msg.level ≠ logLevelInternalRawString then logCborAppendHeaders lib msg ctx₂
    else ctx₂) = ctx₃ at hputs₃
  have hroom₃ := hputs₃.payload
  have hend₃ := hputs₃.payloadEnd
  have hindex : ctx₃.msgIndex = ctx.msgIndex :=
    hputs₃.msgIndex.trans (hputs₂.msgIndex.trans hputs₁.msgIndex)
  -- the index
  obtain ⟨ctx₄, heq₄, hputs₄⟩ := @puts_number lib layout ctx₃ _ _ hlib (ascii "index")
    (hlib.uint32 ctx₃.msgIndex) (by rw [hindex]; omega) (-Errno.enomem)
  refine ⟨ctx₄, ?_, ?_⟩
  · rw [putHeaders, logCborCreateMap, heq₁, okOr_true, orFinish_zero, putUptime, heq₂, orFinish_zero]
    dsimp only
    rw [hctx₃, putIndex, heq₄]
  · rw [hindex] at hputs₄
    exact hputs₁.trans (hputs₂.trans (hputs₃.trans hputs₄))

end Headers

/-! ## The text -/

section Printing

variable {ctx : LogCtx} {mem : Memory} {bytes bytes' : List UInt8}

theorem LogCtx.append_nil (ctx : LogCtx) : ctx.append [] = ctx := by
  rw [append, Memory.write_nil]
  rfl

theorem LogCtx.append_append (ctx : LogCtx) (bytes bytes' : List UInt8) :
    (ctx.append bytes).append bytes' = ctx.append (bytes ++ bytes') := by
  rw [append, append, append, List.length_append, ← Nat.add_assoc]
  dsimp only
  rw [Memory.write_write]

/-- What is printed is what there is room for of the text. -/
theorem cbpprintf_eq (text : List UInt8) :
    cbpprintf text ctx = ctx.append (text.take (ctx.pdu.endPtr - ctx.pdu.ptr)) := by
  induction text generalizing ctx with
  | nil => rw [List.take_nil, LogCtx.append_nil]; rfl
  | cons c text ih =>
    rw [cbpprintf, List.foldl_cons]
    by_cases hfull : ctx.pdu.endPtr ≤ ctx.pdu.ptr
    · have hnone : ctx.pdu.endPtr - ctx.pdu.ptr = 0 := Nat.sub_eq_zero_of_le hfull
      rw [cbprintfOutFunc, if_pos hfull, ← cbpprintf, ih, hnone, List.take_zero, List.take_zero]
    · obtain ⟨left, hleft⟩ : ∃ left, ctx.pdu.endPtr - ctx.pdu.ptr = left + 1 :=
        ⟨ctx.pdu.endPtr - ctx.pdu.ptr - 1, by omega⟩
      have hrest : (ctx.append [c]).pdu.endPtr - (ctx.append [c]).pdu.ptr = left := by
        show ctx.pdu.endPtr - (ctx.pdu.ptr + 1) = left
        omega
      rw [cbprintfOutFunc, if_neg hfull, ← cbpprintf, ih, hrest, LogCtx.append_append, hleft]
      rfl

theorem findColon_eq_none {p left : ℕ} (h : colon ∉ mem.read p left) :
    findColon mem p left = none := by
  induction left generalizing p with
  | zero => rfl
  | succ left ih =>
    rw [Memory.read_succ, List.mem_cons, not_or] at h
    rw [findColon, if_neg (Ne.symm h.1), ih h.2]

theorem le_of_findColon_eq_some {p left found : ℕ} (h : findColon mem p left = some found) :
    p ≤ found := by
  induction left generalizing p with
  | zero => cases h
  | succ left ih =>
    rw [findColon] at h
    split at h
    · exact (Option.some.inj h).le
    · exact (Nat.le_succ p).trans (ih h)

/-- The first colon is found. -/
theorem findColon_eq_some {p left : ℕ} {func rest : List UInt8}
    (hread : mem.read p left = func ++ colon :: rest) (hfunc : colon ∉ func) :
    findColon mem p left = some (p + func.length) := by
  induction left generalizing p func with
  | zero => simp at hread
  | succ left ih =>
    rw [Memory.read_succ] at hread
    cases func with
    | nil =>
      rw [findColon, if_pos (List.cons.inj hread).1]
      rfl
    | cons byte func =>
      obtain ⟨rfl, htail⟩ := List.cons.inj hread
      rw [List.mem_cons, not_or] at hfunc
      rw [findColon, if_neg (Ne.symm hfunc.1), ih htail hfunc.2, List.length_cons, Nat.add_assoc,
        Nat.add_comm 1]

end Printing

/-- Bytes lie between the pointers of the PDU, at a distance from the payload pointer. -/
structure Holds (reserve : ℕ) (bytes : List UInt8) (ctx : LogCtx) : Prop where
  begin : ctx.pdu.begin = ctx.zse.payload + reserve
  ptr : ctx.pdu.ptr = ctx.pdu.begin + bytes.length
  fits : ctx.pdu.ptr ≤ ctx.zse.payloadEnd
  bytes : ctx.zse.mem.read ctx.pdu.begin bytes.length = bytes

section Finding

variable {ctx : LogCtx} {reserve : ℕ}

theorem Holds.findColon_eq_none {bytes : List UInt8} (h : Holds reserve bytes ctx)
    (hnone : colon ∉ bytes) :
    findColon ctx.zse.mem ctx.pdu.begin (ctx.pdu.ptr - ctx.pdu.begin) = none := by
  apply Logging.findColon_eq_none
  rwa [h.ptr, Nat.add_sub_cancel_left, h.bytes]

theorem Holds.findColon_eq_some {func rest : List UInt8}
    (h : Holds reserve (func ++ colon :: rest) ctx) (hfunc : colon ∉ func) :
    findColon ctx.zse.mem ctx.pdu.begin (ctx.pdu.ptr - ctx.pdu.begin) =
      some (ctx.pdu.begin + func.length) := by
  have hread : ctx.zse.mem.read ctx.pdu.begin (ctx.pdu.ptr - ctx.pdu.begin) =
      func ++ colon :: rest := by rw [h.ptr, Nat.add_sub_cancel_left, h.bytes]
  exact Logging.findColon_eq_some hread hfunc

end Finding

/-- The PDU begins at a distance from the payload pointer. -/
def LogCtx.prepared (ctx : LogCtx) (reserve : ℕ) : LogCtx :=
  { ctx with
    pdu :=
      { begin := ctx.zse.payload + reserve
        ptr := ctx.zse.payload + reserve
        endPtr := ctx.zse.payloadEnd } }

section Moving

variable {lib : ZcborInPlace} {layout : InPlaceLayout} {ctx : LogCtx} {reserve : ℕ}
  {bytes : List UInt8}

theorem logPduPrepareExt_eq (elements additionalReserved : ℕ)
    (hfits : ctx.zse.payload + (8 * elements + additionalReserved) ≤ ctx.zse.payloadEnd) :
    logPduPrepareExt elements additionalReserved ctx =
      (0, ctx.prepared (8 * elements + additionalReserved)) := by
  rw [logPduPrepareExt, LogCtx.prepared, cborSpaceReserved, ← Nat.add_assoc]
  exact if_neg (by dsimp only; omega)

/-- Bytes are written at a distance from the payload pointer. -/
theorem holds_append (hfits : ctx.zse.payload + (reserve + bytes.length) ≤ ctx.zse.payloadEnd) :
    Holds reserve bytes ((ctx.prepared reserve).append bytes) ∧
      Appends ctx [] ((ctx.prepared reserve).append bytes) := by
  refine ⟨⟨rfl, rfl, ?_, Memory.read_write_self _ _ _⟩, ?_⟩
  · show ctx.zse.payload + reserve + bytes.length ≤ ctx.zse.payloadEnd
    omega
  · exact
      { payload := rfl
        payloadEnd := rfl
        bytes := rfl
        below := fun hle => Memory.read_write_before (hle.trans (Nat.le_add_right _ _))
        coapPacket := rfl
        msgIndex := rfl
        sent := rfl
        calls := fun _ hcall => .inl hcall }

/-- A piece of the buffer is moved towards the encoder; three bytes are enough for its header. -/
theorem puts_piece {encode : (ptr len : ℕ) → EncodeState → Bool × EncodeState} {major : ℕ}
    (hlib : InPlaceContract lib layout)
    (h : ∀ ptr len, Moves (encode ptr len) (layout.header major len) ptr len) {first : ℕ}
    (hread : ctx.zse.mem.read first bytes.length = bytes) (hbehind : ctx.zse.payload + 3 ≤ first)
    (hfits : first + bytes.length ≤ ctx.zse.payloadEnd) (hlt : ctx.zse.payloadEnd < 2 ^ 16) :
    ∃ ctx', encodesBetween encode first (first + bytes.length) ctx = (true, ctx') ∧
      Puts ctx (layout.header major bytes.length ++ bytes) ctx' := by
  have hheader := hlib.length_header major bytes.length (by omega)
  have hthree := headerLen_le bytes.length
  have hputs : ∃ ctx', encodesBetween encode first (first + bytes.length) ctx = (true, ctx') ∧
      Puts ctx (layout.header major bytes.length ++ ctx.zse.mem.read first bytes.length) ctx' :=
    puts_encodesBetween h (by omega) (by omega) (by omega)
  rwa [hread] at hputs

/-- The text as a whole. -/
theorem puts_encodeWhole (hlib : InPlaceContract lib layout) (h : Holds reserve bytes ctx)
    (hreserve : 7 ≤ reserve) (hlt : ctx.zse.payloadEnd < 2 ^ 16) :
    ∃ ctx', encodeWhole lib ctx = (0, ctx') ∧
      Puts ctx (entryBytes layout ⟨ascii "msg", .text bytes⟩) ctx' := by
  have hlabel : (layout.text (ascii "msg")).length = 4 := length_text hlib (by decide)
  have hbegin := h.begin
  have hptr := h.ptr
  have hfits := h.fits
  obtain ⟨ctx₁, heq, hputs⟩ := @puts_encodes ctx _ _ (hlib.tstrLit (ascii "msg")) (by omega)
  have hroom := hputs.payload
  have hend := hputs.payloadEnd
  obtain ⟨ctx₂, heq', hputs'⟩ := @puts_piece lib layout ctx₁ bytes _ 3 hlib hlib.tstrPtr ctx.pdu.begin
    (by rw [hputs.above (by omega), h.bytes]) (by omega) (by omega) (by omega)
  refine ⟨ctx₂, ?_, hputs.trans hputs'⟩
  rw [encodeWhole, logPduTextFinish, heq, hputs.pdu, hptr, heq', okOr_true]

/-- A label is put, and a piece of the buffer is moved behind it. -/
theorem puts_labelled (hlib : InPlaceContract lib layout) (err : ℤ) {label : List UInt8} {first : ℕ}
    (hread : ctx.zse.mem.read first bytes.length = bytes)
    (hbehind : ctx.zse.payload + (layout.text label).length + 3 ≤ first)
    (hfits : first + bytes.length ≤ ctx.zse.payloadEnd) (hlt : ctx.zse.payloadEnd < 2 ^ 16) :
    ∃ ctx', okOr err (andThen (encodes (lib.tstrPutLit label) ctx)
        (encodesBetween lib.tstrEncodePtr first (first + bytes.length))) = (0, ctx') ∧
      Puts ctx (entryBytes layout ⟨label, .text bytes⟩) ctx' := by
  rw [entryBytes_text]
  refine puts_andThen err (puts_encodes (hlib.tstrLit label) (by omega)) fun ctx₁ hputs => ?_
  have hroom := hputs.payload
  have hend := hputs.payloadEnd
  exact puts_piece hlib hlib.tstrPtr (by rw [hputs.above (by omega), hread]) (by omega) (by omega)
    (by omega)

/-- What lies before the colon. -/
theorem puts_func {func rest : List UInt8} (hlib : InPlaceContract lib layout)
    (h : Holds reserve (func ++ colon :: rest) ctx) (hreserve : 15 ≤ reserve)
    (hlt : ctx.zse.payloadEnd < 2 ^ 16) :
    ∃ ctx', okOr (-Errno.enomem) (andThen (encodes (lib.tstrPutLit (ascii "func")) ctx)
        (encodesBetween lib.tstrEncodePtr ctx.pdu.begin (ctx.pdu.begin + func.length))) = (0, ctx') ∧
      Puts ctx (entryBytes layout ⟨ascii "func", .text func⟩) ctx' ∧
      ctx'.zse.payload + 7 ≤ ctx.pdu.begin + func.length := by
  have hlabel : (layout.text (ascii "func")).length = 5 := length_text hlib (by decide)
  have hbegin := h.begin
  have hptr := h.ptr
  have hfits := h.fits
  rw [List.length_append, List.length_cons] at hptr
  obtain ⟨ctx₁, heq, hputs⟩ := puts_labelled hlib (-Errno.enomem) (Memory.read_append h.bytes).1
    (show ctx.zse.payload + (layout.text (ascii "func")).length + 3 ≤ ctx.pdu.begin by omega)
    (by omega) hlt
  have htext : (layout.text func).length = headerLen func.length + func.length :=
    length_text hlib (by omega)
  have hthree := headerLen_le func.length
  have hroom := hputs.payload
  rw [entryBytes_text, List.length_append, hlabel, htext] at hroom
  exact ⟨ctx₁, heq, hputs, by omega⟩

/-- The text in two parts. -/
theorem puts_encodeSplit {func rest : List UInt8} {separator : UInt8}
    (hlib : InPlaceContract lib layout)
    (h : Holds reserve (func ++ colon :: separator :: rest) ctx) (hreserve : 15 ≤ reserve)
    (hlt : ctx.zse.payloadEnd < 2 ^ 16) :
    ∃ ctx', encodeSplit lib (ctx.pdu.begin + func.length) ctx = (0, ctx') ∧
      Puts ctx (entryBytes layout ⟨ascii "func", .text func⟩ ++
        entryBytes layout ⟨ascii "msg", .text rest⟩) ctx' := by
  have hlabel : (layout.text (ascii "msg")).length = 4 := length_text hlib (by decide)
  have hptr := h.ptr
  have hfits := h.fits
  rw [List.length_append, List.length_cons, List.length_cons] at hptr
  obtain ⟨ctx₁, heq₁, hputs₁, hroom⟩ := puts_func hlib h hreserve hlt
  have hend := hputs₁.payloadEnd
  -- what lies behind the colon and the byte after it
  have hrest : ctx₁.zse.mem.read (ctx.pdu.begin + func.length + 2) rest.length = rest := by
    rw [hputs₁.above (by omega)]
    exact (@Memory.read_append _ _ [colon, separator] rest (Memory.read_append h.bytes).2).2
  have hlast : ctx₁.pdu.ptr = ctx.pdu.begin + func.length + 2 + rest.length := by
    rw [hputs₁.pdu, hptr]
    omega
  obtain ⟨ctx₂, heq₂, hputs₂⟩ := @puts_labelled lib layout ctx₁ rest hlib (-Errno.enomem)
    (ascii "msg") _ hrest (by omega) (by omega) (by omega)
  refine ⟨ctx₂, ?_, hputs₁.trans hputs₂⟩
  rw [encodeSplit, heq₁, orFinish_zero, hlast, heq₂]

/-- Where the text ends with the colon, the length of what is behind it is not a distance. -/
theorem exists_call_encodeSplit {func : List UInt8} (hlib : InPlaceContract lib layout)
    (h : Holds reserve (func ++ [colon]) ctx) (hreserve : 15 ≤ reserve)
    (hlt : ctx.zse.payloadEnd < 2 ^ 16) :
    ∃ call ∈ (encodeSplit lib (ctx.pdu.begin + func.length) ctx).2.calls, ¬ call.IsDistance := by
  have hlabel : (layout.text (ascii "msg")).length = 4 := length_text hlib (by decide)
  have hptr := h.ptr
  have hfits := h.fits
  rw [List.length_append, List.length_singleton] at hptr
  obtain ⟨ctx₁, heq₁, hputs₁, hroom⟩ := puts_func hlib h hreserve hlt
  have hend := hputs₁.payloadEnd
  obtain ⟨ctx₂, heq₂, hputs₂⟩ := @puts_encodes ctx₁ _ _ (hlib.tstrLit (ascii "msg")) (by omega)
  refine ⟨⟨ctx.pdu.begin + func.length + 2, ctx₁.pdu.ptr,
    sizeOfInt ((ctx₁.pdu.ptr : ℤ) - (ctx.pdu.begin + func.length + 2 : ℕ))⟩, ?_, ?_⟩
  · rw [encodeSplit, heq₁, orFinish_zero, heq₂, andThen_true]
    exact List.mem_append_right _ (List.mem_singleton_self _)
  · -- the pointer is one byte before what it is subtracted from
    rw [StringCall.IsDistance, hputs₁.pdu, hptr]
    dsimp only
    omega

end Moving

/-! ## Text and data -/

section Parts

variable (config : LogConfig) (msg : LogMsg) (room : ℕ)

/-- What is reserved for the labels and headers of the text. -/
def textReserve : ℕ := if config.hasFunc msg then 22 else 8

/-- The room without which a message is not sent: what is reserved for the text or, where there is no
text, the end of the map. -/
def leastRoom : ℕ := if msg.package = [] then 1 else textReserve config msg

/-- As much of the text as there is room for. -/
def keptText : List UInt8 := (config.format msg.package).take (room - textReserve config msg)

/-- There is a text, its level has a function prefix, and what is kept of the text ends with its
first colon. -/
def EndsAtColon : Prop :=
  msg.package ≠ [] ∧ config.hasFunc msg ∧
    ∃ func, colon ∉ func ∧ keptText config msg room = func ++ [colon]

/-- The entries of a text that is split at its first colon, if it has one. -/
def splitEntries (text : List UInt8) : List LogEntry :=
  if colon ∈ text then
    [{ key := ascii "func", value := .text (text.takeWhile (· ≠ colon)) },
      { key := ascii "msg", value := .text ((text.dropWhile (· ≠ colon)).drop 2) }]
  else [{ key := ascii "msg", value := .text text }]

/-- The entries of the text. -/
def packageEntries : List LogEntry :=
  if msg.package = [] then []
  else if config.hasFunc msg then splitEntries (keptText config msg room)
  else [{ key := ascii "msg", value := .text (keptText config msg room) }]

/-- The entries of the data. -/
def dataEntries (left : ℕ) : List LogEntry :=
  if msg.data = [] then []
  else [{ key := ascii "hexdump", value := .bytes (msg.data.take (left - 16)) }]

end Parts

section Splitting

variable {config : LogConfig} {msg : LogMsg} {room : ℕ}

/-- The numbers before the text have 64 bits. -/
theorem number_lt_of_mem_headerEntries {index : UInt32} {entry : LogEntry} {n : ℕ}
    (h : entry ∈ headerEntries config msg index) (hvalue : entry.value = .number n) : n < 2 ^ 64 := by
  have hsource : ∀ entry ∈ sourceEntries msg, ∀ n, entry.value ≠ .number n := by
    intro entry hentry n
    rcases List.mem_append.mp hentry with hentry | hentry
    · obtain ⟨name, -, rfl⟩ := List.mem_map.mp hentry
      simp
    · rw [List.mem_singleton.mp hentry]
      simp
  rw [headerEntries, List.mem_cons, List.mem_append, List.mem_singleton] at h
  rcases h with rfl | h | rfl
  · cases hvalue
    exact UInt64.toNat_lt _
  · split at h
    · exact absurd hvalue (hsource entry h n)
    · exact absurd h List.not_mem_nil
  · cases hvalue
    exact (UInt32.toNat_lt _).trans (by decide)

/-- There is no number in the text. -/
theorem value_ne_of_mem_packageEntries {entry : LogEntry} (h : entry ∈ packageEntries config msg room)
    (n : ℕ) : entry.value ≠ .number n := by
  rw [packageEntries] at h
  split at h
  · exact absurd h List.not_mem_nil
  · split at h
    · rw [splitEntries] at h
      split at h
      · rcases List.mem_pair.mp h with rfl | rfl <;> simp
      · rw [List.mem_singleton.mp h]
        simp
    · rw [List.mem_singleton.mp h]
      simp

/-- There is no number in the data. -/
theorem value_ne_of_mem_dataEntries {entry : LogEntry} (h : entry ∈ dataEntries msg room) (n : ℕ) :
    entry.value ≠ .number n := by
  rw [dataEntries] at h
  split at h
  · exact absurd h List.not_mem_nil
  · rw [List.mem_singleton.mp h]
    simp

theorem splitEntries_of_not_mem {text : List UInt8} (h : colon ∉ text) :
    splitEntries text = [{ key := ascii "msg", value := .text text }] := if_neg h

theorem splitEntries_append {func rest : List UInt8} (hfunc : colon ∉ func) (separator : UInt8) :
    splitEntries (func ++ colon :: separator :: rest) =
      [{ key := ascii "func", value := .text func }, { key := ascii "msg", value := .text rest }] := by
  have hall : ∀ byte ∈ func, (decide (byte ≠ colon)) = true := fun byte hbyte =>
    decide_eq_true (ne_of_mem_of_not_mem hbyte hfunc)
  have htake : (func ++ colon :: separator :: rest).takeWhile (· ≠ colon) = func := by
    rw [List.takeWhile_append_of_pos hall, List.takeWhile_cons_of_neg (by simp), List.append_nil]
  have hdrop : (func ++ colon :: separator :: rest).dropWhile (· ≠ colon) =
      colon :: separator :: rest := by
    rw [List.dropWhile_append_of_pos hall, List.dropWhile_cons_of_neg (by simp)]
  rw [splitEntries, if_pos (by simp), htake, hdrop]
  rfl

/-- What is kept of a text with a function prefix has no colon, or ends with its first one, or has
a byte behind it. -/
theorem keptText_cases (config : LogConfig) (msg : LogMsg) (room : ℕ) :
    colon ∉ keptText config msg room ∨
      (∃ func, colon ∉ func ∧ keptText config msg room = func ++ [colon]) ∨
      ∃ func separator rest, colon ∉ func ∧
        keptText config msg room = func ++ colon :: separator :: rest := by
  by_cases hcolon : colon ∈ keptText config msg room
  · obtain ⟨func, rest, heq, hfunc⟩ := List.eq_append_cons_of_mem hcolon
    cases rest with
    | nil => exact .inr (.inl ⟨func, hfunc, heq⟩)
    | cons separator rest => exact .inr (.inr ⟨func, separator, rest, hfunc, heq⟩)
  · exact .inl hcolon

theorem not_endsAtColon_of_append {func rest : List UInt8} {separator : UInt8}
    (hkept : keptText config msg room = func ++ colon :: separator :: rest) :
    ¬ EndsAtColon config msg room := by
  rintro ⟨-, -, func', hfunc', heq⟩
  rw [hkept] at heq
  have hparts := (List.append_cons_inj_of_notMem hfunc' List.not_mem_nil).mp heq.symm
  exact List.cons_ne_nil _ _ hparts.2.2.symm

theorem keptText_prefix (config : LogConfig) (msg : LogMsg) (room : ℕ) :
    keptText config msg room <+: config.format msg.package := List.take_prefix _ _

theorem length_keptText_le (config : LogConfig) (msg : LogMsg) (room : ℕ) :
    (keptText config msg room).length ≤ room - textReserve config msg := by
  rw [keptText, List.length_take]
  exact min_le_left _ _

end Splitting

section Parts

variable {lib : ZcborInPlace} {layout : InPlaceLayout} {config : LogConfig} {msg : LogMsg}
  {ctx : LogCtx} {room : ℕ}

/-- The text leaves room in its reserve. -/
theorem length_packageEntries_lt (hlib : InPlaceContract lib layout) (hlt : room < 2 ^ 16)
    (hroom : leastRoom config msg ≤ room) (hcut : ¬ EndsAtColon config msg room) :
    (entriesBytes layout (packageEntries config msg room)).length < room := by
  rw [leastRoom] at hroom
  have hkept := length_keptText_le config msg room
  have hfunc : (layout.text (ascii "func")).length = 5 := length_text hlib (by decide)
  have hmsg : (layout.text (ascii "msg")).length = 4 := length_text hlib (by decide)
  have height : 8 ≤ textReserve config msg := by
    unfold textReserve
    split_ifs <;> decide
  have hwhole (hroom : textReserve config msg ≤ room) : (entriesBytes layout
      [⟨ascii "msg", .text (keptText config msg room)⟩]).length < room := by
    have hthree := headerLen_le (keptText config msg room).length
    have htext := @length_text lib layout hlib (keptText config msg room) (by omega)
    rw [entriesBytes_cons, entriesBytes_nil, List.append_nil, entryBytes_text, List.length_append,
      htext, hmsg]
    omega
  rw [packageEntries]
  split
  · next hpackage =>
    rw [if_pos hpackage] at hroom
    exact hroom
  · next hpackage =>
    rw [if_neg hpackage] at hroom
    split
    · next hprefix =>
      rcases keptText_cases config msg room with hnone | hends | ⟨func, separator, rest, hnone, heq⟩
      · rw [splitEntries_of_not_mem hnone]
        exact hwhole hroom
      · exact absurd ⟨hpackage, hprefix, hends⟩ hcut
      · have hreserve : textReserve config msg = 22 := if_pos hprefix
        have hthree := headerLen_le func.length
        have hthree' := headerLen_le rest.length
        rw [heq, List.length_append, List.length_cons, List.length_cons] at hkept
        have htext := @length_text lib layout hlib func (by omega)
        have htext' := @length_text lib layout hlib rest (by omega)
        rw [heq, splitEntries_append hnone, entriesBytes_cons, entriesBytes_cons, entriesBytes_nil,
          List.append_nil, entryBytes_text, entryBytes_text, List.length_append, List.length_append,
          List.length_append, htext, htext', hfunc, hmsg]
        omega
    · exact hwhole hroom

/-- As much of the text as there is room for is printed behind its reserve. -/
theorem holds_keptText (hroom : room = ctx.zse.payloadEnd - ctx.zse.payload)
    (hfits : ctx.zse.payload + leastRoom config msg ≤ ctx.zse.payloadEnd)
    (hpackage : msg.package ≠ []) :
    ∃ ctx', encodePackage lib config msg ctx = encodePrinted lib (config.hasFunc msg) ctx' ∧
      Holds (textReserve config msg) (keptText config msg room) ctx' ∧ Appends ctx [] ctx' := by
  rw [leastRoom, if_neg hpackage] at hfits
  have hprepared : (if config.hasFunc msg then logPduPrepareExt 2 6 ctx else logPduPrepare ctx) =
      (0, ctx.prepared (textReserve config msg)) := by
    rw [textReserve] at hfits ⊢
    split
    · next hprefix => exact logPduPrepareExt_eq 2 6 (by rw [if_pos hprefix] at hfits; omega)
    · next hprefix => exact logPduPrepareExt_eq 1 0 (by rw [if_neg hprefix] at hfits; omega)
  have hprinted : cbpprintf (config.format msg.package) (ctx.prepared (textReserve config msg)) =
      (ctx.prepared (textReserve config msg)).append (keptText config msg room) := by
    have hleft : ctx.zse.payloadEnd - (ctx.zse.payload + textReserve config msg) =
        room - textReserve config msg := by omega
    rw [cbpprintf_eq, keptText, ← hleft]
    rfl
  have hkept := length_keptText_le config msg room
  refine ⟨_, ?_,
    @holds_append ctx (textReserve config msg) (keptText config msg room) (by omega)⟩
  rw [encodePackage, if_neg hpackage, hprepared, orFinish_zero, hprinted]

/-- **The text.** It is encoded in place, in one part or in two. -/
theorem appends_encodePackage (hlib : InPlaceContract lib layout)
    (hroom : room = ctx.zse.payloadEnd - ctx.zse.payload) (hlt : ctx.zse.payloadEnd < 2 ^ 16)
    (hfits : ctx.zse.payload + leastRoom config msg ≤ ctx.zse.payloadEnd)
    (hcut : ¬ EndsAtColon config msg room) :
    ∃ ctx', encodePackage lib config msg ctx = (0, ctx') ∧
      Appends ctx (entriesBytes layout (packageEntries config msg room)) ctx' := by
  by_cases hpackage : msg.package = []
  · rw [encodePackage, packageEntries, if_pos hpackage, if_pos hpackage]
    exact ⟨ctx, rfl, Appends.refl ctx⟩
  obtain ⟨ctx₁, hprinted, hholds, happends⟩ :=
    @holds_keptText lib config msg ctx room hroom hfits hpackage
  have hend := happends.payloadEnd
  rw [hprinted, encodePrinted, packageEntries, if_neg hpackage]
  by_cases hprefix : config.hasFunc msg
  · have hreserve : textReserve config msg = 22 := if_pos hprefix
    rw [if_pos hprefix, if_pos hprefix]
    rcases keptText_cases config msg room with hnone | hends | ⟨func, separator, rest, hnone, heq⟩
    · obtain ⟨ctx₂, hrun, hputs⟩ := puts_encodeWhole hlib hholds (by omega) (by omega)
      refine ⟨ctx₂, ?_, ?_⟩
      · rw [hholds.findColon_eq_none hnone]
        exact hrun
      · rw [splitEntries_of_not_mem hnone, entriesBytes_cons, entriesBytes_nil, List.append_nil]
        exact happends.trans hputs.toAppends
    · exact absurd ⟨hpackage, hprefix, hends⟩ hcut
    · rw [heq] at hholds
      obtain ⟨ctx₂, hrun, hputs⟩ := puts_encodeSplit hlib hholds (by omega) (by omega)
      refine ⟨ctx₂, ?_, ?_⟩
      · rw [hholds.findColon_eq_some hnone]
        exact hrun
      · rw [heq, splitEntries_append hnone, entriesBytes_cons, entriesBytes_cons, entriesBytes_nil,
          List.append_nil]
        exact happends.trans hputs.toAppends
  · have hreserve : textReserve config msg = 8 := if_neg hprefix
    rw [if_neg hprefix, if_neg hprefix]
    obtain ⟨ctx₂, hrun, hputs⟩ := puts_encodeWhole hlib hholds (by omega) (by omega)
    refine ⟨ctx₂, hrun, ?_⟩
    rw [entriesBytes_cons, entriesBytes_nil, List.append_nil]
    exact happends.trans hputs.toAppends

/-- **The data.** It is encoded in place, as much of it as there is room for. -/
theorem appends_encodeData (hlib : InPlaceContract lib layout)
    (hroom : room = ctx.zse.payloadEnd - ctx.zse.payload) (hlt : ctx.zse.payloadEnd < 2 ^ 16)
    (hfits : msg.data ≠ [] → 16 ≤ room) :
    ∃ ctx', encodeData lib msg ctx = (0, ctx') ∧
      Appends ctx (entriesBytes layout (dataEntries msg room)) ctx' := by
  rw [encodeData, dataEntries]
  split
  · exact ⟨ctx, rfl, Appends.refl ctx⟩
  · next hdata =>
    have hfits := hfits hdata
    have hlabel : (layout.text (ascii "hexdump")).length = 8 := length_text hlib (by decide)
    obtain ⟨ctx₁, heq₁, hputs₁⟩ := @puts_encodes ctx _ _ (hlib.tstrLit (ascii "hexdump")) (by omega)
    have hroom₁ := hputs₁.payload
    have hend₁ := hputs₁.payloadEnd
    have hprepared : logPduPrepare ctx₁ = (0, ctx₁.prepared 8) :=
      logPduPrepareExt_eq 1 0 (by omega)
    have hleft : (ctx₁.prepared 8).pdu.endPtr - (ctx₁.prepared 8).pdu.begin = room - 16 := by
      show ctx₁.zse.payloadEnd - (ctx₁.zse.payload + 8) = room - 16
      omega
    have hlength : (msg.data.take (room - 16)).length ≤ room - 16 := by
      rw [List.length_take]
      exact min_le_left _ _
    obtain ⟨hholds, happends⟩ := @holds_append ctx₁ 8 (msg.data.take (room - 16)) (by omega)
    dsimp only
    rw [heq₁]
    dsimp only
    rw [hprepared, orFinish_zero, hleft]
    generalize (ctx₁.prepared 8).append (msg.data.take (room - 16)) = ctx₂ at hholds happends
    have hbegin := hholds.begin
    have hend₂ := happends.payloadEnd
    obtain ⟨ctx₃, heq₃, hputs₃⟩ := @puts_piece lib layout ctx₂ _ _ 2 hlib hlib.bstrPtr _ hholds.bytes
      (by omega) (by rw [← hholds.ptr]; exact hholds.fits) (by omega)
    refine ⟨ctx₃, ?_, ?_⟩
    · rw [logPduBytesFinish, hholds.ptr, heq₃, okOr_true]
    · rw [entriesBytes_cons, entriesBytes_nil, List.append_nil, entryBytes_bytes]
      exact hputs₁.toAppends.trans (happends.trans hputs₃.toAppends)

theorem length_dataEntries_lt (hlib : InPlaceContract lib layout) (hlt : room < 2 ^ 16)
    (hpos : 0 < room) (hfits : msg.data ≠ [] → 16 ≤ room) :
    (entriesBytes layout (dataEntries msg room)).length < room := by
  rw [dataEntries]
  split
  · exact hpos
  · next hdata =>
    have hfits := hfits hdata
    have hlength : (msg.data.take (room - 16)).length ≤ room - 16 := by
      rw [List.length_take]
      exact min_le_left _ _
    have hlabel : (layout.text (ascii "hexdump")).length = 8 := length_text hlib (by decide)
    have hthree := headerLen_le (msg.data.take (room - 16)).length
    rw [entriesBytes_cons, entriesBytes_nil, List.append_nil, entryBytes_bytes, List.length_append,
      List.length_append, hlib.length_header _ _ (by omega), hlabel]
    omega

/-- Where the text ends with its first colon, a string encoder is not given a distance. -/
theorem exists_call_encodePackage (hlib : InPlaceContract lib layout)
    (hroom : room = ctx.zse.payloadEnd - ctx.zse.payload) (hlt : ctx.zse.payloadEnd < 2 ^ 16)
    (hfits : ctx.zse.payload + leastRoom config msg ≤ ctx.zse.payloadEnd)
    (hends : EndsAtColon config msg room) :
    ∃ call ∈ (encodePackage lib config msg ctx).2.calls, ¬ call.IsDistance := by
  obtain ⟨hpackage, hprefix, func, hfunc, heq⟩ := hends
  have hreserve : textReserve config msg = 22 := if_pos hprefix
  obtain ⟨ctx₁, hprinted, hholds, happends⟩ :=
    @holds_keptText lib config msg ctx room hroom hfits hpackage
  have hend := happends.payloadEnd
  rw [heq] at hholds
  rw [hprinted, encodePrinted, if_pos hprefix, hholds.findColon_eq_some hfunc]
  exact exists_call_encodeSplit hlib hholds (by omega) (by omega)

/-- Where there is not enough room for the data, an error is returned and nothing is sent. -/
theorem encodeData_full (hlib : InPlaceContract lib layout) (hdata : msg.data ≠ [])
    (hfull : ctx.zse.payloadEnd < ctx.zse.payload + 16) :
    (encodeData lib msg ctx).1 ≠ 0 ∧ (encodeData lib msg ctx).2.sent = ctx.sent := by
  have hlabel : (layout.text (ascii "hexdump")).length = 8 := length_text hlib (by decide)
  have hput : (encodes (lib.tstrPutLit (ascii "hexdump")) ctx).2.zse.payloadEnd <
      (encodes (lib.tstrPutLit (ascii "hexdump")) ctx).2.zse.payload + 8 := by
    by_cases hfits : ctx.zse.payload + (layout.text (ascii "hexdump")).length ≤ ctx.zse.payloadEnd
    · obtain ⟨ctx₁, heq, hputs⟩ := puts_encodes (hlib.tstrLit (ascii "hexdump")) hfits
      have hroom := hputs.payload
      have hend := hputs.payloadEnd
      rw [heq]
      show ctx₁.zse.payloadEnd < ctx₁.zse.payload + 8
      omega
    · rw [encodes, (hlib.tstrLit (ascii "hexdump")).full _ (not_le.mp hfits)]
      show ctx.zse.payloadEnd < ctx.zse.payload + 8
      omega
  have hsent : (encodes (lib.tstrPutLit (ascii "hexdump")) ctx).2.sent = ctx.sent := rfl
  rw [encodeData, if_neg hdata]
  dsimp only
  generalize (encodes (lib.tstrPutLit (ascii "hexdump")) ctx).2 = ctx₁ at hput hsent
  have hfailed : logPduPrepare ctx₁ = (-Errno.enomem, ctx₁.prepared 8) := if_pos hput
  rw [hfailed, orFinish_of_ne (by decide)]
  exact ⟨show -Errno.enomem ≠ 0 by decide, hsent⟩

end Parts

end Golioth.Logging
