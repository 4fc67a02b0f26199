/-
# What is copied where

No copy that is made for a log message writes where a later one reads. That does
not depend on what fits: the encoder goes on by less than was reserved, whatever
the lengths are, and a string encoder that fails does not copy anything.
-/
import Golioth.Logging.Encoding

namespace Golioth.Logging

open CS CS.Cbor Golioth.Coap Golioth.Zcbor

/-- The copies are in order if they were. -/
structure Keeps (ctx ctx' : LogCtx) : Prop where
  orderly : ctx.zse.Orderly → ctx'.zse.Orderly
  payloadEnd : ctx'.zse.payloadEnd = ctx.zse.payloadEnd

/-- The encoder has gone on by at most some bytes. -/
structure Advances (ctx : LogCtx) (most : ℕ) (ctx' : LogCtx) : Prop extends Keeps ctx ctx' where
  payload : ctx'.zse.payload ≤ ctx.zse.payload + most

section Steps

variable {lib : ZcborInPlace} {layout : InPlaceLayout} {ctx ctx' ctx'' : LogCtx} {most most' : ℕ}
  {bytes : List UInt8}

theorem Keeps.refl (ctx : LogCtx) : Keeps ctx ctx := ⟨fun h => h, rfl⟩

theorem Keeps.trans (h : Keeps ctx ctx') (h' : Keeps ctx' ctx'') : Keeps ctx ctx'' :=
  ⟨fun horderly => h'.orderly (h.orderly horderly), h'.payloadEnd.trans h.payloadEnd⟩

theorem Advances.refl (ctx : LogCtx) (most : ℕ) : Advances ctx most ctx :=
  ⟨Keeps.refl ctx, Nat.le_add_right _ _⟩

theorem Advances.trans (h : Advances ctx most ctx') (h' : Advances ctx' most' ctx'') :
    Advances ctx (most + most') ctx'' where
  toKeeps := h.toKeeps.trans h'.toKeeps
  payload := by
    have hfirst := h.payload
    have hsecond := h'.payload
    omega

theorem advances_encodes {encode : EncodeState → Bool × EncodeState} (h : Stores encode bytes)
    (ctx : LogCtx) : Advances ctx bytes.length (encodes encode ctx).2 := by
  by_cases hfits : ctx.zse.payload + bytes.length ≤ ctx.zse.payloadEnd
  · rw [encodes, h.fits _ hfits]
    exact ⟨⟨fun horderly => horderly.store bytes, rfl⟩, le_refl _⟩
  · rw [encodes, h.full _ (not_le.mp hfits)]
    exact Advances.refl ctx _

/-- A string that lies three bytes behind the payload pointer is not overwritten by its header. -/
theorem advances_encodesBetween {encode : (ptr len : ℕ) → EncodeState → Bool × EncodeState}
    {major : ℕ} (hlib : InPlaceContract lib layout)
    (h : ∀ ptr len, Moves (encode ptr len) (layout.header major len) ptr len) {first : ℕ}
    (hbehind : ctx.zse.payload + 3 ≤ first) (hlt : ctx.zse.payloadEnd < 2 ^ 16) (last : ℕ) :
    Advances ctx (3 + sizeOfInt ((last : ℤ) - first)) (encodesBetween encode first last ctx).2 := by
  rw [encodesBetween]
  generalize sizeOfInt ((last : ℤ) - first) = len
  by_cases hfits : ctx.zse.payload + ((layout.header major len).length + len) ≤ ctx.zse.payloadEnd
  · have hheader := hlib.length_header major len (by omega)
    have hthree := headerLen_le len
    rw [encodes, (h first len).fits _ hfits]
    refine ⟨⟨fun horderly => horderly.encode (by omega) len, rfl⟩, ?_⟩
    show ctx.zse.payload + (layout.header major len).length + len ≤ _
    omega
  · rw [encodes, (h first len).full _ (not_le.mp hfits)]
    exact ⟨⟨fun horderly => horderly, rfl⟩, Nat.le_add_right _ _⟩

theorem advances_andThen {result : Bool × LogCtx} {next : LogCtx → Bool × LogCtx} (err : ℤ)
    (hresult : Advances ctx most result.2) (hnext : Advances result.2 most' (next result.2).2) :
    Advances ctx (most + most') (okOr err (andThen result next)).2 := by
  rw [okOr, andThen]
  split
  · exact hresult.trans hnext
  · exact hresult.trans (Advances.refl _ _)

theorem keeps_orFinish {result : ℤ × LogCtx} {next : LogCtx → ℤ × LogCtx}
    (hresult : Keeps ctx result.2) (hnext : Keeps result.2 (next result.2).2) :
    Keeps ctx (orFinish result next).2 := by
  rw [orFinish]
  split
  · exact hresult.trans hnext
  · exact hresult

end Steps

section Parts

variable {lib : ZcborInPlace} {layout : InPlaceLayout} {config : LogConfig} {msg : LogMsg}
  {ctx : LogCtx}

theorem keeps_putText (hlib : InPlaceContract lib layout) (label text : List UInt8) (ctx : LogCtx) :
    Keeps ctx (putText lib label text ctx) :=
  (advances_encodes (hlib.tstrLit label) ctx).toKeeps.trans
    (advances_encodes (hlib.tstrTerm text) _).toKeeps

theorem keeps_putHeaders (hlib : InPlaceContract lib layout) (ctx : LogCtx) :
    Keeps ctx (putHeaders lib config msg ctx).2 := by
  have hsource (ctx : LogCtx) : Keeps ctx (if msg.level ≠ logLevelInternalRawString then
      logCborAppendHeaders lib msg ctx else ctx) := by
    split
    · rw [logCborAppendHeaders]
      cases msg.source with
      | none => exact keeps_putText hlib _ _ ctx
      | some name => exact (keeps_putText hlib _ name ctx).trans (keeps_putText hlib _ _ _)
    · exact Keeps.refl ctx
  refine keeps_orFinish (advances_encodes (hlib.mapStart 1) ctx).toKeeps ?_
  refine keeps_orFinish (advances_andThen _ (advances_encodes (hlib.tstrLit _) _)
    (advances_encodes (hlib.uint64 _) _)).toKeeps ?_
  exact (hsource _).trans (advances_andThen _ (advances_encodes (hlib.tstrLit _) _)
    (advances_encodes (hlib.uint32 _) _)).toKeeps

/-- The text as a whole: the label and a header take seven bytes. -/
theorem keeps_encodeWhole (hlib : InPlaceContract lib layout)
    (hbegin : ctx.zse.payload + 7 ≤ ctx.pdu.begin) (hlt : ctx.zse.payloadEnd < 2 ^ 16) :
    Keeps ctx (encodeWhole lib ctx).2 := by
  have hlabel : (layout.text (ascii "msg")).length = 4 := length_text hlib (by decide)
  have hput := advances_encodes (hlib.tstrLit (ascii "msg")) ctx
  have hroom := hput.payload
  refine hput.toKeeps.trans ?_
  refine (advances_encodesBetween hlib hlib.tstrPtr ?_ ?_ _).toKeeps
  · show _ ≤ ctx.pdu.begin
    omega
  · rwa [hput.payloadEnd]

/-- The text in two parts: the labels and headers take fifteen bytes. -/
theorem keeps_encodeSplit (hlib : InPlaceContract lib layout) {funcColon : ℕ}
    (hbegin : ctx.zse.payload + 15 ≤ ctx.pdu.begin) (hcolon : ctx.pdu.begin ≤ funcColon)
    (hlt : ctx.zse.payloadEnd < 2 ^ 16) : Keeps ctx (encodeSplit lib funcColon ctx).2 := by
  have hfunc : (layout.text (ascii "func")).length = 5 := length_text hlib (by decide)
  have hmsg : (layout.text (ascii "msg")).length = 4 := length_text hlib (by decide)
  have hlen : sizeOfInt ((funcColon : ℤ) - ctx.pdu.begin) ≤ funcColon - ctx.pdu.begin := by
    have hcast : (funcColon : ℤ) - ctx.pdu.begin = ((funcColon - ctx.pdu.begin : ℕ) : ℤ) := by omega
    rw [sizeOfInt, hcast]
    exact_mod_cast Nat.mod_le _ _
  -- the first part
  have hput := advances_encodes (hlib.tstrLit (ascii "func")) ctx
  have hroom := hput.payload
  have hend := hput.payloadEnd
  have hmove := advances_encodesBetween hlib hlib.tstrPtr
    (show (encodes (lib.tstrPutLit (ascii "func")) ctx).2.zse.payload + 3 ≤ ctx.pdu.begin by omega)
    (by omega) funcColon
  have hfirst := advances_andThen (-Errno.enomem) hput hmove
  rw [encodeSplit]
  refine keeps_orFinish hfirst.toKeeps ?_
  have hroom' := hfirst.payload
  have hend' := hfirst.payloadEnd
  generalize (okOr (-Errno.enomem) (andThen (encodes (lib.tstrPutLit (ascii "func")) ctx)
    (encodesBetween lib.tstrEncodePtr ctx.pdu.begin funcColon))).2 = ctx₁ at hroom' hend'
  -- the second part lies behind the colon and the byte after it
  have hput' := advances_encodes (hlib.tstrLit (ascii "msg")) ctx₁
  have hroom'' := hput'.payload
  have hend'' := hput'.payloadEnd
  have hmove' := advances_encodesBetween hlib hlib.tstrPtr
    (show (encodes (lib.tstrPutLit (ascii "msg")) ctx₁).2.zse.payload + 3 ≤ funcColon + 2 by omega)
    (by omega) ctx₁.pdu.ptr
  exact (advances_andThen _ hput' hmove').toKeeps

/-- The PDU begins at a distance from the payload pointer. -/
def Distant (reserve : ℕ) (ctx : LogCtx) : Prop := ctx.pdu.begin = ctx.zse.payload + reserve

theorem keeps_logPduPrepareExt (elements additionalReserved : ℕ) (ctx : LogCtx) :
    Keeps ctx (logPduPrepareExt elements additionalReserved ctx).2 ∧
      Distant (8 * elements + additionalReserved)
        (logPduPrepareExt elements additionalReserved ctx).2 := by
  rw [logPduPrepareExt]
  dsimp only
  split <;> exact ⟨⟨fun h => h, rfl⟩, Nat.add_assoc _ _ _⟩

theorem keeps_append (ctx : LogCtx) (bytes : List UInt8) : Keeps ctx (ctx.append bytes) :=
  ⟨fun h => ⟨h.below, h.sparing⟩, rfl⟩

theorem keeps_encodePrinted (hlib : InPlaceContract lib layout)
    (hdistant : Distant (textReserve config msg) ctx) (hlt : ctx.zse.payloadEnd < 2 ^ 16) :
    Keeps ctx (encodePrinted lib (config.hasFunc msg) ctx).2 := by
  rw [Distant, textReserve] at hdistant
  rw [encodePrinted]
  by_cases hprefix : config.hasFunc msg
  · rw [if_pos hprefix] at hdistant ⊢
    cases hfind : findColon ctx.zse.mem ctx.pdu.begin (ctx.pdu.ptr - ctx.pdu.begin) with
    | some funcColon =>
      exact keeps_encodeSplit hlib (by omega) (le_of_findColon_eq_some hfind) hlt
    | none => exact keeps_encodeWhole hlib (by omega) hlt
  · rw [if_neg hprefix] at hdistant ⊢
    exact keeps_encodeWhole hlib (by omega) hlt

theorem keeps_encodePackage (hlib : InPlaceContract lib layout) (hlt : ctx.zse.payloadEnd < 2 ^ 16) :
    Keeps ctx (encodePackage lib config msg ctx).2 := by
  rw [encodePackage]
  split
  · exact Keeps.refl ctx
  have hprepared : Keeps ctx
      (if config.hasFunc msg then logPduPrepareExt 2 6 ctx else logPduPrepare ctx).2 ∧
        Distant (textReserve config msg)
          (if config.hasFunc msg then logPduPrepareExt 2 6 ctx else logPduPrepare ctx).2 := by
    rw [textReserve]
    split
    · exact keeps_logPduPrepareExt 2 6 ctx
    · exact keeps_logPduPrepareExt 1 0 ctx
  obtain ⟨hkeeps, hdistant⟩ := hprepared
  refine keeps_orFinish hkeeps ?_
  rw [← hkeeps.payloadEnd] at hlt
  generalize (if config.hasFunc msg then logPduPrepareExt 2 6 ctx else logPduPrepare ctx).2 = ctx₁
    at hdistant hlt
  -- printing moves the pointer of the PDU only
  rw [cbpprintf_eq]
  generalize (config.format msg.package).take (ctx₁.pdu.endPtr - ctx₁.pdu.ptr) = printed
  have hdistant' : Distant (textReserve config msg) (ctx₁.append printed) := hdistant
  exact (keeps_append ctx₁ printed).trans (keeps_encodePrinted hlib hdistant' hlt)

theorem keeps_encodeData (hlib : InPlaceContract lib layout) (hlt : ctx.zse.payloadEnd < 2 ^ 16) :
    Keeps ctx (encodeData lib msg ctx).2 := by
  rw [encodeData]
  split
  · exact Keeps.refl ctx
  have hput := (advances_encodes (hlib.tstrLit (ascii "hexdump")) ctx).toKeeps
  refine hput.trans ?_
  have hend := hput.payloadEnd
  generalize (encodes (lib.tstrPutLit (ascii "hexdump")) ctx).2 = ctx₁ at hend
  obtain ⟨hkeeps, hdistant⟩ := keeps_logPduPrepareExt 1 0 ctx₁
  refine keeps_orFinish hkeeps ?_
  have hend' := hkeeps.payloadEnd
  rw [logPduPrepare]
  generalize (logPduPrepareExt 1 0 ctx₁).2 = ctx₂ at hdistant hend'
  rw [Distant] at hdistant
  refine (keeps_append ctx₂ (msg.data.take (ctx₂.pdu.endPtr - ctx₂.pdu.begin))).trans ?_
  refine (advances_encodesBetween hlib hlib.bstrPtr ?_ ?_ _).toKeeps
  · show ctx₂.zse.payload + 3 ≤ ctx₂.pdu.begin
    omega
  · show ctx₂.zse.payloadEnd < 2 ^ 16
    omega

end Parts

end Golioth.Logging
