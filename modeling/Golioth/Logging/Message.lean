/-
# What becomes of a log message

A log message whose text and data fit is sent as one map, with its text and its
data as they are. Otherwise they are cut, but not always sent: a text may leave too
little room for the data, and one that is cut right behind its first colon is given
a length of minus one.
-/
import Golioth.Logging.Copies

namespace Golioth.Logging

open CS CS.Cbor Golioth.Coap Golioth.Zcbor

/-! ## The packet -/

/-- The options of a packet to the logs. -/
def logsOptions : List OptionFormat.Entry :=
  [(OptionNum.uriPath.value, ascii "logs"),
    (OptionNum.contentFormat.value, Reference.intBytes contentFormatAppCbor)]

/-- The packet is a message to the logs whose payload is one map of the entries. -/
def Posts (profile : Profile) (entries : List LogEntry) (packet : CoapPacket) : Prop :=
  ∃ message item, decodeMessage packet.data = some message ∧ message.type = .nonCon ∧
    message.code = Method.post.code ∧ message.options = logsOptions ∧
    message.payload = some item ∧ IsLogMap profile entries item

section Packets

variable {z : Zephyr} {token : FullToken} {id : UInt16} {bufLen : ℕ}

/-- What the CoAP header of a packet begins with. -/
def logsHeader (token : FullToken) (id : UInt16) : List UInt8 :=
  Zephyr.headerBytes .nonCon ⟨token.1, length_fullToken_le token⟩ Method.post.code id

/-- The packet has a CoAP header that a payload can follow. -/
structure Prepared (token : FullToken) (id : UInt16) (maxLen : ℕ) (packet : CoapPacket) : Prop where
  encodable : OptionFormat.Encodable 0 logsOptions
  data : packet.data = logsHeader token id ++ (OptionFormat.encodeAll 0 logsOptions ++ [255])
  maxLen : packet.maxLen = maxLen

theorem prepared_coapPacketPrepare (hz : z.WritingContract) (hroom : z.RoomContract)
    (hpayload : z.PayloadContract) (hlt : bufLen < 2 ^ 16) :
    (coapPacketPrepare z bufLen token id).1 = 0 →
      Prepared token id bufLen (coapPacketPrepare z bufLen token id).2 := by
  refine orReturn_rule
    (P := fun packet => Written (logsHeader token id) [] packet ∧ packet.maxLen = bufLen) ?_ ?_
  · intro hok
    obtain ⟨hdata, hdelta⟩ := hz.init _ _ _ _ _ hok
    refine ⟨⟨?_, trivial, hdelta⟩, ?_⟩
    · rw [hdata, OptionFormat.encodeAll, List.append_nil]
      rfl
    · rw [hroom.init_maxLen, Nat.mod_eq_of_lt hlt]
  intro packet h
  refine orReturn_rule
    (P := fun packet =>
      Written (logsHeader token id) [(OptionNum.uriPath.value, ascii "logs")] packet ∧
      packet.maxLen = bufLen) ?_ ?_
  · intro hok
    exact ⟨writes_appendOption hz h.1 (Nat.zero_le _) (by decide) hok,
      (hroom.option_maxLen _ _ _).trans h.2⟩
  intro packet h
  refine orReturn_rule
    (P := fun packet => Written (logsHeader token id) logsOptions packet ∧ packet.maxLen = bufLen) ?_ ?_
  · intro hok
    refine ⟨writes_appendOptionInt hz h.1 contentFormatAppCbor (by decide) hok, ?_⟩
    rw [hz.appendOptionInt, hroom.option_maxLen, h.2]
  intro packet h hok
  refine ⟨h.1.encodable, ?_, (hpayload.marker_maxLen packet).trans h.2⟩
  rw [hz.appendPayloadMarker packet hok, h.1.data, List.append_assoc]

/-- A payload that is appended to the CoAP header is read back. -/
theorem posts_of_data {profile : Profile} {entries : List LogEntry} {packet packet' : CoapPacket}
    {item : List UInt8} (h : Prepared token id bufLen packet)
    (hdata : packet'.data = packet.data ++ item)
    (hitem : IsLogMap profile entries item) : Posts profile entries packet' := by
  have hne : ¬ some item = some [] := by
    obtain ⟨pairs, ⟨head, hopens, rfl⟩, -⟩ := hitem
    obtain ⟨byte, following, rfl, -⟩ := hopens.initial (by decide)
    simp
  have hbytes : packet'.data =
      logsHeader token id ++ (OptionFormat.encodeAll 0 logsOptions ++ payloadBytes (some item)) := by
    rw [hdata, h.data, payloadBytes, List.append_assoc, List.append_assoc, List.singleton_append]
  have hdecode := @decodeMessage_bytes .nonCon ⟨token.1, length_fullToken_le token⟩
    Method.post.code id _
    h.encodable (some item)
  rw [if_neg hne] at hdecode
  exact ⟨_, item, by rw [hbytes]; exact hdecode, rfl, rfl, rfl, rfl, hitem⟩

end Packets

/-! ## Runs -/

section Sizes

variable (z : Zephyr) (layout : InPlaceLayout) (config : LogConfig) (token : FullToken)
  (id : UInt16) (msg : LogMsg) (index : UInt32)

/-- Where the map begins. -/
def mapOffset : ℕ := (coapPacketPrepare z config.maxPacketSize token id).2.offset

/-- The bytes before the text. -/
def fieldBytes : List UInt8 := mapHead ++ entriesBytes layout (headerEntries config msg index)

/-- The room for the text. -/
def textRoom : ℕ :=
  config.maxPacketSize - (mapOffset z config token id + (fieldBytes layout config msg index).length)

/-- The room that the text leaves. -/
def dataRoom : ℕ :=
  textRoom z layout config token id msg index -
    (entriesBytes layout (packageEntries config msg
      (textRoom z layout config token id msg index))).length

/-- The CoAP header, the header fields and what is reserved for the text fit the packet. If there is
no text, the end of the map fits it. -/
structure HeadersFit : Prop where
  coap : (coapPacketPrepare z config.maxPacketSize token id).1 = 0
  fields : mapOffset z config token id + (fieldBytes layout config msg index).length +
    leastRoom config msg ≤ config.maxPacketSize

/-- The entries of a message, as much of them as there is room for. -/
def logEntries : List LogEntry :=
  headerEntries config msg index ++
    (packageEntries config msg (textRoom z layout config token id msg index) ++
      dataEntries msg (dataRoom z layout config token id msg index))

end Sizes

section Runs

variable {z : Zephyr} {lib : ZcborInPlace} {layout : InPlaceLayout} {config : LogConfig}
  {token : FullToken} {id : UInt16} {msg : LogMsg} {ctx ctx' : LogCtx}

/-- The context when a packet has been prepared. -/
def LogCtx.started (ctx : LogCtx) (packet : CoapPacket) (size : ℕ) : LogCtx :=
  { ctx with
    coapPacket := packet
    zse :=
      { mem := ctx.zse.mem
        payload := packet.offset
        payloadEnd := packet.offset + (size - packet.offset)
        copies := [] } }

theorem logPacketPrepare_eq (hlib : InPlaceContract lib layout)
    (hok : (coapPacketPrepare z config.maxPacketSize token id).1 = 0) :
    logPacketPrepare z lib config token id ctx =
      (0, ctx.started (coapPacketPrepare z config.maxPacketSize token id).2 config.maxPacketSize) := by
  rw [logPacketPrepare]
  generalize coapPacketPrepare z config.maxPacketSize token id = result at hok
  obtain ⟨err, packet⟩ := result
  dsimp only at hok ⊢
  rw [hlib.newEncodeState, if_neg (not_not.mpr hok)]
  rfl

/-- What has been appended since the packet was prepared becomes its payload. -/
theorem logPacketFinish_spec (hz : z.WritingContract) (hpayload : z.PayloadContract)
    {packet : CoapPacket} {size : ℕ} {bytes : List UInt8}
    (h : Appends (ctx.started packet size) bytes ctx')
    (hfits : packet.offset + bytes.length ≤ packet.maxLen) (hlt : bytes.length < 2 ^ 16) :
    ∃ packet', logPacketFinish z ctx' = (0, { ctx' with coapPacket := packet' }) ∧
      packet'.data = packet.data ++ bytes := by
  have hread : ctx'.zse.mem.read packet.offset
      ((ctx'.zse.payload - packet.offset) % 2 ^ 16) = bytes := by
    have hlength : ctx'.zse.payload = packet.offset + bytes.length := h.payload
    rw [hlength, Nat.add_sub_cancel_left, Nat.mod_eq_of_lt hlt]
    exact h.bytes
  have hpacket : ctx'.coapPacket = packet := h.coapPacket
  have hok := (hpayload.payload_iff packet bytes).mpr hfits
  refine ⟨(z.coapPacketAppendPayload packet bytes).2, ?_, hz.appendPayload packet bytes hok⟩
  rw [logPacketFinish, hpacket]
  dsimp only
  rw [hread, hok]

/-- The run from the data on. -/
def encodeRest (z : Zephyr) (lib : ZcborInPlace) (msg : LogMsg) (ctx : LogCtx) : ℤ × LogCtx :=
  orFinish (encodeData lib msg ctx) fun ctx =>
  orFinish (logCborCloseMap lib ctx) fun ctx =>
  orFinish (logPacketFinish z ctx) fun ctx =>
  (0, { ctx with sent := ctx.sent ++ [ctx.coapPacket] })

/-- A run has come to the text: what is before it has been put, and there is the least room. -/
structure AtText (z : Zephyr) (lib : ZcborInPlace) (layout : InPlaceLayout) (config : LogConfig)
    (token : FullToken) (id : UInt16) (msg : LogMsg) (ctx ctx' : LogCtx) : Prop where
  puts : Puts (ctx.started (coapPacketPrepare z config.maxPacketSize token id).2
    config.maxPacketSize) (fieldBytes layout config msg ctx.msgIndex) ctx'
  run : logMsgEncode z lib config token id msg ctx =
    orFinish (encodePackage lib config msg ctx') (encodeRest z lib msg)
  room : textRoom z layout config token id msg ctx.msgIndex =
    ctx'.zse.payloadEnd - ctx'.zse.payload
  fits : ctx'.zse.payload + leastRoom config msg ≤ ctx'.zse.payloadEnd
  payloadEnd : ctx'.zse.payloadEnd = config.maxPacketSize

theorem exists_atText (hlib : InPlaceContract lib layout)
    (hfit : HeadersFit z layout config token id msg ctx.msgIndex) :
    ∃ ctx', AtText z lib layout config token id msg ctx ctx' := by
  have hfields := hfit.fields
  rw [mapOffset] at hfields
  obtain ⟨ctx', hrun, hputs⟩ := @puts_putHeaders lib layout config msg
    (ctx.started (coapPacketPrepare z config.maxPacketSize token id).2 config.maxPacketSize) hlib
    (by
      show (coapPacketPrepare z config.maxPacketSize token id).2.offset +
        (fieldBytes layout config msg ctx.msgIndex).length ≤ _ + (config.maxPacketSize - _)
      omega)
  have hroom : ctx'.zse.payload = (coapPacketPrepare z config.maxPacketSize token id).2.offset +
      (fieldBytes layout config msg ctx.msgIndex).length := hputs.payload
  have hend : ctx'.zse.payloadEnd = (coapPacketPrepare z config.maxPacketSize token id).2.offset +
      (config.maxPacketSize - (coapPacketPrepare z config.maxPacketSize token id).2.offset) :=
    hputs.payloadEnd
  refine ⟨ctx', hputs, ?_, ?_, by omega, by omega⟩
  · rw [logMsgEncode, logPacketPrepare_eq hlib hfit.coap, orFinish_zero, hrun, orFinish_zero]
    rfl
  · rw [textRoom, mapOffset]
    omega

/-- The numbers in a message have 64 bits. -/
theorem number_lt_of_mem {z : Zephyr} {index : UInt32} {entry : LogEntry}
    (h : entry ∈ logEntries z layout config token id msg index) {n : ℕ}
    (hvalue : entry.value = .number n) : n < 2 ^ 64 := by
  rw [logEntries, List.mem_append, List.mem_append] at h
  rcases h with h | h | h
  · exact number_lt_of_mem_headerEntries h hvalue
  · exact absurd hvalue (value_ne_of_mem_packageEntries h n)
  · exact absurd hvalue (value_ne_of_mem_dataEntries h n)

/-- **What is sent.** Unless the text ends with its first colon or leaves too little room for the
data, a packet is sent with one map of the text and the data, as much of them as there is room
for. -/
theorem logMsgProcess_posts (hz : z.WritingContract) (hroom : z.RoomContract)
    (hpayload : z.PayloadContract) (hlib : InPlaceContract lib layout)
    (hfit : HeadersFit z layout config token id msg ctx.msgIndex)
    (hcut : ¬ EndsAtColon config msg (textRoom z layout config token id msg ctx.msgIndex))
    (hdata : msg.data ≠ [] → 16 ≤ dataRoom z layout config token id msg ctx.msgIndex) :
    ∃ packet, (logMsgProcess z lib config token id msg ctx).1 = 0 ∧
      (logMsgProcess z lib config token id msg ctx).2.sent = [packet] ∧
      Posts layout.profile (logEntries z layout config token id msg ctx.msgIndex) packet ∧
      ∀ call ∈ (logMsgProcess z lib config token id msg ctx).2.calls, call.IsDistance := by
  have hsize := config.maxPacketSize_lt
  have hfields := hfit.fields
  have hprepared := prepared_coapPacketPrepare hz hroom hpayload hsize hfit.coap
  obtain ⟨ctx₁, hat⟩ := @exists_atText z lib layout config token id msg
    { ctx with calls := [], sent := [] } hlib hfit
  have hroom₁ : ctx₁.zse.payload = mapOffset z config token id +
      (fieldBytes layout config msg ctx.msgIndex).length := hat.puts.payload
  have hend₁ := hat.payloadEnd
  have hfits₁ := hat.fits
  have htext : textRoom z layout config token id msg ctx.msgIndex =
      ctx₁.zse.payloadEnd - ctx₁.zse.payload := hat.room
  have hlt := length_packageEntries_lt hlib (by omega) (by omega) hcut
  -- the text
  obtain ⟨ctx₂, heq₂, happends₂⟩ := appends_encodePackage hlib htext (by omega) hfits₁ hcut
  have hroom₂ := happends₂.payload
  have hend₂ := happends₂.payloadEnd
  have hleft : dataRoom z layout config token id msg ctx.msgIndex =
      ctx₂.zse.payloadEnd - ctx₂.zse.payload := by
    rw [dataRoom]
    omega
  have hlt' := length_dataEntries_lt hlib (by omega) (by omega) hdata
  -- the data
  obtain ⟨ctx₃, heq₃, happends₃⟩ := appends_encodeData hlib hleft (by omega) hdata
  have hroom₃ := happends₃.payload
  have hend₃ := happends₃.payloadEnd
  -- the end of the map
  obtain ⟨ctx₄, heq₄, hputs₄⟩ := @puts_encodes ctx₃ _ _ (hlib.mapEnd 1)
    (by rw [List.length_singleton]; omega)
  have happends := hat.puts.toAppends.trans (happends₂.trans (happends₃.trans hputs₄.toAppends))
  have hbytes : fieldBytes layout config msg ctx.msgIndex ++
      (entriesBytes layout (packageEntries config msg
          (textRoom z layout config token id msg ctx.msgIndex)) ++
        (entriesBytes layout (dataEntries msg (dataRoom z layout config token id msg ctx.msgIndex)) ++
          [breakCode])) =
      mapHead ++ (entriesBytes layout (logEntries z layout config token id msg ctx.msgIndex) ++
        [breakCode]) := by
    simp only [fieldBytes, logEntries, entriesBytes_append, List.append_assoc]
  have hlength := congrArg List.length hbytes
  simp only [List.length_append, List.length_singleton] at hlength
  rw [hbytes] at happends
  -- what is sent
  obtain ⟨packet, heq₅, hpacket⟩ := logPacketFinish_spec hz hpayload happends
    (by
      rw [hprepared.maxLen]
      simp only [List.length_append, List.length_singleton]
      show mapOffset z config token id + _ ≤ _
      omega)
    (by
      simp only [List.length_append, List.length_singleton]
      omega)
  have hshort := @short_of_length_lt layout (logEntries z layout config token id msg ctx.msgIndex)
    (by omega) fun _ hentry _ hvalue => number_lt_of_mem hentry hvalue
  have hprocess : logMsgProcess z lib config token id msg ctx =
      (0, { ctx₄ with
        coapPacket := packet, sent := ctx₄.sent ++ [packet], msgIndex := ctx₄.msgIndex + 1 }) := by
    rw [logMsgProcess, hat.run, heq₂, orFinish_zero, encodeRest, heq₃, orFinish_zero, logCborCloseMap,
      heq₄, okOr_true, orFinish_zero, heq₅, orFinish_zero]
  rw [hprocess]
  refine ⟨packet, rfl, ?_, posts_of_data hprepared hpacket (isLogMap_bytes hlib hshort), ?_⟩
  · show ctx₄.sent ++ [packet] = [packet]
    rw [happends.sent]
    rfl
  · intro call hcall
    exact (happends.calls call hcall).resolve_left List.not_mem_nil

/-- Nothing overwrites what is still to be copied, however long the text and the data are. -/
theorem sparing_logMsgProcess (hlib : InPlaceContract lib layout)
    (hok : (coapPacketPrepare z config.maxPacketSize token id).1 = 0)
    (hle : mapOffset z config token id ≤ config.maxPacketSize) :
    Sparing (logMsgProcess z lib config token id msg ctx).2.zse.copies := by
  have hsize := config.maxPacketSize_lt
  rw [mapOffset] at hle
  have hstarted : (({ ctx with calls := [], sent := [] } : LogCtx).started
      (coapPacketPrepare z config.maxPacketSize token id).2 config.maxPacketSize).zse.Orderly :=
    ⟨fun _ hcopy => absurd hcopy List.not_mem_nil, List.Pairwise.nil⟩
  have hend : (({ ctx with calls := [], sent := [] } : LogCtx).started
      (coapPacketPrepare z config.maxPacketSize token id).2 config.maxPacketSize).zse.payloadEnd <
        2 ^ 16 := by
    show _ + (config.maxPacketSize - _) < 2 ^ 16
    omega
  have hfinish (ctx : LogCtx) : Keeps ctx (logPacketFinish z ctx).2 := by
    rw [logPacketFinish]
    exact ⟨fun h => h, rfl⟩
  have hrun (ctx : LogCtx) (hlt : ctx.zse.payloadEnd < 2 ^ 16) : Keeps ctx
      (orFinish (putHeaders lib config msg ctx) fun ctx =>
        orFinish (encodePackage lib config msg ctx) fun ctx =>
        orFinish (encodeData lib msg ctx) fun ctx =>
        orFinish (logCborCloseMap lib ctx) fun ctx =>
        orFinish (logPacketFinish z ctx) fun ctx =>
        (0, { ctx with sent := ctx.sent ++ [ctx.coapPacket] })).2 := by
    have hheaders := @keeps_putHeaders lib layout config msg hlib ctx
    refine keeps_orFinish hheaders ?_
    rw [← hheaders.payloadEnd] at hlt
    have hpackage := @keeps_encodePackage lib layout config msg _ hlib hlt
    refine keeps_orFinish hpackage ?_
    rw [← hpackage.payloadEnd] at hlt
    refine keeps_orFinish (keeps_encodeData hlib hlt) ?_
    refine keeps_orFinish (advances_encodes (hlib.mapEnd 1) _).toKeeps ?_
    exact keeps_orFinish (hfinish _) ⟨fun h => h, rfl⟩
  rw [logMsgProcess, logMsgEncode, logPacketPrepare_eq hlib hok, orFinish_zero]
  exact ((hrun _ hend).orderly hstarted).sparing

end Runs

/-! ## Messages that fit -/

section Whole

variable {z : Zephyr} {lib : ZcborInPlace} {layout : InPlaceLayout} {config : LogConfig}
  {token : FullToken} {id : UInt16} {msg : LogMsg} {ctx : LogCtx}

/-- The text and the data fit the packet without being cut. -/
structure FitsWhole (z : Zephyr) (layout : InPlaceLayout) (config : LogConfig) (token : FullToken)
    (id : UInt16) (msg : LogMsg) (index : UInt32) : Prop where
  text : msg.package ≠ [] →
    textReserve config msg + (config.format msg.package).length ≤
      textRoom z layout config token id msg index
  data : msg.data ≠ [] → 16 + msg.data.length ≤ dataRoom z layout config token id msg index

/-- The entry of the data as a whole. -/
def wholeData (msg : LogMsg) : List LogEntry :=
  if msg.data = [] then [] else [{ key := ascii "hexdump", value := .bytes msg.data }]

/-- A packet was sent, and one only, with one map of the entries. -/
def Sends (profile : Profile) (entries : List LogEntry) (run : ℤ × LogCtx) : Prop :=
  ∃ packet, run.2.sent = [packet] ∧ Posts profile entries packet

theorem FitsWhole.keptText_eq (h : FitsWhole z layout config token id msg ctx.msgIndex)
    (hpackage : msg.package ≠ []) :
    keptText config msg (textRoom z layout config token id msg ctx.msgIndex) =
      config.format msg.package := by
  have htext := h.text hpackage
  exact List.take_of_length_le (by omega)

theorem FitsWhole.dataEntries_eq (h : FitsWhole z layout config token id msg ctx.msgIndex) :
    dataEntries msg (dataRoom z layout config token id msg ctx.msgIndex) = wholeData msg := by
  rw [dataEntries, wholeData]
  split
  · rfl
  · next hdata =>
    have hdata := h.data hdata
    rw [List.take_of_length_le (by omega)]

/-- A message that fits, and whose text does not end with its first colon, is sent as it is. -/
theorem FitsWhole.sends (hz : z.WritingContract) (hroom : z.RoomContract)
    (hpayload : z.PayloadContract) (hlib : InPlaceContract lib layout)
    (hfit : HeadersFit z layout config token id msg ctx.msgIndex)
    (h : FitsWhole z layout config token id msg ctx.msgIndex)
    (hcut : ¬ EndsAtColon config msg (textRoom z layout config token id msg ctx.msgIndex)) :
    Sends layout.profile
      (headerEntries config msg ctx.msgIndex ++
        (packageEntries config msg (textRoom z layout config token id msg ctx.msgIndex) ++
          wholeData msg))
      (logMsgProcess z lib config token id msg ctx) := by
  obtain ⟨packet, -, hsent, hposts, -⟩ := logMsgProcess_posts hz hroom hpayload hlib hfit hcut
    fun hdata => (Nat.le_add_right _ _).trans (h.data hdata)
  rw [logEntries, h.dataEntries_eq] at hposts
  exact ⟨packet, hsent, hposts⟩

/-- **A message that fits.** It is sent as one map with its text, or the two parts of it, and its
data. Nothing that is still to be encoded is overwritten, whether or not the message fits. -/
theorem logMsgProcess_preserves (hz : z.WritingContract) (hroom : z.RoomContract)
    (hpayload : z.PayloadContract) (hlib : InPlaceContract lib layout)
    (hfit : HeadersFit z layout config token id msg ctx.msgIndex) :
    (FitsWhole z layout config token id msg ctx.msgIndex →
      (msg.package = [] →
        Sends layout.profile (headerEntries config msg ctx.msgIndex ++ wholeData msg)
          (logMsgProcess z lib config token id msg ctx)) ∧
      (msg.package ≠ [] → config.hasFunc msg = false ∨ colon ∉ config.format msg.package →
        Sends layout.profile
          (headerEntries config msg ctx.msgIndex ++
            ({ key := ascii "msg", value := .text (config.format msg.package) } :: wholeData msg))
          (logMsgProcess z lib config token id msg ctx)) ∧
      (msg.package ≠ [] → config.hasFunc msg → ∀ func text, colon ∉ func →
        config.format msg.package = func ++ ascii ": " ++ text →
        Sends layout.profile
          (headerEntries config msg ctx.msgIndex ++
            ({ key := ascii "func", value := .text func } ::
              { key := ascii "msg", value := .text text } :: wholeData msg))
          (logMsgProcess z lib config token id msg ctx))) ∧
    Sparing (logMsgProcess z lib config token id msg ctx).2.zse.copies := by
  have hfields := hfit.fields
  refine ⟨fun h => ⟨?_, ?_, ?_⟩, sparing_logMsgProcess hlib hfit.coap (by omega)⟩
  · intro hpackage
    have hsends := h.sends hz hroom hpayload hlib hfit fun hends => hends.1 hpackage
    rwa [packageEntries, if_pos hpackage, List.nil_append] at hsends
  · intro hpackage hwhole
    have hkept := h.keptText_eq hpackage
    -- without a prefix or a colon, the text that is kept does not end at the colon of a prefix
    have hcut : ¬ EndsAtColon config msg (textRoom z layout config token id msg ctx.msgIndex) := by
      rintro ⟨-, hprefix, func, -, heq⟩
      rcases hwhole with hnone | hnone
      · exact absurd (hnone.symm.trans hprefix) Bool.false_ne_true
      · rw [← hkept, heq] at hnone
        exact hnone (List.mem_append_right _ (List.mem_singleton_self colon))
    have hentries : (if config.hasFunc msg then splitEntries (config.format msg.package)
        else [{ key := ascii "msg", value := .text (config.format msg.package) }]) =
          [{ key := ascii "msg", value := .text (config.format msg.package) }] := by
      rcases hwhole with hnone | hnone
      · rw [hnone]
        rfl
      · rw [splitEntries_of_not_mem hnone, ite_self]
    have hsends := h.sends hz hroom hpayload hlib hfit hcut
    rwa [packageEntries, if_neg hpackage, hkept, hentries, List.singleton_append] at hsends
  · intro hpackage hprefix func text hfunc heq
    have hkept := h.keptText_eq hpackage
    -- the first colon of the text is the one before the blank
    have hblank : ascii ": " = [colon, 32] := by decide
    have heq : config.format msg.package = func ++ colon :: 32 :: text := by
      rw [heq, hblank, List.append_assoc, List.cons_append, List.singleton_append]
    have hsends := h.sends hz hroom hpayload hlib hfit (not_endsAtColon_of_append (hkept.trans heq))
    rwa [packageEntries, if_neg hpackage, if_pos hprefix, hkept, heq, splitEntries_append hfunc,
      List.cons_append, List.singleton_append] at hsends

end Whole

/-- A buffer of 96 bytes, where debug messages have a function prefix. The package is the text. -/
def sampleConfig : LogConfig where
  maxPacketSize := 96
  maxPacketSize_lt := by decide
  functionPrefixMask := 16
  timestampToUs := UInt64.ofNat
  format package := package

/-- A debug message with a text and data. -/
def sampleMsg (text data : List UInt8) : LogMsg where
  level := 4
  timestamp := 1
  source := none
  package := text
  data := data

def sampleToken : FullToken := ⟨List.replicate 8 0, rfl⟩

/-- The context before the first message. -/
def sampleCtx : LogCtx where
  msgIndex := 0
  coapPacket := { data := [], maxLen := 0, hdrLen := 0, optLen := 0, delta := 0 }
  zse := { mem := fun _ => 0, payload := 0, payloadEnd := 0, copies := [] }
  pdu := { begin := 0, ptr := 0, endPtr := 0 }
  calls := []
  sent := []

theorem headersFit_sample (text data : List UInt8) :
    HeadersFit Reference.zephyr Reference.inPlaceLayout sampleConfig sampleToken 0
      (sampleMsg text data) 0 where
  coap := by decide
  fields := by
    have hfields : mapOffset Reference.zephyr sampleConfig sampleToken 0 +
        (fieldBytes Reference.inPlaceLayout sampleConfig (sampleMsg [] []) 0).length + 22 ≤ 96 := by
      decide
    have hleast : leastRoom sampleConfig (sampleMsg text data) ≤ 22 := by
      unfold leastRoom textReserve
      split_ifs <;> decide
    exact (Nat.add_le_add_left hleast _).trans hfields

/-- A function prefix, a text and data that fit. -/
theorem logMsgProcess_preserves_sample :
    Sends Reference.profile
        (headerEntries sampleConfig (sampleMsg (ascii "f: go") [1, 2]) 0 ++
          [{ key := ascii "func", value := .text (ascii "f") },
            { key := ascii "msg", value := .text (ascii "go") },
            { key := ascii "hexdump", value := .bytes [1, 2] }])
        (logMsgProcess Reference.zephyr Reference.inPlace sampleConfig sampleToken 0
          (sampleMsg (ascii "f: go") [1, 2]) sampleCtx) ∧
      Sparing (logMsgProcess Reference.zephyr Reference.inPlace sampleConfig sampleToken 0
        (sampleMsg (ascii "f: go") [1, 2]) sampleCtx).2.zse.copies := by
  have hpreserves := @logMsgProcess_preserves _ _ _ sampleConfig sampleToken 0
    (sampleMsg (ascii "f: go") [1, 2]) sampleCtx Reference.writingContract Reference.roomContract
    Reference.payloadContract Reference.inPlaceContract (headersFit_sample _ _)
  have hfits : FitsWhole Reference.zephyr Reference.inPlaceLayout sampleConfig sampleToken 0
      (sampleMsg (ascii "f: go") [1, 2]) 0 := ⟨by decide, by decide⟩
  exact ⟨(hpreserves.1 hfits).2.2 (by decide) (by decide) _ _ (by decide) (by decide), hpreserves.2⟩

/-! ## Messages that are cut -/

/-- The entries hold a text, as a whole or in two parts on both sides of a colon and the byte behind
it. -/
inductive HoldsText (text : List UInt8) (entries : List LogEntry) : Prop
  | whole (h : { key := ascii "msg", value := .text text } ∈ entries)
  | split {func rest : List UInt8} {separator : UInt8}
      (htext : text = func ++ colon :: separator :: rest)
      (hfunc : { key := ascii "func", value := .text func } ∈ entries)
      (hrest : { key := ascii "msg", value := .text rest } ∈ entries)

/-- A packet was sent with one map that holds a beginning of the text, and each string encoder was
given the distance between its pointers. -/
def SendsPrefix (profile : Profile) (config : LogConfig) (msg : LogMsg) (run : ℤ × LogCtx) : Prop :=
  (∃ entries, Sends profile entries run ∧
    (msg.package ≠ [] → ∃ text, text <+: config.format msg.package ∧ HoldsText text entries)) ∧
  ∀ call ∈ run.2.calls, call.IsDistance

section Cut

variable {z : Zephyr} {lib : ZcborInPlace} {layout : InPlaceLayout} {config : LogConfig}
  {token : FullToken} {id : UInt16} {msg : LogMsg} {ctx : LogCtx} {room : ℕ} {profile : Profile}

theorem holdsText_packageEntries (hpackage : msg.package ≠ []) (hcut : ¬ EndsAtColon config msg room) :
    HoldsText (keptText config msg room) (packageEntries config msg room) := by
  rw [packageEntries, if_neg hpackage]
  split
  · next hprefix =>
    rcases keptText_cases config msg room with hnone | hends | ⟨func, separator, rest, hnone, heq⟩
    · rw [splitEntries_of_not_mem hnone]
      exact .whole (List.mem_singleton_self _)
    · exact absurd ⟨hpackage, hprefix, hends⟩ hcut
    · rw [heq, splitEntries_append hnone]
      exact .split rfl (List.mem_cons_self ..) (List.mem_cons_of_mem _ (List.mem_singleton_self _))
  · exact .whole (List.mem_singleton_self _)

theorem HoldsText.mono {text : List UInt8} {entries entries' : List LogEntry}
    (h : HoldsText text entries) (hsubset : entries ⊆ entries') : HoldsText text entries' := by
  cases h with
  | whole h => exact .whole (hsubset h)
  | split htext hfunc hrest => exact .split htext (hsubset hfunc) (hsubset hrest)

/-- Recorded calls stay recorded. -/
theorem mem_calls_orFinish {call : StringCall} {result : ℤ × LogCtx} {next : LogCtx → ℤ × LogCtx}
    (hresult : call ∈ result.2.calls) (hnext : ∀ ctx, call ∈ ctx.calls → call ∈ (next ctx).2.calls) :
    call ∈ (orFinish result next).2.calls := by
  rw [orFinish]
  split
  · exact hnext _ hresult
  · exact hresult

theorem mem_calls_encodeData {call : StringCall} (hcall : call ∈ ctx.calls) :
    call ∈ (encodeData lib msg ctx).2.calls := by
  rw [encodeData]
  split
  · exact hcall
  have hprepared (ctx : LogCtx) : (logPduPrepare ctx).2.calls = ctx.calls := by
    rw [logPduPrepare, logPduPrepareExt]
    dsimp only
    split <;> rfl
  refine mem_calls_orFinish ?_ fun ctx hcall => List.mem_append_left _ hcall
  rw [hprepared]
  exact hcall

/-- **A text that ends with its first colon.** A string encoder is not given a distance. -/
theorem not_sendsPrefix_of_endsAtColon (hlib : InPlaceContract lib layout)
    (hfit : HeadersFit z layout config token id msg ctx.msgIndex)
    (hends : EndsAtColon config msg (textRoom z layout config token id msg ctx.msgIndex)) :
    ¬ SendsPrefix profile config msg (logMsgProcess z lib config token id msg ctx) := by
  rintro ⟨-, hdistances⟩
  have hsize := config.maxPacketSize_lt
  obtain ⟨ctx₁, hat⟩ := @exists_atText z lib layout config token id msg
    { ctx with calls := [], sent := [] } hlib hfit
  obtain ⟨call, hcall, hbad⟩ := exists_call_encodePackage hlib hat.room
    (by rw [hat.payloadEnd]; exact hsize) hat.fits hends
  refine hbad (hdistances call ?_)
  rw [logMsgProcess, hat.run]
  refine mem_calls_orFinish hcall fun ctx hcall => ?_
  -- neither the end of the map nor the packet takes a call back
  refine mem_calls_orFinish (mem_calls_encodeData hcall) fun ctx hcall => ?_
  exact mem_calls_orFinish hcall fun ctx hcall => mem_calls_orFinish hcall fun _ hcall => hcall

/-- **A text that leaves too little room for the data.** Nothing is sent. -/
theorem not_sendsPrefix_of_dataRoom_lt (hlib : InPlaceContract lib layout)
    (hfit : HeadersFit z layout config token id msg ctx.msgIndex)
    (hcut : ¬ EndsAtColon config msg (textRoom z layout config token id msg ctx.msgIndex))
    (hdata : msg.data ≠ [])
    (hfull : dataRoom z layout config token id msg ctx.msgIndex < 16) :
    ¬ SendsPrefix profile config msg (logMsgProcess z lib config token id msg ctx) := by
  rintro ⟨⟨entries, ⟨packet, hsent, -⟩, -⟩, -⟩
  have hsize := config.maxPacketSize_lt
  obtain ⟨ctx₁, hat⟩ := @exists_atText z lib layout config token id msg
    { ctx with calls := [], sent := [] } hlib hfit
  have htext : textRoom z layout config token id msg ctx.msgIndex =
      ctx₁.zse.payloadEnd - ctx₁.zse.payload := hat.room
  have hend := hat.payloadEnd
  obtain ⟨ctx₂, heq₂, happends₂⟩ := appends_encodePackage hlib htext (by omega) hat.fits hcut
  have hroom₂ := happends₂.payload
  have hend₂ := happends₂.payloadEnd
  rw [dataRoom] at hfull
  obtain ⟨hne, hnone⟩ := @encodeData_full lib layout msg ctx₂ hlib hdata (by omega)
  have hsent₂ : ctx₂.sent = [] := happends₂.sent.trans hat.puts.sent
  have hrun : (logMsgProcess z lib config token id msg ctx).2.sent = [] := by
    rw [logMsgProcess, hat.run, heq₂, orFinish_zero, encodeRest, orFinish, if_neg hne]
    exact hnone.trans hsent₂
  rw [hrun] at hsent
  exact List.cons_ne_nil _ _ hsent.symm

/-- **Messages that are cut.** If the CoAP header, the header fields and what is reserved for the text
fit the packet, a beginning of the text is sent, and string encoders are given distances, if and only
if the text does not end with its first colon and leaves sixteen bytes for the data. -/
theorem sendsPrefix_iff (hz : z.WritingContract) (hroom : z.RoomContract)
    (hpayload : z.PayloadContract) (hlib : InPlaceContract lib layout)
    (hfit : HeadersFit z layout config token id msg ctx.msgIndex) :
    SendsPrefix layout.profile config msg (logMsgProcess z lib config token id msg ctx) ↔
      ¬ EndsAtColon config msg (textRoom z layout config token id msg ctx.msgIndex) ∧
        (msg.data ≠ [] → 16 ≤ dataRoom z layout config token id msg ctx.msgIndex) := by
  constructor
  · intro hsends
    have hcut : ¬ EndsAtColon config msg (textRoom z layout config token id msg ctx.msgIndex) :=
      fun hends => not_sendsPrefix_of_endsAtColon hlib hfit hends hsends
    refine ⟨hcut, fun hdata => ?_⟩
    by_contra hfull
    exact not_sendsPrefix_of_dataRoom_lt hlib hfit hcut hdata (not_le.mp hfull) hsends
  · rintro ⟨hcut, hdata⟩
    obtain ⟨packet, -, hsent, hposts, hdistances⟩ :=
      logMsgProcess_posts hz hroom hpayload hlib hfit hcut hdata
    refine ⟨⟨_, ⟨packet, hsent, hposts⟩, fun hpackage =>
      ⟨keptText config msg (textRoom z layout config token id msg ctx.msgIndex),
        keptText_prefix config msg _, ?_⟩⟩, hdistances⟩
    exact (holdsText_packageEntries hpackage hcut).mono fun _ hentry =>
      List.mem_append_right _ (List.mem_append_left _ hentry)

end Cut

/-- A message that fits. -/
theorem sendsPrefix_iff_sample :
    SendsPrefix Reference.profile sampleConfig (sampleMsg (ascii "f: go") [1, 2])
        (logMsgProcess Reference.zephyr Reference.inPlace sampleConfig sampleToken 0
          (sampleMsg (ascii "f: go") [1, 2]) sampleCtx) ↔
      ¬ EndsAtColon sampleConfig (sampleMsg (ascii "f: go") [1, 2])
          (textRoom Reference.zephyr Reference.inPlaceLayout sampleConfig sampleToken 0
            (sampleMsg (ascii "f: go") [1, 2]) 0) ∧
        ((sampleMsg (ascii "f: go") [1, 2]).data ≠ [] →
          16 ≤ dataRoom Reference.zephyr Reference.inPlaceLayout sampleConfig sampleToken 0
            (sampleMsg (ascii "f: go") [1, 2]) 0) :=
  @sendsPrefix_iff _ _ _ sampleConfig sampleToken 0 (sampleMsg (ascii "f: go") [1, 2]) sampleCtx
    Reference.writingContract Reference.roomContract Reference.payloadContract
    Reference.inPlaceContract (headersFit_sample _ _)

/-- A message that is cut right behind its first colon. -/
def cutMsg : LogMsg := sampleMsg (List.replicate 25 97 ++ ascii ": go") []

/-- A message whose text leaves thirteen bytes for its data. -/
def crowdedMsg : LogMsg := sampleMsg (ascii "f: " ++ List.replicate 23 97) [1]

/-- Neither is sent as it should. -/
theorem cutMsg_not_sendsPrefix :
    (HeadersFit Reference.zephyr Reference.inPlaceLayout sampleConfig sampleToken 0 cutMsg 0 ∧
      ¬ SendsPrefix Reference.profile sampleConfig cutMsg
        (logMsgProcess Reference.zephyr Reference.inPlace sampleConfig sampleToken 0 cutMsg
          sampleCtx)) ∧
    HeadersFit Reference.zephyr Reference.inPlaceLayout sampleConfig sampleToken 0 crowdedMsg 0 ∧
      ¬ SendsPrefix Reference.profile sampleConfig crowdedMsg
        (logMsgProcess Reference.zephyr Reference.inPlace sampleConfig sampleToken 0 crowdedMsg
          sampleCtx) := by
  have hcut : EndsAtColon sampleConfig cutMsg (textRoom Reference.zephyr Reference.inPlaceLayout
      sampleConfig sampleToken 0 cutMsg 0) :=
    ⟨by decide, by decide, List.replicate 25 97, by decide, by decide⟩
  refine ⟨⟨headersFit_sample _ _, ?_⟩, headersFit_sample _ _, ?_⟩
  · exact not_sendsPrefix_of_endsAtColon Reference.inPlaceContract (headersFit_sample _ _) hcut
  · have hkept : keptText sampleConfig crowdedMsg (textRoom Reference.zephyr Reference.inPlaceLayout
        sampleConfig sampleToken 0 crowdedMsg 0) =
          ascii "f" ++ colon :: 32 :: List.replicate 23 97 := by decide
    exact not_sendsPrefix_of_dataRoom_lt Reference.inPlaceContract (headersFit_sample _ _)
      (not_endsAtColon_of_append hkept) (by decide) (by decide)

end Golioth.Logging
