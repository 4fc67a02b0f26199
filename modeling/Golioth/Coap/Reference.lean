/-
# A CoAP library that meets the contracts

Zephyr's functions written out for the packets this client builds and receives:
options in ascending order, and Block2 in responses. It meets every contract,
so that the results that assume them are not about nothing, and it is what the
concrete runs of this development use.
-/
import Golioth.CS.OptionFormat
import Golioth.Coap.Utils

namespace Golioth.Coap

namespace Reference

open CS

/-! ## The functions -/

/-- The bytes of an unsigned integer, as few as it takes. -/
def intBytes (value : ℕ) : List UInt8 :=
  if value = 0 then []
  else if value < 2 ^ 8 then [UInt8.ofNat value]
  else if value < 2 ^ 16 then [UInt8.ofNat (value / 2 ^ 8), UInt8.ofNat (value % 2 ^ 8)]
  else if value < 2 ^ 24 then
    [UInt8.ofNat (value / 2 ^ 16), UInt8.ofNat (value / 2 ^ 8 % 2 ^ 8),
      UInt8.ofNat (value % 2 ^ 8)]
  else
    [UInt8.ofNat (value / 2 ^ 24), UInt8.ofNat (value / 2 ^ 16 % 2 ^ 8),
      UInt8.ofNat (value / 2 ^ 8 % 2 ^ 8), UInt8.ofNat (value % 2 ^ 8)]

/-- The unsigned integer some bytes stand for. -/
def bytesInt (bytes : List UInt8) : ℕ := bytes.foldl (fun n byte => n * 256 + byte.toNat) 0

/-- Append bytes if they fit. -/
def append (packet : CoapPacket) (bytes : List UInt8) : ℤ × CoapPacket :=
  if packet.maxLen < packet.offset + bytes.length then (-Errno.einval, packet)
  else (0, { packet with data := packet.data ++ bytes })

def coapPacketInit (maxLen : ℕ) (type : MsgType) (token : Token) (code : UInt8)
    (id : UInt16) : ℤ × CoapPacket :=
  append { data := [], maxLen := maxLen, hdrLen := 4 + token.1.length, optLen := 0, delta := 0 }
    (Zephyr.headerBytes type token code id)

def coapPacketAppendOption (packet : CoapPacket) (option : OptionNum) (value : List UInt8) :
    ℤ × CoapPacket :=
  if option.value < packet.delta ∨ OptionFormat.limit ≤ value.length then (-Errno.einval, packet)
  else
    let bytes := OptionFormat.encode (option.value - packet.delta) value
    let appended := append packet bytes
    if appended.1 ≠ 0 then appended
    else (0, { appended.2 with optLen := packet.optLen + bytes.length, delta := option.value })

def coapAppendOptionInt (packet : CoapPacket) (option : OptionNum) (value : ℕ) :
    ℤ × CoapPacket :=
  coapPacketAppendOption packet option (intBytes value)

def coapAppendBlock2Option (packet : CoapPacket) (context : BlockContext) : ℤ × CoapPacket :=
  coapAppendOptionInt packet .block2
    (blockValue (context.current / coapBlockSizeToBytes context.blockSize) false
      context.blockSize)

def coapUpdateFromBlock (rx : RxPacket) (context : BlockContext) : ℤ × BlockContext :=
  let block := coapGetOptionInt rx .block2
  let size := Zephyr.announcedTotal rx
  let current := blockNum block * coapBlockSizeToBytes (blockSzx block)
  if coapGetOptionInt rx .block1 ≠ -Errno.enoent then (-Errno.einval, context)
  else if block = -Errno.enoent then (0, context)
  else if size ≠ 0 ∧ context.totalSize ≠ 0 ∧ context.totalSize ≠ size then
    (-Errno.einval, context)
  else if 0 < context.current ∧ context.blockSize < blockSzx block then
    (-Errno.einval, context)
  else if context.totalSize ≠ 0 ∧ context.totalSize < current then (-Errno.einval, context)
  else
    (0,
      { totalSize := if size ≠ 0 then size else context.totalSize
        current := current
        blockSize := min (blockSzx block) context.blockSize })

def coapNextBlockForOption (rx : RxPacket) (context : BlockContext) (option : OptionNum) :
    ℤ × BlockContext :=
  let block := coapGetOptionInt rx option
  if option ≠ .block1 ∧ option ≠ .block2 then (-Errno.einval, context)
  else if block < 0 then (block, context)
  else if 0 < context.totalSize ∧ context.totalSize < context.current + rx.payload.length then
    (-Errno.emsgsize, context)
  else
    let current := context.current + rx.payload.length
    (if blockMore block then (current : ℤ) else 0, { context with current := current })

/-- The library. -/
def zephyr : Zephyr where
  coapPacketInit := coapPacketInit
  coapPacketAppendOption := coapPacketAppendOption
  coapAppendOptionInt := coapAppendOptionInt
  coapAppendBlock2Option := coapAppendBlock2Option
  coapPacketAppendPayloadMarker packet := append packet [255]
  coapPacketAppendPayload := append
  coapUpdateFromBlock := coapUpdateFromBlock
  coapNextBlockForOption := coapNextBlockForOption

/-! ## The contracts -/

theorem prefix_append (packet : CoapPacket) (bytes : List UInt8) :
    packet.data <+: (append packet bytes).2.data := by
  unfold append
  split
  · exact List.prefix_rfl
  · exact List.prefix_append _ _

theorem data_append {packet : CoapPacket} {bytes : List UInt8} (hok : (append packet bytes).1 = 0) :
    (append packet bytes).2.data = packet.data ++ bytes := by
  unfold append at hok ⊢
  split at hok
  · exact absurd hok (show -Errno.einval ≠ 0 by decide)
  · next hfits => rw [if_neg hfits]

theorem prefix_coapPacketAppendOption (packet : CoapPacket) (option : OptionNum)
    (value : List UInt8) : packet.data <+: (coapPacketAppendOption packet option value).2.data := by
  unfold coapPacketAppendOption
  split
  · exact List.prefix_rfl
  · dsimp only
    split <;> exact prefix_append _ _

theorem headerContract : zephyr.HeaderContract where
  init maxLen type token code id hok := by
    change (append _ _).1 = 0 at hok
    exact (data_append hok).trans (List.nil_append _)
  appendOption packet option value :=
    (List.take_prefix _ _).trans (prefix_coapPacketAppendOption packet option value)
  appendOptionInt packet option value :=
    (List.take_prefix _ _).trans (prefix_coapPacketAppendOption packet option _)
  appendBlock2 packet context :=
    (List.take_prefix _ _).trans (prefix_coapPacketAppendOption packet .block2 _)
  appendPayloadMarker packet := (List.take_prefix _ _).trans (prefix_append packet _)
  appendPayload packet payload := (List.take_prefix _ _).trans (prefix_append packet payload)

theorem updateContract : zephyr.UpdateContract := by
  intro rx context _ hwf hok
  change (coapUpdateFromBlock rx context).1 = 0 at hok
  change (coapUpdateFromBlock rx context).2 = _
  have hpresent : coapGetOptionInt rx .block2 ≠ -Errno.enoent := by
    have := hwf.nonneg
    have : -Errno.enoent < 0 := by decide
    omega
  have hfailed : -Errno.einval ≠ 0 := by decide
  unfold coapUpdateFromBlock at hok ⊢
  simp only [hwf.no_block1, hpresent, ne_eq, not_true_eq_false, if_false] at hok ⊢
  split_ifs at hok ⊢
  all_goals first | rfl | exact absurd hok hfailed

theorem acceptContract : zephyr.AcceptContract := by
  intro rx context _ hwf hsize htotal hcurrent
  change (coapUpdateFromBlock rx context).1 = 0
  have hpresent : coapGetOptionInt rx .block2 ≠ -Errno.enoent := by
    have := hwf.nonneg
    have : -Errno.enoent < 0 := by decide
    omega
  rw [blockStart] at hcurrent
  unfold coapUpdateFromBlock
  dsimp only
  rw [if_neg (not_not.mpr hwf.no_block1), if_neg hpresent, if_neg, if_neg, if_neg]
  · rintro ⟨hknown, hlt⟩
    exact absurd (hcurrent.resolve_left hknown) (not_le.mpr hlt)
  · rintro ⟨hpos, hlt⟩
    exact absurd (hsize hpos) (not_le.mpr hlt)
  · rintro ⟨hannounced, hknown, hne⟩
    rcases htotal with h | h | h
    · exact hknown h
    · exact hannounced h
    · exact hne h.symm

theorem firstBlockContract : zephyr.FirstBlockContract := by
  intro rx context _ hblock hnum hok
  change (coapUpdateFromBlock rx context).1 = 0 at hok
  change (coapUpdateFromBlock rx context).2.current = 0
  have hpresent : coapGetOptionInt rx .block2 ≠ -Errno.enoent := by
    have : -Errno.enoent < 0 := by decide
    omega
  have hfailed : -Errno.einval ≠ 0 := by decide
  unfold coapUpdateFromBlock at hok ⊢
  simp only [hpresent, hnum, if_false, zero_mul] at hok ⊢
  split_ifs at hok ⊢
  all_goals first | rfl | exact absurd hok hfailed

theorem nextBlockContract : zephyr.NextBlockContract where
  overrun rx context hblock hoverruns := by
    have hrun : coapNextBlockForOption rx context .block2 = (-Errno.emsgsize, context) := by
      rw [coapNextBlockForOption, if_neg (by simp), if_neg (not_lt.mpr hblock),
        if_pos (show 0 < context.totalSize ∧ _ from hoverruns)]
    change (coapNextBlockForOption rx context .block2).1 < 0 ∧
      (coapNextBlockForOption rx context .block2).2 = context
    rw [hrun]
    exact ⟨show -Errno.emsgsize < 0 by decide, rfl⟩
  advance rx context hblock hfits := by
    change (coapNextBlockForOption rx context .block2).2 = _
    rw [coapNextBlockForOption, if_neg (by simp), if_neg (not_lt.mpr hblock),
      if_neg (show ¬ (0 < context.totalSize ∧ _) from hfits)]
  last rx context hblock hfits hmore := by
    change (coapNextBlockForOption rx context .block2).1 = _
    rw [coapNextBlockForOption, if_neg (by simp), if_neg (not_lt.mpr hblock),
      if_neg (show ¬ (0 < context.totalSize ∧ _) from hfits), hmore]
    rfl
  more rx context hblock hfits hmore := by
    change (coapNextBlockForOption rx context .block2).1 = _
    rw [coapNextBlockForOption, if_neg (by simp), if_neg (not_lt.mpr hblock),
      if_neg (show ¬ (0 < context.totalSize ∧ _) from hfits), hmore]
    rfl

/-! ## Reading a request -/

/-- The block number and the size exponent of a block option, which has at most
three bytes. -/
def readBlock (value : List UInt8) : Option (ℕ × ℕ) :=
  if value.length ≤ 3 then some (blockNum (bytesInt value), blockSzx (bytesInt value)) else none

/-- The block a request names: the Block2 option among its options. -/
def named (data : List UInt8) : Option (ℕ × ℕ) :=
  (OptionFormat.decode data.length 0 (data.drop Zephyr.headerLen)).bind fun entries =>
    (entries.lookup OptionNum.block2.value).bind readBlock

theorem bytesInt_intBytes {value : ℕ} (hlt : value < 2 ^ 32) :
    bytesInt (intBytes value) = value := by
  have htoNat : ∀ n : ℕ, (UInt8.ofNat n).toNat = n % 256 := fun n => UInt8.toNat_ofNat'
  unfold intBytes
  split_ifs <;> simp only [bytesInt, List.foldl_cons, List.foldl_nil, htoNat] <;> omega

theorem length_intBytes_le_iff (value : ℕ) : (intBytes value).length ≤ 3 ↔ value < 2 ^ 24 := by
  unfold intBytes
  split_ifs <;> simp <;> omega

/-- How a request without payload is laid out: a header, and options up to the
one the `delta` of the packet says. -/
structure Layout (entries : List OptionFormat.Entry) (packet : CoapPacket) : Prop where
  header : Zephyr.headerLen ≤ packet.data.length
  options : packet.data.drop Zephyr.headerLen = OptionFormat.encodeAll 0 entries
  encodable : OptionFormat.Encodable 0 entries
  delta : packet.delta = OptionFormat.lastNumber 0 entries

theorem named_of_layout {entries : List OptionFormat.Entry} {packet : CoapPacket}
    (h : Layout entries packet) :
    named packet.data = (entries.lookup OptionNum.block2.value).bind readBlock := by
  have hfuel : entries.length ≤ packet.data.length := by
    have hle := OptionFormat.length_le_length_encodeAll 0 entries
    rw [← h.options, List.length_drop] at hle
    omega
  rw [named, h.options, OptionFormat.decode_encodeAll h.encodable hfuel, Option.bind_some]

theorem layout_appendOption {entries : List OptionFormat.Entry} {packet : CoapPacket}
    (h : Layout entries packet) {option : OptionNum} {value : List UInt8}
    (hok : (coapPacketAppendOption packet option value).1 = 0) :
    Layout (entries ++ [(option.value, value)]) (coapPacketAppendOption packet option value).2 := by
  have hfailed : -Errno.einval ≠ 0 := by decide
  have hvalue : option.value < OptionFormat.limit := by cases option <;> decide
  unfold coapPacketAppendOption at hok ⊢
  split at hok
  · exact absurd hok hfailed
  · next hfits =>
    rw [if_neg hfits]
    rw [not_or, not_lt, not_le] at hfits
    dsimp only at hok ⊢
    split at hok
    · next hne => exact absurd hok hne
    · next happended =>
      rw [if_neg happended]
      have happended := not_not.mp happended
      unfold append at happended ⊢
      split at happended
      · exact absurd happended hfailed
      · next hroom =>
        rw [if_neg hroom]
        refine ⟨?_, ?_, ?_, by simp⟩
        · have := h.header
          simp only [List.length_append]
          omega
        · rw [List.drop_append_of_le_length h.header, h.options,
            OptionFormat.encodeAll_append_singleton, h.delta]
        · exact OptionFormat.encodable_append_singleton h.encodable (h.delta ▸ hfits.1) hvalue
            hfits.2

theorem append_of_ne {packet : CoapPacket} {bytes : List UInt8}
    (hne : (append packet bytes).1 ≠ 0) : (append packet bytes).2 = packet := by
  unfold append at hne ⊢
  split at hne
  · next h => rw [if_pos h]
  · exact absurd rfl hne

theorem coapPacketAppendOption_of_ne {packet : CoapPacket} {option : OptionNum}
    {value : List UInt8} (hne : (coapPacketAppendOption packet option value).1 ≠ 0) :
    (coapPacketAppendOption packet option value).2 = packet := by
  unfold coapPacketAppendOption at hne ⊢
  split at hne
  · next h => rw [if_pos h]
  · next h =>
    rw [if_neg h]
    dsimp only at hne ⊢
    split at hne
    · next h' =>
      rw [if_pos h']
      exact append_of_ne h'
    · exact absurd rfl hne

private theorem layout_coapPacketInit {maxLen : ℕ} {type : MsgType} {token : Token}
    {code : UInt8} {id : UInt16} (htoken : token.1.length = tokenMaxLen)
    (hok : (coapPacketInit maxLen type token code id).1 = 0) :
    Layout [] (coapPacketInit maxLen type token code id).2 := by
  have hlength : (Zephyr.headerBytes type token code id).length = Zephyr.headerLen := by
    rw [Zephyr.headerBytes, List.length_append, htoken]
    rfl
  have hdata := headerContract.init maxLen type token code id hok
  change (coapPacketInit maxLen type token code id).2.data = _ at hdata
  refine ⟨by rw [hdata, hlength], ?_, trivial, ?_⟩
  · rw [hdata, List.drop_of_length_le hlength.le]
    rfl
  · unfold coapPacketInit append
    split <;> rfl

private theorem layout_coapPacketSetId {entries : List OptionFormat.Entry}
    {packet : CoapPacket} (h : Layout entries packet) (id : UInt16) :
    Layout entries (coapPacketSetId packet id) where
  header := by simpa [coapPacketSetId] using h.header
  options := by
    have hdrop : (coapPacketSetId packet id).data.drop Zephyr.headerLen =
        packet.data.drop Zephyr.headerLen := by
      rw [coapPacketSetId, List.drop_set_of_lt (by decide), List.drop_set_of_lt (by decide)]
    rw [hdrop, h.options]
  encodable := h.encodable
  delta := h.delta

private theorem lookup_append_option {entries : List OptionFormat.Entry}
    (hnone : entries.lookup OptionNum.block2.value = none) {option : OptionNum}
    (hlt : option.value < OptionNum.block2.value) (value : List UInt8) :
    (entries ++ [(option.value, value)]).lookup OptionNum.block2.value = none := by
  have hne : (OptionNum.block2.value == option.value) = false := by
    rw [beq_eq_false_iff_ne]
    omega
  rw [List.lookup_append, hnone, Option.none_or, List.lookup_cons, hne]
  rfl

private theorem layout_of_assembled {payload : Bool} {packet : CoapPacket}
    (h : Assembled zephyr payload packet) (hpayload : payload = false) :
    ∃ entries, Layout entries packet ∧ entries.lookup OptionNum.block2.value = none := by
  induction h with
  | init htoken hok => exact ⟨[], layout_coapPacketInit htoken hok, rfl⟩
  | appendOption _ hoption hok ih =>
    obtain ⟨entries, hlayout, hnone⟩ := ih rfl
    exact ⟨_, layout_appendOption hlayout hok, lookup_append_option hnone hoption _⟩
  | appendOptionInt _ hoption hok ih =>
    obtain ⟨entries, hlayout, hnone⟩ := ih rfl
    exact ⟨_, layout_appendOption hlayout hok, lookup_append_option hnone hoption _⟩
  | appendPayloadMarker _ _ => cases hpayload
  | appendPayload _ _ => cases hpayload
  | setId id _ ih =>
    obtain ⟨entries, hlayout, hnone⟩ := ih hpayload
    exact ⟨entries, layout_coapPacketSetId hlayout id, hnone⟩

private theorem named_appendBlock2 {packet : CoapPacket} {context : BlockContext}
    (h : Assembled zephyr false packet)
    (hok : (zephyr.coapAppendBlock2Option packet context).1 = 0) :
    named (zephyr.coapAppendBlock2Option packet context).2.data =
      readBlock (intBytes (blockValue
        (context.current / coapBlockSizeToBytes context.blockSize) false
        context.blockSize)) := by
  obtain ⟨entries, hlayout, hnone⟩ := layout_of_assembled h rfl
  change named (coapPacketAppendOption packet .block2 _).2.data = _
  rw [named_of_layout (layout_appendOption hlayout hok), List.lookup_append, hnone,
    Option.none_or, List.lookup_cons, beq_self_eq_true, Option.bind_some]

theorem namingContract : NamingContract zephyr named where
  plain packet h := by
    obtain ⟨entries, hlayout, hnone⟩ := layout_of_assembled h rfl
    rw [named_of_layout hlayout, hnone]
    rfl
  keeps packet context _ := prefix_coapPacketAppendOption packet .block2 _
  appended packet context h hsize hnum hok := by
    have hvalue : blockValue (context.current / coapBlockSizeToBytes context.blockSize) false
        context.blockSize < 2 ^ 24 := by
      rw [blockValue]
      simp only [Bool.false_eq_true, if_false]
      omega
    rw [named_appendBlock2 h hok, readBlock, if_pos ((length_intBytes_le_iff _).mpr hvalue),
      bytesInt_intBytes (by omega), blockNum_blockValue (by omega), blockSzx_blockValue (by omega)]
  tooLong packet context h hnum hok := by
    have hvalue : ¬ blockValue (context.current / coapBlockSizeToBytes context.blockSize) false
        context.blockSize < 2 ^ 24 := by
      rw [blockValue]
      simp only [Bool.false_eq_true, if_false]
      omega
    rw [named_appendBlock2 h hok, readBlock, if_neg (mt (length_intBytes_le_iff _).mp hvalue)]
  failed packet context h hfailed := by
    obtain ⟨entries, hlayout, hnone⟩ := layout_of_assembled h rfl
    have hsame : (zephyr.coapAppendBlock2Option packet context).2 = packet :=
      coapPacketAppendOption_of_ne hfailed
    rw [hsame, named_of_layout hlayout, hnone]
    rfl

end Reference

end Golioth.Coap
