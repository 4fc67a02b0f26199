/-
# Datagrams

`golioth_process_rx` hands to the request module what fits in the receive buffer. Of
a response that is longer the head is there and a part of the payload is missing, and
the response handler does not know. This file says what the handler decides on a block
of which only a part has arrived.
-/
import Golioth.Requests.Blockwise

namespace Golioth.Requests

open Golioth.Coap

variable {κ σ : Type} {e : Env κ σ} {c : Client κ σ} {req : CoapReq κ} {rx : RxPacket}

/-! ## Receiving -/

/-- What `golioth_process_rx` calls, and whether `CONFIG_GOLIOTH_RECV_USE_MSG_TRUNC` is
set: `recv` then returns the length of the datagram, and otherwise of what it copied. -/
structure Receiver where
  coapPacketParse : List UInt8 → Except ℤ RxPacket
  goliothAckPacket : RxPacket → ℤ
  recvUseMsgTrunc : Bool

/-- `coap_data_check_rx_packet_type`. -/
def coapDataCheckRxPacketType (data : List UInt8) : ℤ :=
  if data.length < 4 then -Errno.einval
  else
    let tkl := (data.getD 0 0).toNat % 16
    if 8 < tkl then -Errno.einval
    else if tkl = 0 ∧ data.length = 4 ∧ (data.getD 0 0).toNat / 16 % 4 = MsgType.con.bits ∧
        data.getD 1 0 = codeEmpty then
      -- an empty packet
      -Errno.enomsg
    else 0

/-- `golioth_process_rx_ping`. -/
def goliothProcessRxPing (r : Receiver) (data : List UInt8) (c : Client κ σ) : ℤ × Client κ σ :=
  match r.coapPacketParse data with
  | .error err => (err, c)
  | .ok rx => (r.goliothAckPacket rx, c)

/-- `golioth_process_rx_data`. The acknowledgement of a confirmable packet does not
concern the requests, and its result is ignored. -/
def goliothProcessRxData (e : Env κ σ) (r : Receiver) (data : List UInt8) (c : Client κ σ) :
    ℤ × Client κ σ :=
  match r.coapPacketParse data with
  | .error err => (err, c)
  | .ok rx => (0, coapReqProcessRx e rx c)

/-- `golioth_recv` with a buffer of the given length, when a datagram is waiting at an open
socket: the bytes it copies, and the length it returns. -/
def goliothRecv (r : Receiver) (len : ℕ) (datagram : List UInt8) : List UInt8 × ℕ :=
  (datagram.take len, if r.recvUseMsgTrunc then datagram.length else (datagram.take len).length)

/-- `golioth_process_rx`, when a datagram is waiting. -/
def goliothProcessRx (e : Env κ σ) (r : Receiver) (datagram : List UInt8) (c : Client κ σ) :
    ℤ × Client κ σ :=
  let received := goliothRecv r e.config.rxBufferLen datagram
  if received.2 = 0 then (-Errno.enotconn, c)
  else
    -- a packet that was truncated is as long as the buffer
    let ret := if e.config.rxBufferLen < received.2 then e.config.rxBufferLen else received.2
    let data := received.1.take ret
    let err := coapDataCheckRxPacketType data
    if err = -Errno.enomsg then goliothProcessRxPing r data c
    else if err ≠ 0 then (err, c)
    else goliothProcessRxData e r data c

section Receiving

variable {r : Receiver} {datagram head : List UInt8}

theorem le_goliothRecv (r : Receiver) (len : ℕ) (datagram : List UInt8) :
    (datagram.take len).length ≤ (goliothRecv r len datagram).2 := by
  rw [goliothRecv]
  dsimp only
  split
  · rw [List.length_take]
    exact min_le_right _ _
  · exact le_rfl

/-- What is looked at is what fits in the buffer, whatever length is returned. -/
theorem goliothProcessRx_eq (e : Env κ σ) (r : Receiver) (datagram : List UInt8)
    (c : Client κ σ) :
    goliothProcessRx e r datagram c =
      if (goliothRecv r e.config.rxBufferLen datagram).2 = 0 then (-Errno.enotconn, c)
      else
        let data := datagram.take e.config.rxBufferLen
        let err := coapDataCheckRxPacketType data
        if err = -Errno.enomsg then goliothProcessRxPing r data c
        else if err ≠ 0 then (err, c)
        else goliothProcessRxData e r data c := by
  have hle := le_goliothRecv r e.config.rxBufferLen datagram
  have hbuffer : (goliothRecv r e.config.rxBufferLen datagram).1 =
      datagram.take e.config.rxBufferLen := rfl
  have hdata : (datagram.take e.config.rxBufferLen).take
      (if e.config.rxBufferLen < (goliothRecv r e.config.rxBufferLen datagram).2
        then e.config.rxBufferLen else (goliothRecv r e.config.rxBufferLen datagram).2) =
      datagram.take e.config.rxBufferLen := by
    apply List.take_of_length_le
    split
    · exact List.length_take_le _ _
    · exact hle
  rw [goliothProcessRx]
  dsimp only
  rw [hbuffer, hdata]

/-- A datagram changes nothing, or what fits of it is a packet that is processed. -/
theorem goliothProcessRx_cases (e : Env κ σ) (r : Receiver) (datagram : List UInt8)
    (c : Client κ σ) :
    (goliothProcessRx e r datagram c).2 = c ∨
      ∃ rx, r.coapPacketParse (datagram.take e.config.rxBufferLen) = .ok rx ∧
        (goliothProcessRx e r datagram c).2 = coapReqProcessRx e rx c := by
  rw [goliothProcessRx_eq]
  split
  · exact .inl rfl
  · dsimp only
    split
    · refine .inl ?_
      rw [goliothProcessRxPing]
      split <;> rfl
    · split
      · exact .inl rfl
      · rw [goliothProcessRxData]
        split
        · exact .inl rfl
        · next rx hparse => exact .inr ⟨rx, hparse, rfl⟩

/-- How a response is laid out in a datagram: a head, which ends with the payload marker if
there is a payload, and the payload; and what `coap_packet_parse` makes of as much of it as
there is room for. If part of the payload fits, or there is none and the head fits, that is
what is parsed. If less fits and can still be parsed, it has some of the options, and there
is no payload; a marker that nothing follows need not be accepted. -/
structure Carries (r : Receiver) (head : List UInt8) (rx : RxPacket) : Prop where
  header : Zephyr.headerBytes rx.type rx.token rx.code rx.id <+: head
  longer : 4 < head.length
  whole : ∀ room, head.length < room ∨ rx.payload = [] ∧ head.length = room →
    r.coapPacketParse ((head ++ rx.payload).take room) =
      .ok { rx with payload := rx.payload.take (room - head.length) }
  cut : ∀ room ≤ head.length, ∀ rx', r.coapPacketParse ((head ++ rx.payload).take room) = .ok rx' →
    ∃ count, rx' = { rx with options := rx.options.take count, payload := [] }

/-- A response whose head is there is not taken for a ping. -/
theorem Carries.checked (h : Carries r head rx) {room : ℕ} (hroom : head.length ≤ room) :
    coapDataCheckRxPacketType ((head ++ rx.payload).take room) = 0 := by
  obtain ⟨rest, rfl⟩ := h.header
  have hlonger := h.longer
  have htoken : rx.token.1.length ≤ 8 := rx.token.2
  have hbits : rx.type.bits ≤ 3 := by cases rx.type <;> decide
  obtain ⟨room, rfl⟩ : ∃ n, room = n + 1 := ⟨room - 1, by omega⟩
  have hfirst : (((Zephyr.headerBytes rx.type rx.token rx.code rx.id ++ rest) ++
      rx.payload).take (room + 1)).getD 0 0 =
        UInt8.ofNat (64 + 16 * rx.type.bits + rx.token.1.length) := rfl
  have htkl : (UInt8.ofNat (64 + 16 * rx.type.bits + rx.token.1.length)).toNat % 16 =
      rx.token.1.length := by
    rw [UInt8.toNat_ofNat']
    omega
  have hlen : 4 < (((Zephyr.headerBytes rx.type rx.token rx.code rx.id ++ rest) ++
      rx.payload).take (room + 1)).length := by
    rw [List.length_take, List.length_append]
    omega
  rw [coapDataCheckRxPacketType, if_neg (by omega)]
  dsimp only
  rw [hfirst, htkl, if_neg (by omega), if_neg fun h => hlen.ne' h.2.1]

/-- A response some of whose payload fits is processed, with as much of it as fits. -/
theorem Carries.processed (h : Carries r head rx) (hroom : head.length < e.config.rxBufferLen) :
    (goliothProcessRx e r (head ++ rx.payload) c).2 =
      coapReqProcessRx e
        { rx with payload := rx.payload.take (e.config.rxBufferLen - head.length) } c := by
  have hlonger := h.longer
  have hle := le_goliothRecv r e.config.rxBufferLen (head ++ rx.payload)
  rw [List.length_take, List.length_append] at hle
  have hempty : -Errno.enomsg ≠ 0 := by decide
  rw [goliothProcessRx_eq, if_neg (by omega)]
  dsimp only
  rw [h.checked hroom.le, if_neg hempty.symm, if_neg (not_not.mpr rfl), goliothProcessRxData,
    h.whole _ (.inl hroom)]

end Receiving

/-! ## Part of a block -/

/-- A response with as much of a block as there is room for after the head. If there is
no room, the head may have been cut as well, and with it the Block2 option. -/
structure CutBlock (payload : List UInt8) (szx num room : ℕ) (rx : RxPacket) : Prop where
  success : coapCodeToPosix rx.code = 0
  num_lt : num < 2 ^ 20
  block2 : coapGetOptionInt rx .block2 =
      blockValue num (decide ((num + 1) * coapBlockSizeToBytes szx < payload.length)) szx ∨
    room = 0 ∧ coapGetOptionInt rx .block2 = -Errno.enoent
  no_block1 : coapGetOptionInt rx .block1 = -Errno.enoent
  size2 : coapGetOptionInt rx .size2 = -Errno.enoent ∨ Zephyr.announcedTotal rx = payload.length
  data : rx.payload =
    ((payload.drop (num * coapBlockSizeToBytes szx)).take (coapBlockSizeToBytes szx)).take room

/-- A listed request that has been handed its response up to an offset. Its block size is
still the estimate, which no block has been smaller than. -/
structure Fetched (e : Env κ σ) (payload : List UInt8) (offset : ℕ) (req : CoapReq κ) : Prop where
  isObserve : req.isObserve = false
  current : req.blockCtx.current = offset
  blockSize : req.blockCtx.blockSize = goliothEstimatedCoapBlockSize e.config.rxBufferLen
  totalSize : req.blockCtx.totalSize = 0 ∨ req.blockCtx.totalSize = payload.length

/-- What the handler makes of part of a block, by the offset it has reached. -/
inductive CutOutcome (e : Env κ σ) (payload : List UInt8) (szx num offset : ℕ) (req : CoapReq κ)
    (rx : RxPacket) : Verdict → Prop
  | rejected (blockCtx : BlockContext) : (e.zephyr.coapUpdateFromBlock rx req.blockCtx).1 ≠ 0 →
      CutOutcome e payload szx num offset req rx (.deliver blockCtx
        { userData := req.userData, err := -Errno.ebadmsg } (-Errno.ebadmsg))
  | stale (blockCtx : BlockContext) : num * coapBlockSizeToBytes szx < offset →
      Fetched e payload offset { req with blockCtx := blockCtx } →
      CutOutcome e payload szx num offset req rx (.ignore blockCtx)
  | last (blockCtx : BlockContext) (rsp : Rsp) : rsp.err = 0 → rsp.getNext = false →
      rsp.data = rx.payload →
      rx.payload = [] ∨ num * coapBlockSizeToBytes szx = offset ∧ rsp.off = offset ∧
        payload.length ≤ offset + coapBlockSizeToBytes szx →
      CutOutcome e payload szx num offset req rx (.deliver blockCtx rsp 0)
  | more (blockCtx : BlockContext) (rsp : Rsp) : rsp.err = 0 → rsp.getNext = true →
      rsp.data = rx.payload → num * coapBlockSizeToBytes szx = offset → rsp.off = offset →
      offset + coapBlockSizeToBytes szx < payload.length → 0 < offset + rx.payload.length →
      Fetched e payload (offset + rx.payload.length) { req with blockCtx := blockCtx } →
      CutOutcome e payload szx num offset req rx (.offer blockCtx rsp)

section Cut

variable {r : Receiver} {head payload : List UInt8} {szx num room offset : ℕ} {rx' : RxPacket}

private theorem coapGetOptionInt_take (rx : RxPacket) (count : ℕ) (bytes : List UInt8)
    (option : OptionNum) :
    coapGetOptionInt { rx with options := rx.options.take count, payload := bytes } option =
        coapGetOptionInt rx option ∨
      coapGetOptionInt { rx with options := rx.options.take count, payload := bytes } option =
        -Errno.enoent := by
  have hlookup : ∀ (options : List (OptionNum × ℤ)) (count : ℕ),
      (options.take count).lookup option = options.lookup option ∨
        (options.take count).lookup option = none := by
    intro options
    induction options with
    | nil => exact fun count => .inr (by rw [List.take_nil]; rfl)
    | cons entry options ih =>
      intro count
      cases count with
      | zero => exact .inr rfl
      | succ count =>
        rw [List.take_succ_cons, List.lookup_cons, List.lookup_cons]
        split
        · exact .inl rfl
        · exact ih count
  rcases hlookup rx.options count with h | h
  · exact .inl (by rw [coapGetOptionInt, h, coapGetOptionInt])
  · exact .inr (by rw [coapGetOptionInt, h]; rfl)

/-- What a block is parsed to where there is room for a part of it. -/
theorem Carries.cutBlock (h : Carries r head rx) (hblock : IsBlock payload szx num rx)
    (hparse : r.coapPacketParse ((head ++ rx.payload).take room) = .ok rx') :
    CutBlock payload szx num (room - head.length) rx' := by
  rcases Nat.lt_or_ge head.length room with hroom | hroom
  · obtain rfl := Except.ok.inj ((h.whole room (.inl hroom)).symm.trans hparse)
    exact ⟨hblock.success, hblock.num_lt, .inl hblock.block2, hblock.no_block1, hblock.size2,
      congrArg (List.take _) hblock.data⟩
  · obtain ⟨count, rfl⟩ := h.cut room hroom rx' hparse
    have htake := coapGetOptionInt_take rx count []
    have hempty : room - head.length = 0 := by omega
    refine ⟨hblock.success, hblock.num_lt, ?_, ?_, ?_, ?_⟩
    · exact (htake .block2).imp (·.trans hblock.block2) fun habsent => ⟨hempty, habsent⟩
    · exact (htake .block1).elim (·.trans hblock.no_block1) id
    · rcases htake .size2 with hkept | habsent
      · refine hblock.size2.imp (hkept.trans ·) fun hannounced => ?_
        rw [Zephyr.announcedTotal, hkept]
        exact hannounced
      · exact .inl habsent
    · rw [hempty, List.take_zero]

/-- **Decision on a part of a block.** A block that is asked for no later than at the
offset reached is rejected by the library, or has been had, or is taken for the next
piece, with its length for the length of the block. -/
theorem cutOutcome (hupdate : e.zephyr.UpdateContract) (hnext : e.zephyr.NextBlockContract)
    (hszx : szx < 7) (hlarge : goliothEstimatedCoapBlockSize e.config.rxBufferLen ≤ szx)
    (hfetched : Fetched e payload offset req) (hcut : CutBlock payload szx num room rx)
    (hasked : num * coapBlockSizeToBytes szx ≤ offset) (hoffset : offset ≤ payload.length) :
    CutOutcome e payload szx num offset req rx (verdict e.zephyr req rx) := by
  rcases hcut.block2 with hblock2 | ⟨rfl, habsent⟩
  · have hpart : PartOfBlock payload szx num rx := ⟨hcut.success, hcut.num_lt, hblock2,
      hcut.no_block1, hcut.size2, hcut.data ▸ List.take_prefix _ _⟩
    have hpresent := hpart.block2_ne
    by_cases hok : (e.zephyr.coapUpdateFromBlock rx req.blockCtx).1 = 0
    · obtain ⟨total, htotal, hctx⟩ := update_of_block hupdate hszx hpart hok hfetched.totalSize
      rw [hfetched.blockSize, min_eq_right hlarge] at hctx
      by_cases hstale : num * coapBlockSizeToBytes szx < offset
      · simp only [verdict, blockVerdict, hcut.success, hpresent, hok, hctx, hfetched.current,
          hstale, ne_eq, not_true_eq_false, not_false_eq_true, if_true, if_false]
        exact .stale _ hstale ⟨hfetched.isObserve, rfl, rfl, htotal⟩
      · have hhere : num * coapBlockSizeToBytes szx = offset := by omega
        obtain ⟨hadvanced, hlast⟩ := next_of_block hnext hszx hpart
          ⟨total, offset, goliothEstimatedCoapBlockSize e.config.rxBufferLen⟩ hhere.symm hoffset
          htotal
        rw [hhere] at hctx
        have hbehind : (num + 1) * coapBlockSizeToBytes szx =
            offset + coapBlockSizeToBytes szx := by
          rw [Nat.add_mul, Nat.one_mul, hhere]
        rw [hbehind] at hlast
        by_cases hends : ¬ offset + coapBlockSizeToBytes szx < payload.length ∨
            offset + rx.payload.length = 0
        · simp only [verdict, blockVerdict, hcut.success, hpresent, hok, hctx, hfetched.current,
            lt_irrefl, hadvanced, hlast.mpr hends, ne_eq, not_true_eq_false, not_false_eq_true,
            if_true, if_false]
          refine .last _ _ rfl rfl rfl ?_
          rcases hends with hends | hnothing
          · exact .inr ⟨hhere, rfl, not_lt.mp hends⟩
          · exact .inl (List.eq_nil_of_length_eq_zero (by omega))
        · simp only [verdict, blockVerdict, hcut.success, hpresent, hok, hctx, hfetched.current,
            lt_irrefl, hadvanced, hlast.not.mpr hends, hfetched.isObserve, ne_eq,
            not_true_eq_false, not_false_eq_true, if_true, if_false, Bool.false_eq_true]
          rw [not_or, not_not] at hends
          exact .more _ _ rfl rfl rfl hhere rfl hends.1 (Nat.pos_of_ne_zero hends.2)
            ⟨hfetched.isObserve, rfl, rfl, htotal⟩
    · simp only [verdict, blockVerdict, hcut.success, hpresent, hok, ne_eq, not_true_eq_false,
        not_false_eq_true, if_true, if_false]
      exact .rejected _ hok
  · -- without the option the response is taken for a whole one, and there is nothing of it
    simp only [verdict, hcut.success, habsent, ne_eq, not_true_eq_false, if_false]
    exact .last _ _ rfl rfl rfl (.inl (hcut.data.trans List.take_zero))

end Cut

end Golioth.Requests
