/-
# Blockwise transfers

A response in blocks reaches the callback as consecutive pieces of the payload,
whatever the network does to the blocks. All blocks of a request have one token,
so that a block can be early or late or come twice; what tells them apart is the
offset in the block context. The invariant relates that offset to the bytes
delivered so far and to the block numbers in all packets sent so far, none of
which is past the offset. Every answer is then for the offset itself or for
something before it.
-/
import Golioth.CS.Pieces
import Golioth.Requests.Following

namespace Golioth.Requests

open Golioth.Coap

variable {κ σ : Type} {e : Env κ σ} {c c' d : Client κ σ} {ref : ℕ} {req : CoapReq κ}
  {rx : RxPacket}

/-! ## Packets that ask for a block -/

private theorem assembled_ne_nil {z : Zephyr} (hheader : z.HeaderContract) {payload : Bool}
    {packet : CoapPacket} (h : Assembled z payload packet) : packet.data ≠ [] := by
  have hle := h.headerLen_le hheader
  rintro hnil
  rw [hnil] at hle
  exact absurd hle (by decide)

/-- The request packet is one without a Block2 option, which has not been copied
yet; or such a packet was copied before something was appended. -/
inductive Based (z : Zephyr) (request : CoapPacket) (copy : PacketFields) : Prop
  | plain : Assembled z false request → copy.offset = 0 → Based z request copy
  | copied (base : CoapPacket) : Assembled z false base → copy = base.fields →
      base.data <+: request.data → Based z request copy

theorem restore_setId {packet base : CoapPacket} (hstart : base.data <+: packet.data)
    (id : UInt16) : (coapPacketSetId packet id).restore base.fields = coapPacketSetId base id := by
  have htake : packet.data.take base.data.length = base.data :=
    (List.prefix_iff_eq_take.mp hstart).symm
  simp only [CoapPacket.restore, CoapPacket.fields, CoapPacket.offset, coapPacketSetId,
    List.take_set, htake]

/-- Asking for the next block appends a Block2 option to a packet without one. -/
theorem based_prepareNextBlock {z : Zephyr} (hheader : z.HeaderContract)
    (hbased : Based z req.request req.requestWoBlock2) (id : UInt16) (uptime : ℤ) :
    ∃ base, Assembled z false base ∧
      (coapReqPrepareNextBlock z id uptime req).2.request =
        (z.coapAppendBlock2Option base req.blockCtx).2 ∧
      (coapReqPrepareNextBlock z id uptime req).2.requestWoBlock2 = base.fields := by
  have hprepared : ∀ base : CoapPacket,
      (if req.requestWoBlock2.offset ≠ 0 then
          (coapPacketSetId req.request id).restore req.requestWoBlock2
        else coapPacketSetId req.request id) = base →
      (if req.requestWoBlock2.offset ≠ 0 then req.requestWoBlock2
        else (coapPacketSetId req.request id).fields) = base.fields →
      (coapReqPrepareNextBlock z id uptime req).2.request =
        (z.coapAppendBlock2Option base req.blockCtx).2 ∧
      (coapReqPrepareNextBlock z id uptime req).2.requestWoBlock2 = base.fields := by
    rintro base rfl hfields
    unfold coapReqPrepareNextBlock coapReqAppendBlock2Option
    dsimp only
    split at hfields
    · next h => simp only [if_pos h]; split <;> exact ⟨rfl, hfields⟩
    · next h => simp only [if_neg h]; split <;> exact ⟨rfl, rfl⟩
  cases hbased with
  | plain hassembled hoffset =>
    refine ⟨coapPacketSetId req.request id, .setId id hassembled, hprepared _ ?_ ?_⟩
    · rw [if_neg (not_not.mpr hoffset)]
    · rw [if_neg (not_not.mpr hoffset)]
  | copied base hassembled hfields hstart =>
    have hoffset : req.requestWoBlock2.offset ≠ 0 := by
      rw [hfields]
      exact fun h => assembled_ne_nil hheader hassembled (List.length_eq_zero_iff.mp h)
    refine ⟨coapPacketSetId base id, .setId id hassembled, hprepared _ ?_ ?_⟩
    · rw [if_pos hoffset, hfields]
      exact restore_setId hstart id
    · rw [if_pos hoffset, hfields]
      simp [CoapPacket.fields, CoapPacket.offset, coapPacketSetId]

/-- The block a server answers a request with: the one it names, or the first. -/
def blockAsked (named : List UInt8 → Option (ℕ × ℕ)) (data : List UInt8) : ℕ :=
  ((named data).map Prod.fst).getD 0

theorem blockAsked_appendBlock2 {z : Zephyr} {named : List UInt8 → Option (ℕ × ℕ)}
    (hnaming : NamingContract z named) {base : CoapPacket} (hassembled : Assembled z false base)
    {context : BlockContext} (hsize : context.blockSize < 7) :
    blockAsked named (z.coapAppendBlock2Option base context).2.data = 0 ∨
      blockAsked named (z.coapAppendBlock2Option base context).2.data =
        context.current / coapBlockSizeToBytes context.blockSize := by
  by_cases hok : (z.coapAppendBlock2Option base context).1 = 0
  · by_cases hnum : context.current / coapBlockSizeToBytes context.blockSize < 2 ^ 20
    · rw [blockAsked, hnaming.appended base context hassembled hsize hnum hok]
      exact .inr rfl
    · rw [blockAsked, hnaming.tooLong base context hassembled (not_lt.mp hnum) hok]
      exact .inl rfl
  · rw [blockAsked, hnaming.failed base context hassembled hok]
    exact .inl rfl

/-! ## Transfers -/

/-- The block with a given number of a payload, from a server whose blocks have
the given size exponent. -/
structure IsBlock (payload : List UInt8) (szx num : ℕ) (rx : RxPacket) : Prop where
  success : coapCodeToPosix rx.code = 0
  num_lt : num < 2 ^ 20
  block2 : coapGetOptionInt rx .block2 =
    blockValue num (decide ((num + 1) * coapBlockSizeToBytes szx < payload.length)) szx
  no_block1 : coapGetOptionInt rx .block1 = -Errno.enoent
  size2 : coapGetOptionInt rx .size2 = -Errno.enoent ∨ Zephyr.announcedTotal rx = payload.length
  data : rx.payload =
    (payload.drop (num * coapBlockSizeToBytes szx)).take (coapBlockSizeToBytes szx)

/-- The responses without an error. -/
def successes (events : List Event) : List Rsp := (invocations events).filter (·.err = 0)

/-- The data of responses, with their offsets. -/
def pieces (rsps : List Rsp) : List (ℕ × List UInt8) := rsps.map fun rsp => (rsp.off, rsp.data)

/-- The responses carry consecutive pieces of a payload, and all of it once one
of them comes without `get_next`. -/
structure Delivers (payload : List UInt8) (rsps : List Rsp) : Prop where
  consecutive : CS.Pieces.Consecutive payload 0 (pieces rsps)
  complete : ∀ rsp ∈ rsps, rsp.getNext = false → CS.Pieces.join (pieces rsps) = payload

/-- The number of bytes a callback has been handed. -/
def progress (events : List Event) : ℕ := (CS.Pieces.join (pieces (successes events))).length

section Transfer

variable (e) (named : List UInt8 → Option (ℕ × ℕ)) (payload : List UInt8) (szx : ℕ)

/-- A listed request all of whose response up to an offset has been delivered. -/
structure Ongoing (offset : ℕ) (req : CoapReq κ) : Prop where
  isObserve : req.isObserve = false
  current : req.blockCtx.current = offset
  blockSize : offset = 0 ∧
      req.blockCtx.blockSize = goliothEstimatedCoapBlockSize e.config.rxBufferLen ∨
    0 < offset ∧ req.blockCtx.blockSize = szx
  totalSize : req.blockCtx.totalSize = 0 ∨ req.blockCtx.totalSize = payload.length
  based : Based e.zephyr req.request req.requestWoBlock2
  asked : blockAsked named req.request.data * coapBlockSizeToBytes szx ≤ offset

/-- **The invariant of a transfer.** What has been delivered are consecutive
pieces; while the request is listed, its offset is where they end, and no packet
sent asks for a block past it. -/
structure Transfer (ref : ℕ) (listed : Option (CoapReq κ)) (events : List Event) : Prop where
  delivers : Delivers payload (successes events)
  ongoing : ∀ req, listed = some req →
    Ongoing e named payload szx (progress events) req ∧
      ∀ rsp ∈ successes events, rsp.getNext = true
  sent : ∀ data, .sent ref data ∈ events →
    blockAsked named data * coapBlockSizeToBytes szx ≤ progress events

/-- What the handler makes of a block, by the offset it has reached. -/
inductive Outcome (offset : ℕ) (req : CoapReq κ) : Verdict → Prop
  | rejected (blockCtx : BlockContext) :
      Outcome offset req (.deliver blockCtx
        { userData := req.userData, err := -Errno.ebadmsg } (-Errno.ebadmsg))
  | stale (blockCtx : BlockContext) :
      Ongoing e named payload szx offset { req with blockCtx := blockCtx } →
      Outcome offset req (.ignore blockCtx)
  | last (blockCtx : BlockContext) (rsp : Rsp) : rsp.err = 0 → rsp.getNext = false →
      rsp.off = offset → rsp.data = payload.drop offset →
      Outcome offset req (.deliver blockCtx rsp 0)
  | more (blockCtx : BlockContext) (rsp : Rsp) : rsp.err = 0 → rsp.getNext = true →
      rsp.off = offset → rsp.data <+: payload.drop offset →
      Ongoing e named payload szx (offset + rsp.data.length) { req with blockCtx := blockCtx } →
      Outcome offset req (.offer blockCtx rsp)

end Transfer

section Blocks

variable {named : List UInt8 → Option (ℕ × ℕ)} {payload : List UInt8} {szx num offset : ℕ}

theorem estimatedBlockSize_lt (rxBufferLen : ℕ) :
    goliothEstimatedCoapBlockSize rxBufferLen < 7 := by
  rw [goliothEstimatedCoapBlockSize_eq]
  exact Nat.lt_succ_of_le (min_le_left _ _)

private theorem coapBlockSizeToBytes_le (hszx : szx < 7) : coapBlockSizeToBytes szx ≤ 2 ^ 10 :=
  Nat.pow_le_pow_right (by decide) (by omega)

/-- A response with the options of a block, and with bytes the block begins with. -/
structure PartOfBlock (payload : List UInt8) (szx num : ℕ) (rx : RxPacket) : Prop where
  success : coapCodeToPosix rx.code = 0
  num_lt : num < 2 ^ 20
  block2 : coapGetOptionInt rx .block2 =
    blockValue num (decide ((num + 1) * coapBlockSizeToBytes szx < payload.length)) szx
  no_block1 : coapGetOptionInt rx .block1 = -Errno.enoent
  size2 : coapGetOptionInt rx .size2 = -Errno.enoent ∨ Zephyr.announcedTotal rx = payload.length
  data : rx.payload <+:
    (payload.drop (num * coapBlockSizeToBytes szx)).take (coapBlockSizeToBytes szx)

theorem IsBlock.part (hblock : IsBlock payload szx num rx) : PartOfBlock payload szx num rx :=
  ⟨hblock.success, hblock.num_lt, hblock.block2, hblock.no_block1, hblock.size2,
    hblock.data ▸ List.prefix_rfl⟩

theorem PartOfBlock.wellFormed (hblock : PartOfBlock payload szx num rx) (hszx : szx < 7) :
    Zephyr.WellFormedBlock2 rx where
  nonneg := by rw [hblock.block2]; exact Int.natCast_nonneg _
  three_bytes := by
    have hnum := hblock.num_lt
    rw [hblock.block2, blockValue]
    split <;> omega
  szx_lt := by rw [hblock.block2, blockSzx_blockValue (by omega)]; exact hszx
  no_block1 := hblock.no_block1

theorem PartOfBlock.block2_ne (hblock : PartOfBlock payload szx num rx) :
    coapGetOptionInt rx .block2 ≠ -Errno.enoent := by
  have hnegative : -Errno.enoent < 0 := by decide
  rw [hblock.block2]
  exact (hnegative.trans_le (Int.natCast_nonneg _)).ne'

/-- What `coap_update_from_block` makes of the block context. -/
theorem update_of_block (hupdate : e.zephyr.UpdateContract) (hszx : szx < 7)
    (hblock : PartOfBlock payload szx num rx)
    (hok : (e.zephyr.coapUpdateFromBlock rx req.blockCtx).1 = 0)
    (htotal : req.blockCtx.totalSize = 0 ∨ req.blockCtx.totalSize = payload.length) :
    ∃ total, (total = 0 ∨ total = payload.length) ∧
      (e.zephyr.coapUpdateFromBlock rx req.blockCtx).2 =
        { totalSize := total, current := num * coapBlockSizeToBytes szx
          blockSize := min szx req.blockCtx.blockSize } := by
  have hctx := hupdate rx req.blockCtx (responseCode_of_success hblock.success)
    (hblock.wellFormed hszx) hok
  rw [hblock.block2, blockNum_blockValue (by omega), blockSzx_blockValue (by omega)] at hctx
  refine ⟨_, ?_, hctx⟩
  split
  · next hannounced =>
    refine .inr (hblock.size2.resolve_left fun habsent => hannounced ?_)
    rw [Zephyr.announcedTotal, if_pos habsent]
  · exact htotal

/-- What `coap_next_block_for_option` makes of a block at the offset reached. An offset
that is still zero is taken for the end, as is the last block. -/
theorem next_of_block (hnext : e.zephyr.NextBlockContract) (hszx : szx < 7)
    (hblock : PartOfBlock payload szx num rx) (context : BlockContext)
    (hcurrent : context.current = num * coapBlockSizeToBytes szx)
    (hle : context.current ≤ payload.length)
    (htotal : context.totalSize = 0 ∨ context.totalSize = payload.length) :
    (e.zephyr.coapNextBlockForOption rx context .block2).2 =
        { context with current := context.current + rx.payload.length } ∧
      (sizeOfInt (e.zephyr.coapNextBlockForOption rx context .block2).1 = 0 ↔
        ¬ (num + 1) * coapBlockSizeToBytes szx < payload.length ∨
          context.current + rx.payload.length = 0) := by
  have hnonneg := (hblock.wellFormed hszx).nonneg
  have hlength : rx.payload.length ≤
      min (coapBlockSizeToBytes szx) (payload.length - context.current) := by
    have hle := hblock.data.length_le
    rwa [List.length_take, List.length_drop, ← hcurrent] at hle
  have hfits : ¬ Zephyr.Overruns rx context := by
    rintro ⟨hpos, hpast⟩
    omega
  refine ⟨hnext.advance rx context hnonneg hfits, ?_⟩
  by_cases hmore : (num + 1) * coapBlockSizeToBytes szx < payload.length
  · have hflag : blockMore (coapGetOptionInt rx .block2) = true := by
      rw [hblock.block2, blockMore_blockValue (by omega), decide_eq_true hmore]
    have hsize := coapBlockSizeToBytes_le hszx
    have hnum : num * coapBlockSizeToBytes szx ≤ 2 ^ 20 * 2 ^ 10 :=
      Nat.mul_le_mul hblock.num_lt.le hsize
    rw [hnext.more rx context hnonneg hfits hflag, or_iff_right (not_not.mpr hmore)]
    constructor
    · intro hzero
      by_contra hne
      exact sizeOfInt_ne_zero (by omega) (by omega) (by omega) hzero
    · intro hzero
      rw [hzero]
      exact sizeOfInt_zero
  · have hflag : blockMore (coapGetOptionInt rx .block2) = false := by
      rw [hblock.block2, blockMore_blockValue (by omega), decide_eq_false hmore]
    rw [hnext.last rx context hnonneg hfits hflag]
    exact iff_of_true sizeOfInt_zero (.inl hmore)

/-- **Decision.** A block that is asked for no later than at the offset reached is
rejected by the library, or has been had, or is the next piece. -/
theorem outcome_of_block (hupdate : e.zephyr.UpdateContract) (hnext : e.zephyr.NextBlockContract)
    (hszx : szx ≤ goliothEstimatedCoapBlockSize e.config.rxBufferLen)
    (hongoing : Ongoing e named payload szx offset req) (hblock : IsBlock payload szx num rx)
    (hasked : num * coapBlockSizeToBytes szx ≤ offset) (hoffset : offset ≤ payload.length) :
    Outcome e named payload szx offset req (verdict e.zephyr req rx) := by
  have hszx₇ := hszx.trans_lt (estimatedBlockSize_lt _)
  have hblock2 := hblock.part.block2_ne
  by_cases hok : (e.zephyr.coapUpdateFromBlock rx req.blockCtx).1 = 0
  · obtain ⟨total, htotal, hctx⟩ := update_of_block hupdate hszx₇ hblock.part hok
      hongoing.totalSize
    -- the client takes over the block size of the server
    have hmin : min szx req.blockCtx.blockSize = szx := by
      rcases hongoing.blockSize with ⟨-, hsize⟩ | ⟨-, hsize⟩ <;> omega
    rw [hmin] at hctx
    by_cases hstale : num * coapBlockSizeToBytes szx < offset
    · simp only [verdict, blockVerdict, hblock.success, hblock2, hok, hctx, hongoing.current,
        hstale, ne_eq, not_true_eq_false, not_false_eq_true, if_true, if_false]
      exact .stale _ ⟨hongoing.isObserve, rfl, .inr ⟨by omega, rfl⟩, htotal, hongoing.based,
        hongoing.asked⟩
    · -- not a duplicate and not ahead of what has been asked for
      have hhere : num * coapBlockSizeToBytes szx = offset := by omega
      obtain ⟨hadvanced, hlast⟩ := next_of_block hnext hszx₇ hblock.part ⟨total, offset, szx⟩
        hhere.symm hoffset htotal
      have hdata := hblock.data
      rw [hhere] at hctx hdata
      by_cases hmore : (num + 1) * coapBlockSizeToBytes szx < payload.length
      · have hpos : 0 < rx.payload.length := by
          have : 0 < coapBlockSizeToBytes szx := Nat.two_pow_pos _
          rw [Nat.add_mul, Nat.one_mul] at hmore
          rw [hdata, List.length_take, List.length_drop]
          omega
        -- `coap_next_block` goes on as long as the block is not the last
        have hgoes : ¬ (¬ (num + 1) * coapBlockSizeToBytes szx < payload.length ∨
            offset + rx.payload.length = 0) := not_or.mpr ⟨not_not.mpr hmore, by omega⟩
        simp only [verdict, blockVerdict, hblock.success, hblock2, hok, hctx, hongoing.current,
          lt_irrefl, hadvanced, hlast.not.mpr hgoes, hongoing.isObserve, ne_eq,
          not_true_eq_false, not_false_eq_true, if_true, if_false, Bool.false_eq_true]
        have hstart : rx.payload <+: payload.drop offset := hdata ▸ List.take_prefix _ _
        exact .more _ _ rfl rfl rfl hstart
          ⟨hongoing.isObserve, rfl, .inr ⟨Nat.add_pos_right offset hpos, rfl⟩,
          htotal, hongoing.based, hongoing.asked.trans (Nat.le_add_right _ _)⟩
      · simp only [verdict, blockVerdict, hblock.success, hblock2, hok, hctx, hongoing.current,
          lt_irrefl, hadvanced, hlast.mpr (.inl hmore), ne_eq,
          not_true_eq_false, not_false_eq_true, if_true, if_false]
        have hrest : rx.payload = payload.drop offset := by
          rw [Nat.add_mul, Nat.one_mul] at hmore
          rw [hdata, List.take_of_length_le]
          rw [List.length_drop]
          omega
        exact .last _ _ rfl rfl rfl hrest
  · simp only [verdict, blockVerdict, hblock.success, hblock2, hok, ne_eq, not_true_eq_false,
      not_false_eq_true, if_true, if_false]
    exact .rejected _

private theorem ongoing_prepareNextBlock (hheader : e.zephyr.HeaderContract)
    (hnaming : NamingContract e.zephyr named)
    (hszx : szx ≤ goliothEstimatedCoapBlockSize e.config.rxBufferLen)
    (hongoing : Ongoing e named payload szx offset req) (id : UInt16) (uptime : ℤ) :
    Ongoing e named payload szx offset (coapReqPrepareNextBlock e.zephyr id uptime req).2 := by
  have hsame := sameRequest_prepareNextBlock e.zephyr id uptime req
  obtain ⟨base, hassembled, hrequest, hcopy⟩ :=
    based_prepareNextBlock hheader hongoing.based id uptime
  have hszx₇ := estimatedBlockSize_lt e.config.rxBufferLen
  have hsize : req.blockCtx.blockSize < 7 := by
    rcases hongoing.blockSize with ⟨-, hsize⟩ | ⟨-, hsize⟩ <;> omega
  refine
    { isObserve := hsame.isObserve.trans hongoing.isObserve
      current := by rw [hsame.blockCtx]; exact hongoing.current
      blockSize := by rw [hsame.blockCtx]; exact hongoing.blockSize
      totalSize := by rw [hsame.blockCtx]; exact hongoing.totalSize
      based := .copied base hassembled hcopy (hrequest ▸ hnaming.keeps base _ hassembled)
      asked := ?_ }
  rw [hrequest]
  rcases blockAsked_appendBlock2 hnaming hassembled hsize with hasked | hasked
  · rw [hasked, Nat.zero_mul]
    exact Nat.zero_le _
  · rw [hasked, hongoing.current]
    rcases hongoing.blockSize with ⟨hzero, -⟩ | ⟨-, hsize⟩
    · rw [hzero, Nat.zero_div, Nat.zero_mul]
    · rw [hsize]
      exact Nat.div_mul_le_self _ _

theorem ongoing_prepared (hheader : e.zephyr.HeaderContract)
    (hnaming : NamingContract e.zephyr named)
    (hszx : szx ≤ goliothEstimatedCoapBlockSize e.config.rxBufferLen)
    (hongoing : Ongoing e named payload szx offset req) {req' : CoapReq κ}
    (hprepared : Prepared e.zephyr req req') : Ongoing e named payload szx offset req' := by
  induction hprepared with
  | refl => exact hongoing
  | tail _ hstep ih =>
    obtain ⟨-, id, uptime, rfl⟩ := hstep
    exact ongoing_prepareNextBlock hheader hnaming hszx ih id uptime

/-! ## The invariant -/

@[simp] theorem successes_append (first second : List Event) :
    successes (first ++ second) = successes first ++ successes second := by
  simp [successes]

theorem Delivers.snoc {rsps : List Rsp} {rsp : Rsp} (h : Delivers payload rsps)
    (hopen : ∀ rsp ∈ rsps, rsp.getNext = true)
    (hoff : rsp.off = (CS.Pieces.join (pieces rsps)).length)
    (hdata : rsp.data <+: payload.drop rsp.off)
    (hlast : rsp.getNext = false → rsp.data = payload.drop rsp.off) :
    Delivers payload (rsps ++ [rsp]) := by
  have hpieces : pieces (rsps ++ [rsp]) = pieces rsps ++ [(rsp.off, rsp.data)] := by
    simp [pieces]
  have hoff' : rsp.off = 0 + (CS.Pieces.join (pieces rsps)).length := by rw [hoff, Nat.zero_add]
  refine ⟨?_, fun rsp' hmem hend => ?_⟩
  · rw [hpieces, hoff']
    exact h.consecutive.snoc (hoff' ▸ hdata)
  · rcases List.mem_append.mp hmem with hmem | hmem
    · rw [hopen rsp' hmem] at hend
      cases hend
    · obtain rfl := List.mem_singleton.mp hmem
      rw [hpieces, CS.Pieces.join_append]
      refine Eq.trans ?_ (h.consecutive.join_of_last (hoff ▸ hlast hend))
      simp [CS.Pieces.join]

theorem Delivers.progress_le {events : List Event} (h : Delivers payload (successes events)) :
    progress events ≤ payload.length :=
  h.consecutive.length_le

private theorem progress_append_le (events rest : List Event) :
    progress events ≤ progress (events ++ rest) := by
  simp [progress, pieces]

/-- Events that are no transmission add to a transfer what they deliver. -/
private theorem Transfer.extend {listed listed' : Option (CoapReq κ)} {events rest : List Event}
    (h : Transfer e named payload szx ref listed events) (hquiet : ∀ data, .sent ref data ∉ rest)
    (hdelivers : Delivers payload (successes (events ++ rest)))
    (hongoing : ∀ req, listed' = some req →
      Ongoing e named payload szx (progress (events ++ rest)) req ∧
        ∀ rsp ∈ successes (events ++ rest), rsp.getNext = true) :
    Transfer e named payload szx ref listed' (events ++ rest) where
  delivers := hdelivers
  ongoing := hongoing
  sent data hsent := by
    have hold := (List.mem_append.mp hsent).resolve_right (hquiet data)
    exact (h.sent data hold).trans (progress_append_le _ _)

private theorem Transfer.close {listed : Option (CoapReq κ)} {events : List Event}
    (h : Transfer e named payload szx ref listed events) {rsp : Rsp} {ret : ℤ}
    (herr : rsp.err ≠ 0) :
    Transfer e named payload szx ref none
      (events ++ [.called ref rsp, .returned ref rsp ret, .freed ref]) := by
  have hnone : successes [.called ref rsp, .returned ref rsp ret, .freed ref] = [] := by
    simp [successes, invocations, herr]
  refine h.extend (by simp) ?_ (by simp)
  rw [successes_append, hnone, List.append_nil]
  exact h.delivers

theorem keeps_transfer :
    Keeps (Transfer (κ := κ) e named payload szx ref) ref where
  rearm req events pending h := by
    refine { h with ongoing := fun req' hreq' => ?_ }
    obtain rfl := Option.some_inj.mp hreq'
    obtain ⟨hongoing, hopen⟩ := h.ongoing req rfl
    exact ⟨⟨hongoing.isObserve, hongoing.current, hongoing.blockSize, hongoing.totalSize,
      hongoing.based, hongoing.asked⟩, hopen⟩
  note req events reply h := by
    refine { h with ongoing := fun req' hreq' => ?_ }
    obtain rfl := Option.some_inj.mp hreq'
    obtain ⟨hongoing, hopen⟩ := h.ongoing req rfl
    exact ⟨⟨hongoing.isObserve, hongoing.current, hongoing.blockSize, hongoing.totalSize,
      hongoing.based, hongoing.asked⟩, hopen⟩
  send req events h := by
    have hsame : successes (events ++ [.sent ref req.request.data]) = successes events := by
      simp [successes, invocations]
    have hprogress : progress (events ++ [.sent ref req.request.data]) = progress events := by
      rw [progress, hsame, progress]
    refine ⟨hsame ▸ h.delivers, ?_, fun data hsent => ?_⟩
    · rw [hprogress, hsame]
      exact h.ongoing
    · rw [hprogress]
      rcases List.mem_append.mp hsent with hsent | hsent
      · exact h.sent data hsent
      · obtain ⟨-, rfl⟩ := Event.sent.inj (List.mem_singleton.mp hsent)
        exact (h.ongoing req rfl).1.asked
  close req events rsp ret herr _ h := h.close herr

/-- **Response.** A block of the response keeps the invariant. -/
theorem survives_transfer (hheader : e.zephyr.HeaderContract)
    (hnaming : NamingContract e.zephyr named)
    (hszx : szx ≤ goliothEstimatedCoapBlockSize e.config.rxBufferLen) {events : List Event}
    {v : Verdict}
    (houtcome : ∀ reply, Ongoing e named payload szx (progress events) { req with reply := reply } →
      Outcome e named payload szx (progress events) { req with reply := reply } v) :
    Survives e (Transfer e named payload szx ref) ref req events v := by
  intro c reply hwf hfind hhistory h
  obtain ⟨hongoing, hopen⟩ := h.ongoing _ rfl
  have houtcome := houtcome reply hongoing
  generalize { req with reply := reply } = req at *
  subst hhistory
  cases houtcome with
  | rejected blockCtx =>
    -- nothing more is handed over once the callback has been told of the error
    have herr : Rsp.err { userData := req.userData, err := -Errno.ebadmsg } ≠ 0 :=
      show -Errno.ebadmsg ≠ 0 by decide
    have hlast : Rsp.getNext { userData := req.userData, err := -Errno.ebadmsg } = false := rfl
    obtain ⟨ret, hhistory, hgone⟩ := carryOut_deliver (e := e) hwf hfind blockCtx
      (-Errno.ebadmsg) hlast
    rw [if_neg fun h => herr h.2] at hhistory hgone
    rw [hgone, hhistory]
    exact h.close herr
  | stale blockCtx hstale =>
    obtain ⟨hkept, hlog⟩ := carryOut_ignore (e := e) hfind blockCtx
    rw [hkept, Client.history, hlog]
    refine ⟨h.delivers, fun req' hreq' => ?_, h.sent⟩
    obtain rfl := Option.some_inj.mp hreq'
    exact ⟨hstale, hopen⟩
  | last blockCtx rsp herr hlast hoff hdata =>
    obtain ⟨ret, hhistory, hgone⟩ := carryOut_deliver (e := e) hwf hfind blockCtx 0 hlast
    have hplain : ¬ (req.isObserve = true ∧ (0 : ℤ) = 0) := by simp [hongoing.isObserve]
    rw [if_neg hplain] at hhistory hgone
    -- the last piece completes the payload, and the request is freed
    have hone : successes [.called ref rsp, .returned ref rsp ret, .freed ref] = [rsp] := by
      simp [successes, invocations, herr]
    rw [hgone, hhistory]
    refine h.extend (by simp) ?_ (by simp)
    rw [successes_append, hone]
    exact h.delivers.snoc hopen hoff (hoff ▸ hdata ▸ List.prefix_rfl) fun _ => hoff ▸ hdata
  | more blockCtx rsp herr hnext hoff hdata hnew =>
    obtain ⟨ret, req', hprepared, -, hhistory, hkept⟩ := carryOut_offer (e := e) hwf hfind
      hongoing.isObserve blockCtx rsp
    have hone : successes (.called ref rsp :: .returned ref rsp ret ::
        if ret ≠ 0 then [.freed ref] else []) = [rsp] := by
      split <;> simp [successes, invocations, herr]
    -- one more piece; the packet asks for what follows, unless the callback failed
    have hprogress : progress (c.history ref ++ (.called ref rsp :: .returned ref rsp ret ::
        if ret ≠ 0 then [.freed ref] else [])) =
        progress (c.history ref) + rsp.data.length := by
      rw [progress, successes_append, hone]
      simp [progress, pieces, CS.Pieces.join]
    rw [hkept, hhistory]
    refine h.extend (by split <;> simp) ?_ fun req'' hreq'' => ?_
    · rw [successes_append, hone]
      exact h.delivers.snoc hopen hoff (hoff ▸ hdata) fun hend =>
        absurd (hnext.symm.trans hend) (by simp)
    · split at hreq''
      · cases hreq''
      · obtain rfl := Option.some_inj.mp hreq''
        rw [successes_append, hone, hprogress]
        refine ⟨ongoing_prepared hheader hnaming hszx hnew hprepared, fun rsp' hmem => ?_⟩
        rcases List.mem_append.mp hmem with hmem | hmem
        · exact hopen rsp' hmem
        · rw [List.mem_singleton.mp hmem]
          exact hnext

/-- Every response to a request is a block of a payload that an earlier packet of
the request asks for. -/
def Honest (e : Env κ σ) (named : List UInt8 → Option (ℕ × ℕ)) (payload : List UInt8)
    (szx ref : ℕ) : Op κ → Client κ σ → Prop
  | .processRx rx, c => ∀ req, answered e rx c = some req → req.ref = ref →
      ∃ data, .sent ref data ∈ c.log ∧ IsBlock payload szx (blockAsked named data) rx
  | _, _ => True

/-- **Step.** An operation keeps the invariant. -/
private theorem transfer_step (hheader : e.zephyr.HeaderContract)
    (hupdate : e.zephyr.UpdateContract) (hnext : e.zephyr.NextBlockContract)
    (hnaming : NamingContract e.zephyr named)
    (hszx : szx ≤ goliothEstimatedCoapBlockSize e.config.rxBufferLen)
    (h : Follows (Transfer e named payload szx ref) ref c) {op : Op κ}
    (hhonest : Honest e named payload szx ref op c) (hstep : Step e op c c') :
    Follows (Transfer e named payload szx ref) ref c' := by
  refine h.step keeps_transfer (fun rx req hop hanswered href => ?_) hstep
  subst hop href
  -- the block is for a packet sent earlier, so it starts at the offset or before
  obtain ⟨data, hsent, hblock⟩ := hhonest req hanswered rfl
  have hasked := h.holds.sent data (List.mem_filter.mpr ⟨hsent, by simp [Event.ref]⟩)
  exact survives_transfer hheader hnaming hszx fun reply hongoing =>
    outcome_of_block hupdate hnext hszx hongoing hblock hasked h.holds.delivers.progress_le

theorem transfer_of_scheduled (hnaming : NamingContract e.zephyr named)
    (hwf : WellFormed c) {submission : Submission κ} (hscheduled : Scheduled e submission ref c)
    (hobserve : submission.observe = false) (hpayload : submission.payload = false) :
    Follows (Transfer e named payload szx ref) ref c := by
  obtain ⟨req, hbuilt, hfind⟩ := hscheduled.listed
  have hassembled := hbuilt.request
  rw [hpayload] at hassembled
  have hnone : successes [.scheduled ref false 0] = [] := rfl
  refine ⟨hwf, hwf.refs_lt ref (c.mem_refs_iff.mpr ⟨req, hfind⟩), ?_⟩
  rw [hfind, hscheduled.history, hobserve]
  refine ⟨hnone ▸ ⟨trivial, by simp⟩, fun req' hreq' => ?_, by simp⟩
  obtain rfl := Option.some_inj.mp hreq'
  rw [hnone]
  refine ⟨⟨hbuilt.isObserve.trans hobserve, by rw [hbuilt.blockCtx]; rfl,
    .inl ⟨rfl, by rw [hbuilt.blockCtx]; rfl⟩, .inl (by rw [hbuilt.blockCtx]; rfl),
    .plain hassembled hbuilt.requestWoBlock2, ?_⟩, by simp⟩
  rw [blockAsked, hnaming.plain _ hassembled, Option.map_none, Option.getD_none, Nat.zero_mul]
  exact Nat.zero_le _

/-- **A response in blocks is delivered exactly.** Take a request without payload,
not an observation, and let every response to it be the block that an earlier
packet of the request asks for; the network may have lost, repeated, delayed or
reordered it. In every state the client gets to, the responses without an error
that the callback has been invoked with carry consecutive pieces of the payload,
and the whole of it once one of them came without `get_next`. -/
theorem delivers_of_honest (hheader : e.zephyr.HeaderContract)
    (hupdate : e.zephyr.UpdateContract) (hnext : e.zephyr.NextBlockContract)
    (hnaming : NamingContract e.zephyr named)
    (hszx : szx ≤ goliothEstimatedCoapBlockSize e.config.rxBufferLen)
    {app : σ} (hreach : Reachable e app c) {submission : Submission κ}
    (hscheduled : Scheduled e submission ref c) (hobserve : submission.observe = false)
    (hpayload : submission.payload = false) {ops : List (Op κ)}
    (hrun : CS.Run (CS.Guarded (Honest e named payload szx ref) (Step e)) ops c c') :
    Delivers payload (successes (c'.history ref)) :=
  (hrun.invariant (Follows (Transfer e named payload szx ref) ref)
    (fun _ _ _ h hstep => transfer_step hheader hupdate hnext hnaming hszx h hstep.1 hstep.2)
    (transfer_of_scheduled hnaming (wellFormed_of_reachable hreach) hscheduled hobserve
      hpayload)).holds.delivers

end Blocks

/-- A callback that asks for every block it is offered. -/
def Env.reading : Env Unit Unit := .calm fun _ rsp =>
  if rsp.getNext then .call (.getNext 0) fun _ => .ret 0 else .ret 0

/-- Twenty bytes, in blocks of sixteen. -/
def twentyBytes : List UInt8 := (List.range 20).map UInt8.ofNat

/-- A block of the twenty bytes. -/
def blockOfTwenty (num : ℕ) : RxPacket where
  type := .ack
  code := 69
  id := 0
  token := firstToken
  options := [(.block2, blockValue num (decide ((num + 1) * 16 < 20)) 0)]
  payload := (twentyBytes.drop (num * 16)).take 16

/-- A response is the block of the twenty bytes that some packet of the first request asks for. -/
def honestCheck : Op Unit → Client Unit Unit → Bool
  | .processRx rx, c => c.log.any fun event =>
    match event with
    | .sent ref data => decide (ref = 0 ∧ rx = blockOfTwenty (blockAsked Reference.named data) ∧
        blockAsked Reference.named data < 2)
    | _ => false
  | _, _ => true

private theorem isBlock_blockOfTwenty {num : ℕ} (hnum : num < 2) :
    IsBlock twentyBytes 0 num (blockOfTwenty num) where
  success := show coapCodeToPosix 69 = 0 by decide
  num_lt := by omega
  block2 := rfl
  no_block1 := rfl
  size2 := .inl rfl
  data := rfl

theorem honest_of_answers {e : Env Unit Unit} (op : Op Unit) (c : Client Unit Unit)
    (hcheck : honestCheck op c = true) :
    Honest e Reference.named twentyBytes 0 0 op c := by
  cases op with
  | processRx rx =>
    intro req _ _
    obtain ⟨event, hmem, hevent⟩ := List.any_eq_true.mp hcheck
    split at hevent
    · next ref data =>
      obtain ⟨rfl, hrx, hnum⟩ := of_decide_eq_true hevent
      exact ⟨data, hmem, hrx ▸ isBlock_blockOfTwenty hnum⟩
    · cases hevent
  | _ => trivial

private theorem honest_of_check (op : Op Unit) (c : Client Unit Unit)
    (hcheck : honestCheck op c = true) :
    Honest .reading Reference.named twentyBytes 0 0 op c :=
  honest_of_answers op c hcheck

/-- Each block is asked for and answered, the first of them twice. -/
def twentyBytesRun : List (Op Unit) :=
  [.pollPrepare 0 1, .processRx (blockOfTwenty 0), .pollPrepare 0 1,
    .processRx (blockOfTwenty 0), .processRx (blockOfTwenty 1)]

theorem delivers_of_honest_twentyBytes :
    ∃ c c', execute .reading [.onConnect, .submit (.getA () false)] () = some c ∧
      CS.Run (CS.Guarded (Honest .reading Reference.named twentyBytes 0 0) (Step .reading))
        twentyBytesRun c c' ∧
      (successes (c'.history 0)).length = 2 ∧
      Delivers twentyBytes (successes (c'.history 0)) := by
  have hfacts : (execute .reading [.onConnect, .submit (.getA () false)] ()).bind (fun c =>
      (CS.Run.executeIf honestCheck (perform .reading) twentyBytesRun c).map fun c' =>
        (successes (c'.history 0)).length) = some 2 := by decide +kernel
  obtain ⟨c, hrun, hfacts⟩ := Option.bind_eq_some_iff.mp hfacts
  obtain ⟨c', hrun', htwo⟩ := Option.map_eq_some_iff.mp hfacts
  have hreach := reachable_of_execute _ hrun
  have hconnected : Reachable .reading () (coapReqsOnConnect (Client.init ())) :=
    ⟨[.onConnect], .single rfl⟩
  have hscheduled : Scheduled .reading (.getA () false) 0 c := by
    have hsubmit : some (submit .reading (.getA () false)
        (coapReqsOnConnect (Client.init ()))).2 = some c := hrun
    obtain rfl := Option.some_inj.mp hsubmit
    exact scheduled_of_submit (wellFormed_of_reachable hconnected) (by decide)
  have hguarded := CS.Run.of_executeIf honest_of_check hrun'
  exact ⟨c, c', hrun, hguarded, htwo, delivers_of_honest Reference.headerContract
    Reference.updateContract Reference.nextBlockContract Reference.namingContract
    (Nat.zero_le _) hreach hscheduled rfl rfl hguarded⟩

end Golioth.Requests
