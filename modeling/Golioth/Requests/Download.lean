/-
# Downloading firmware

The URI of an image comes from the manifest, as bytes and their number. The request for it
is given a buffer of fixed length, which the path shares with the options that are appended
later on, when the request asks for one block after the other.
-/
import Golioth.Requests.NextBlock

namespace Golioth.Requests

open Golioth.Coap
open CS.OptionFormat (encode)

variable {κ σ : Type} {e : Env κ σ} {c : Client κ σ} {args : DownloadArgs κ}
  {value : BlockContext → List UInt8}

/-! ## The request -/

/-- Memory for a request and for its buffer. -/
def Allocates (e : Env κ σ) (c : Client κ σ) : Prop :=
  e.allocates c.readings = true ∧ e.allocates (c.readings + 1) = true

/-- The segments of a URI. -/
def DownloadArgs.segments (args : DownloadArgs κ) : List (List UInt8) :=
  dropLastEmpty ((pathText args.uri (some args.uriLen)).splitOn slash)

/-- How many bytes the options for a URI have. -/
def DownloadArgs.pathLen (args : DownloadArgs κ) : ℕ := segmentsLen (args.segments.map narrowed)

/-- A packet with nothing but a header of twelve bytes. -/
structure HeaderOnly (packet : CoapPacket) : Prop where
  offset : packet.offset = 12
  maxLen : packet.maxLen = goliothCoapMaxNonPayloadLen
  delta : packet.delta = 0

section Request

theorem headerOnly_init (hz : e.zephyr.WritingContract) (hroom : e.zephyr.RoomContract)
    (token : FullToken) (id : UInt16) :
    (e.zephyr.coapPacketInit goliothCoapMaxNonPayloadLen .con ⟨token.1, token.2.le⟩
        Method.get.code id).1 = 0 ∧
      HeaderOnly (e.zephyr.coapPacketInit goliothCoapMaxNonPayloadLen .con
        ⟨token.1, token.2.le⟩ Method.get.code id).2 := by
  have hlen : (Zephyr.headerBytes .con ⟨token.1, token.2.le⟩ Method.get.code id).length = 12 := by
    rw [Zephyr.headerBytes, List.length_append, token.2]
    rfl
  have hok : (e.zephyr.coapPacketInit goliothCoapMaxNonPayloadLen .con ⟨token.1, token.2.le⟩
      Method.get.code id).1 = 0 := by
    rw [hroom.init_iff, hlen]
    decide
  obtain ⟨hdata, hdelta⟩ := hz.init _ _ _ _ _ hok
  refine ⟨hok, ?_, hroom.init_maxLen _ _ _ _ _, hdelta⟩
  rw [CoapPacket.offset, hdata, hlen]

/-- A new request is turned away exactly where there is no memory for it. -/
theorem coapReqNew_get_cases (hz : e.zephyr.WritingContract) (hroom : e.zephyr.RoomContract)
    (cb : Option κ) (userData : ℕ) (c : Client κ σ) :
    (¬ Allocates e c ∧ ∃ err c', err ≠ 0 ∧
      coapReqNew e .get .con goliothCoapMaxNonPayloadLen cb userData c = (.error err, c')) ∨
    (Allocates e c ∧ ∃ req c',
      coapReqNew e .get .con goliothCoapMaxNonPayloadLen cb userData c = (.ok req, c') ∧
        HeaderOnly req.request ∧ c'.coapReqsConnected = c.coapReqsConnected ∧
        c'.coapReqs = c.coapReqs) := by
  have hnomem : -Errno.enomem ≠ 0 := by decide
  unfold coapReqNew Allocates
  dsimp only [Client.tick]
  by_cases hcalloc : e.allocates c.readings = true
  · by_cases hmalloc : e.allocates (c.readings + 1) = true
    · simp only [hcalloc, hmalloc, not_true_eq_false, if_false]
      have hinit := headerOnly_init hz hroom (e.coapNextToken (c.readings + 1 + 1))
        (e.coapNextId (c.readings + 1 + 1 + 1))
      have hbuffer : goliothCoapMaxNonPayloadLen % 2 ^ 16 = goliothCoapMaxNonPayloadLen := by decide
      refine .inr ⟨⟨trivial, trivial⟩, ?_⟩
      unfold coapReqInit
      dsimp only
      rw [hbuffer, if_neg (not_not.mpr hinit.1)]
      exact ⟨_, _, rfl, hinit.2, rfl, rfl⟩
    · simp only [hcalloc, hmalloc, not_true_eq_false, if_false, Bool.false_eq_true,
        not_false_eq_true, if_true, and_false]
      exact .inl ⟨trivial, _, _, hnomem, rfl⟩
  · simp only [hcalloc, Bool.false_eq_true, not_false_eq_true, if_true, false_and]
    exact .inl ⟨trivial, _, _, hnomem, rfl⟩

end Request

/-! ## Which bytes are read -/

/-- The addresses that `golioth_fw_download` reads, as distances from the beginning of the URI. -/
def fwDownloadReads (e : Env κ σ) (args : DownloadArgs κ) (c : Client κ σ) : List ℕ :=
  match (coapReqNew e .get .con goliothCoapMaxNonPayloadLen args.cb args.userData c).1 with
  | .error _ => []
  | .ok req => stringRangeReads e.zephyr req.request args.uri args.uriLen

/-- What `golioth_fw_download` reads lies in the URI exactly if something in it is not a slash, or
nothing is read because there is no request. -/
theorem fwDownloadReads_lt_iff (hz : e.zephyr.WritingContract) (hroom : e.zephyr.RoomContract) :
    (∀ address ∈ fwDownloadReads e args c, address < args.uriLen) ↔
      (Allocates e c → HasOtherByte args.uri args.uriLen) := by
  rcases coapReqNew_get_cases hz hroom args.cb args.userData c with
    ⟨hallocates, err, c', -, hnew⟩ | ⟨hallocates, req, c', hnew, -⟩
  · have hreads : fwDownloadReads e args c = [] := by rw [fwDownloadReads, hnew]
    rw [hreads]
    exact iff_of_true (fun _ hmem => absurd hmem List.not_mem_nil) fun h => absurd h hallocates
  · have hreads : fwDownloadReads e args c =
        stringRangeReads e.zephyr req.request args.uri args.uriLen := by
      rw [fwDownloadReads, hnew]
    rw [hreads, stringRangeReads_lt_iff]
    exact ⟨fun h _ => h, fun h => h hallocates⟩

/-- **Path scanning.** The bytes that are read for a path lie in its range exactly if something in
the range is not a slash, and so do the ones that are read for the URI of a download. -/
theorem pathReads_lt_iff (hz : e.zephyr.WritingContract) (hroom : e.zephyr.RoomContract) :
    (∀ packet memory length,
      (∀ address ∈ stringRangeReads e.zephyr packet memory length, address < length) ↔
        HasOtherByte memory length) ∧
    ∀ (args : DownloadArgs κ) (c : Client κ σ),
      (∀ address ∈ fwDownloadReads e args c, address < args.uriLen) ↔
        (Allocates e c → HasOtherByte args.uri args.uriLen) :=
  ⟨stringRangeReads_lt_iff e.zephyr, fun _ _ => fwDownloadReads_lt_iff hz hroom⟩

theorem pathReads_lt_iff_sample :
    (∀ packet memory length,
      (∀ address ∈ stringRangeReads Env.quiet.zephyr packet memory length, address < length) ↔
        HasOtherByte memory length) ∧
    ∀ (args : DownloadArgs Unit) (c : Client Unit Unit),
      (∀ address ∈ fwDownloadReads .quiet args c, address < args.uriLen) ↔
        (Allocates .quiet c → HasOtherByte args.uri args.uriLen) :=
  pathReads_lt_iff Reference.writingContract Reference.roomContract

/-- A download of some memory. -/
def downloadOf (uri : List UInt8) : DownloadArgs Unit where
  uri := uri
  uriLen := uri.length
  cb := none
  userData := 0

/-- The byte after a URI that is one slash is read. -/
theorem slash_read_past_end :
    ∃ address ∈ fwDownloadReads .quiet (downloadOf [slash]) connectedClient,
      ¬ address < (downloadOf [slash]).uriLen :=
  ⟨1, by decide, by decide⟩

/-! ## Room for the next block -/

section Room

/-- Whatever block a download asks for once it is accepted, there is room for the option. -/
def AsksForEveryBlock (e : Env κ σ) (args : DownloadArgs κ) (c : Client κ σ) : Prop :=
  ∀ c' scheduled, fwDownload e args c = (0, c') → c'.coapReqs = c.coapReqs ++ [scheduled] →
    ∀ calls req, NextBlocks e scheduled calls req →
      ∀ (req₁ : CoapReq κ) (c₁ : Client κ σ) (ref : ℕ) (status : ℤ), SamePacket req req₁ →
        c₁.find ref = some req₁ → req₁.blockCtx.blockSize < 7 →
          req₁.blockCtx.current / coapBlockSizeToBytes req₁.blockCtx.blockSize < 2 ^ 20 →
            (coapReqNextBlock e ref status c₁).1 = 0

/-- The packet of a download that is accepted. -/
structure DownloadPacket (args : DownloadArgs κ) (packet : CoapPacket) : Prop where
  offset : packet.offset = 12 + args.pathLen
  maxLen : packet.maxLen = goliothCoapMaxNonPayloadLen
  delta : packet.delta = if args.segments = [] then 0 else OptionNum.uriPath.value

/-- A download is accepted where there is memory and a connection and its path fits. -/
def Accepts (e : Env κ σ) (args : DownloadArgs κ) (c : Client κ σ) : Prop :=
  Allocates e c ∧ c.coapReqsConnected = true ∧ args.pathLen ≤ 116

theorem fwDownload_cases (hz : e.zephyr.WritingContract) (hroom : e.zephyr.RoomContract) :
    ((fwDownload e args c).1 ≠ 0 ∧ ¬ Accepts e args c) ∨
    ((fwDownload e args c).1 = 0 ∧ Accepts e args c ∧
      ∃ scheduled, (fwDownload e args c).2.coapReqs = c.coapReqs ++ [scheduled] ∧
        DownloadPacket args scheduled.request) := by
  rcases coapReqNew_get_cases hz hroom args.cb args.userData c with
    ⟨hallocates, err, c', hne, hnew⟩ | ⟨hallocates, req, c', hnew, hheader, hconnected, hreqs⟩
  · rw [fwDownload, newPreparedSchedule, hnew]
    exact .inl ⟨hne, fun h => hallocates h.1⟩
  · have hdelta : req.request.delta ≤ OptionNum.uriPath.value := by
      rw [hheader.delta]
      exact Nat.zero_le _
    have hmax : req.request.maxLen = 128 := hheader.maxLen
    have happended := appendSegments_eq_zero_iff hz hroom args.segments hdelta (by
      rw [hheader.offset, hmax]
      decide)
    rw [hheader.offset, hmax] at happended
    have hpath : (appendSegments e.zephyr req.request args.segments).1 = 0 ↔ args.pathLen ≤ 116 :=
      happended.trans (by rw [DownloadArgs.pathLen]; omega)
    rw [fwDownload, newPreparedSchedule, hnew]
    dsimp only
    rw [stringRange_eq_segments, ← DownloadArgs.segments]
    by_cases hok : (appendSegments e.zephyr req.request args.segments).1 = 0
    · rw [if_neg (not_not.mpr hok), coapReqSchedule, coapReqSubmit]
      have htick : c'.tick.coapReqsConnected = c.coapReqsConnected := hconnected
      rw [htick]
      by_cases hlive : c.coapReqsConnected = true
      · rw [if_neg (not_not.mpr hlive), if_neg (not_not.mpr rfl)]
        obtain ⟨hoffset, hmax', hdelta'⟩ := appended_appendSegments hz hroom _ hdelta hok
        rw [hheader.offset] at hoffset
        rw [hheader.maxLen] at hmax'
        rw [hheader.delta] at hdelta'
        exact .inr ⟨rfl, ⟨hallocates, hlive, hpath.mp hok⟩, _, congrArg (· ++ [_]) hreqs,
          hoffset, hmax', hdelta'⟩
      · have hnetdown : -Errno.enetdown ≠ 0 := by decide
        rw [if_pos hlive, if_pos hnetdown]
        exact .inl ⟨hnetdown, fun h => hlive h.2.1⟩
    · rw [if_pos hok]
      exact .inl ⟨hok, fun h => hok (hpath.mpr h.2.2)⟩

/-- The room that an option for a block takes. -/
theorem length_block2_le_iff {packet : CoapPacket} (hpacket : DownloadPacket args packet)
    {bytes : List UInt8} (hlen : bytes.length ≤ 3) :
    packet.offset + (encode (OptionNum.block2.value - packet.delta) bytes).length ≤ packet.maxLen ↔
      args.pathLen + bytes.length ≤ 115 := by
  have hblock2 : OptionNum.block2.value = 23 := rfl
  have hmax : packet.maxLen = 128 := hpacket.maxLen
  have hsmall : extendedLen bytes.length = 0 := by rw [extendedLen, if_pos (by omega)]
  rw [length_encode, hpacket.offset, hmax, hsmall, hpacket.delta, hblock2]
  split
  · next hnil =>
    -- without a path the number of the option does not fit the nibble
    have hpath : args.pathLen = 0 := by rw [DownloadArgs.pathLen, hnil]; rfl
    have hextended : extendedLen (23 - 0) = 1 := by decide
    omega
  · have hextended : extendedLen (23 - OptionNum.uriPath.value) = 0 := by decide
    omega

/-- Every call succeeds exactly where the options leave room for the block. -/
theorem nextBlock_of_download_iff (hheader : e.zephyr.HeaderContract)
    (hz : e.zephyr.WritingContract) (horder : e.zephyr.OrderContract)
    (hroom : e.zephyr.RoomContract) (hblock2 : e.zephyr.Block2Contract value)
    {c' : Client κ σ} {scheduled : CoapReq κ} (hok : fwDownload e args c = (0, c'))
    (hlisted : c'.coapReqs = c.coapReqs ++ [scheduled]) {calls : List (UInt16 × BlockContext)}
    {req req₁ : CoapReq κ} (hcalls : NextBlocks e scheduled calls req) (hsame : SamePacket req req₁)
    {c₁ : Client κ σ} {ref : ℕ} (hfind : c₁.find ref = some req₁) (status : ℤ)
    (hlen : (value req₁.blockCtx).length ≤ 3) :
    (coapReqNextBlock e ref status c₁).1 = 0 ↔
      args.pathLen + (value req₁.blockCtx).length ≤ 115 := by
  have hsubmit : (submit e (.fwDownload args) c).1 = 0 := congrArg Prod.fst hok
  have hreqs : (submit e (.fwDownload args) c).2.coapReqs = c.coapReqs ++ [scheduled] :=
    (congrArg (fun result => result.2.coapReqs) hok).trans hlisted
  rcases fwDownload_cases hz hroom with ⟨hne, -⟩ | ⟨-, -, other, hother, hpacket⟩
  · exact absurd hsubmit hne
  · have hsched : other = scheduled :=
      List.singleton_inj.mp (List.append_cancel_left (hother.symm.trans hreqs))
    rw [hsched] at hpacket
    exact (coapReqNextBlock_eq_zero_iff hheader hz horder hroom hblock2 hsubmit hreqs rfl hcalls
      hsame hfind status).trans (length_block2_le_iff hpacket hlen)

/-- A block late enough for its number and size to take three bytes. -/
def lateBlock : BlockContext where
  totalSize := 0
  current := 65536
  blockSize := 0

/-- A path that fits the packet, but not together with the block, stops the download. -/
theorem not_asksForEveryBlock (hheader : e.zephyr.HeaderContract)
    (hz : e.zephyr.WritingContract) (horder : e.zephyr.OrderContract)
    (hroom : e.zephyr.RoomContract) (hblock2 : e.zephyr.Block2Contract value)
    (haccepts : Accepts e args c) (hlong : 112 < args.pathLen) :
    ¬ AsksForEveryBlock e args c := by
  intro hasks
  rcases fwDownload_cases hz hroom with ⟨-, hnot⟩ | ⟨hok, -, scheduled, hlisted, -⟩
  · exact hnot haccepts
  · have hresult : fwDownload e args c = (0, (fwDownload e args c).2) := Prod.ext hok rfl
    set asked : CoapReq κ := { scheduled with blockCtx := lateBlock } with hasked
    have hsame : SamePacket scheduled asked := ⟨rfl, rfl, rfl⟩
    have hfind : ({ c with coapReqs := [asked] } : Client κ σ).find asked.ref = some asked := by
      simp [Client.find]
    have hlen : (value asked.blockCtx).length = 3 :=
      hblock2.length_eq lateBlock (by decide) (by decide) (by decide)
    have hsize : lateBlock.blockSize < 7 := by decide
    have hnum : lateBlock.current / coapBlockSizeToBytes lateBlock.blockSize < 2 ^ 20 := by decide
    have hzero := hasks _ _ hresult hlisted [] scheduled .none asked _ asked.ref 0 hsame hfind
      hsize hnum
    rw [nextBlock_of_download_iff hheader hz horder hroom hblock2 hresult hlisted .none hsame hfind
      0 hlen.le, hlen] at hzero
    omega

/-- **Room for every block.** A download can ask for every block exactly if the options for its
path leave room for the longest option that names one, or if it is not accepted. -/
theorem asksForEveryBlock_iff (hheader : e.zephyr.HeaderContract)
    (hz : e.zephyr.WritingContract) (horder : e.zephyr.OrderContract)
    (hroom : e.zephyr.RoomContract) (hblock2 : e.zephyr.Block2Contract value) :
    AsksForEveryBlock e args c ↔ (Accepts e args c → args.pathLen ≤ 112) := by
  constructor
  · intro hasks haccepts
    by_contra hlong
    exact not_asksForEveryBlock hheader hz horder hroom hblock2 haccepts (not_le.mp hlong) hasks
  · intro hshort c' scheduled hok hlisted calls req hcalls req₁ c₁ ref status hsame hfind hsize hnum
    have hpath : args.pathLen ≤ 112 := by
      rcases @fwDownload_cases κ σ e c args hz hroom with ⟨hne, -⟩ | ⟨-, haccepts, -⟩
      · exact absurd (congrArg Prod.fst hok) hne
      · exact hshort haccepts
    have hlen := hblock2.length_le req₁.blockCtx hsize hnum
    rw [nextBlock_of_download_iff hheader hz horder hroom hblock2 hok hlisted hcalls hsame hfind
      status hlen]
    omega

theorem asksForEveryBlock_iff_sample :
    AsksForEveryBlock .quiet (downloadOf (ascii "/fw/1.0.0/main")) connectedClient ↔
      (Accepts .quiet (downloadOf (ascii "/fw/1.0.0/main")) connectedClient →
        (downloadOf (ascii "/fw/1.0.0/main")).pathLen ≤ 112) :=
  asksForEveryBlock_iff Reference.headerContract Reference.writingContract Reference.orderContract
    Reference.roomContract Reference.block2Contract

/-- A segment of 111 bytes is accepted, and block 4096 cannot be asked for. -/
theorem longUri_not_asksForEveryBlock :
    (fwDownload .quiet (downloadOf (List.replicate 111 97)) connectedClient).1 = 0 ∧
      ¬ AsksForEveryBlock .quiet (downloadOf (List.replicate 111 97)) connectedClient := by
  have haccepts : Accepts .quiet (downloadOf (List.replicate 111 97)) connectedClient :=
    ⟨⟨rfl, rfl⟩, rfl, by decide⟩
  constructor
  · rcases fwDownload_cases (e := .quiet) Reference.writingContract Reference.roomContract with
      ⟨-, hnot⟩ | ⟨hok, -⟩
    · exact absurd haccepts hnot
    · exact hok
  · exact not_asksForEveryBlock Reference.headerContract Reference.writingContract
      Reference.orderContract Reference.roomContract Reference.block2Contract haccepts (by decide)

end Room

end Golioth.Requests
