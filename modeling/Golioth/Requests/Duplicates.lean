/-
# Duplicate blocks

The response handler takes a block up into the block context before it looks whether
the block was had already, and puts back the offset alone. A copy of an earlier block
is therefore without effect where the library takes it up with the size and the total
that are on record. The library refuses a block larger than the size negotiated, so
that once the server has turned to smaller blocks a late copy of a larger one ends the
request.
-/
import Golioth.Requests.Following

namespace Golioth.Requests

open Golioth.Coap CS

variable {κ σ : Type} {e : Env κ σ} {c c' : Client κ σ} {ref : ℕ} {req : CoapReq κ}
  {rx : RxPacket}

/-! ## Copies -/

/-- A packet is accepted for a request as a block of its response: it is handed to the
callback, with more to follow. -/
structure AcceptedBlock (e : Env κ σ) (ref : ℕ) (rx : RxPacket) (c : Client κ σ)
    (req : CoapReq κ) : Prop where
  answered : answered e rx c = some req
  ref_eq : req.ref = ref
  inOrder : ¬ OutOfOrder e rx c req
  offered : ∃ blockCtx rsp, verdict e.zephyr req rx = .offer blockCtx rsp

/-- Nothing happened to a request: no callback was invoked, and the request is listed
still, with the block context it had. -/
structure NoEffect (ref : ℕ) (c c' : Client κ σ) : Prop where
  silent : ∀ other, invocations (c'.history other) = invocations (c.history other)
  kept : ∃ req req', c.find ref = some req ∧ c'.find ref = some req' ∧
    req'.blockCtx = req.blockCtx

/-- A block no larger than the size negotiated that starts before the expected offset. -/
structure Had (rx : RxPacket) (blockCtx : BlockContext) : Prop where
  size_le : blockSzx (coapGetOptionInt rx .block2) ≤ blockCtx.blockSize
  start_lt : blockStart (coapGetOptionInt rx .block2) < blockCtx.current

/-- A block of the size negotiated that announces no total but the one on record. -/
structure Agrees (rx : RxPacket) (blockCtx : BlockContext) : Prop where
  size_eq : blockSzx (coapGetOptionInt rx .block2) = blockCtx.blockSize
  total_eq : Zephyr.announcedTotal rx = 0 ∨ Zephyr.announcedTotal rx = blockCtx.totalSize

/-- The block context a block leaves that was had already. -/
def contextAfter (rx : RxPacket) (blockCtx : BlockContext) : BlockContext where
  totalSize := if Zephyr.announcedTotal rx ≠ 0 then Zephyr.announcedTotal rx
    else blockCtx.totalSize
  current := blockCtx.current
  blockSize := blockSzx (coapGetOptionInt rx .block2)

theorem contextAfter_eq_self_iff {blockCtx : BlockContext} :
    contextAfter rx blockCtx = blockCtx ↔ Agrees rx blockCtx := by
  obtain ⟨totalSize, current, blockSize⟩ := blockCtx
  simp only [contextAfter, BlockContext.mk.injEq, true_and]
  constructor
  · rintro ⟨htotal, hsize⟩
    refine ⟨hsize, ?_⟩
    split at htotal
    · exact .inr htotal
    · next hnone => exact .inl (not_not.mp hnone)
  · rintro ⟨hsize, htotal⟩
    refine ⟨?_, hsize⟩
    split
    · next hsome => exact htotal.resolve_left hsome
    · rfl

private theorem block2_ne_enoent (hblock : Zephyr.WellFormedBlock2 rx) :
    coapGetOptionInt rx .block2 ≠ -Errno.enoent := by
  have hnonneg := hblock.nonneg
  have : -Errno.enoent < 0 := by decide
  omega

/-- **Decision.** The handler drops a block that was had already. -/
theorem verdict_of_had {z : Zephyr} (hupdate : z.UpdateContract)
    (hnegotiate : z.NegotiationContract) (hblock : Zephyr.WellFormedBlock2 rx)
    (hcode : coapCodeToPosix rx.code = 0) (hhad : Had rx req.blockCtx) :
    verdict z req rx = .ignore (contextAfter rx req.blockCtx) := by
  have hresponse := responseCode_of_success hcode
  have hok := (hnegotiate rx req.blockCtx hresponse hblock).mpr fun _ => hhad.size_le
  have hctx := hupdate rx req.blockCtx hresponse hblock hok
  have hstart : (z.coapUpdateFromBlock rx req.blockCtx).2.current < req.blockCtx.current := by
    rw [hctx]
    exact hhad.start_lt
  simp only [verdict, blockVerdict, hcode, block2_ne_enoent hblock, hok, hstart, ne_eq,
    not_true_eq_false, not_false_eq_true, if_true, if_false]
  rw [hctx, min_eq_left hhad.size_le]
  rfl

/-- It drops no other. -/
theorem had_of_ignore {z : Zephyr} (hupdate : z.UpdateContract)
    (hnegotiate : z.NegotiationContract) (hblock : Zephyr.WellFormedBlock2 rx)
    {blockCtx : BlockContext} (hverdict : verdict z req rx = .ignore blockCtx) :
    Had rx req.blockCtx := by
  obtain ⟨hcode, -, hok, hstart, -⟩ := verdict_eq_ignore hverdict
  have hresponse := responseCode_of_success hcode
  rw [hupdate rx req.blockCtx hresponse hblock hok] at hstart
  have hpos : 0 < req.blockCtx.current := Nat.zero_lt_of_lt hstart
  exact ⟨(hnegotiate rx req.blockCtx hresponse hblock).mp hok hpos, hstart⟩

/-- A decision without an invocation is to ignore the response. -/
private theorem ignored_of_silent (hwf : WellFormed c) (hfind : c.find ref = some req)
    {v : Verdict} (hconsistent : v.Consistent req.isObserve)
    (hsilent : invocations ((v.carryOut e req c).history ref) = invocations (c.history ref)) :
    ∃ blockCtx, v = .ignore blockCtx := by
  obtain ⟨events, hhistory, hhead⟩ := head_carryOut (e := e) hwf hfind v hconsistent
  rw [hhistory, invocations_append, List.append_right_eq_self] at hsilent
  have hnone : v.rsp = none := by
    cases hrsp : v.rsp with
    | none => rfl
    | some rsp =>
      rw [hrsp, Option.map_some] at hhead
      obtain ⟨rest, rfl⟩ := List.head?_eq_some_iff.mp hhead
      cases hsilent
  cases v with
  | ignore blockCtx => exact ⟨blockCtx, rfl⟩
  | deliver blockCtx rsp err => cases hnone
  | offer blockCtx rsp => cases hnone

private theorem noEffect_of_same (hlisted : ref ∈ c.refs)
    (hlog : c'.log = c.log) (hfind : c'.find ref = c.find ref) : NoEffect ref c c' := by
  obtain ⟨req, hreq⟩ := c.mem_refs_iff.mp hlisted
  refine ⟨fun other => ?_, req, req, hreq, hfind.trans hreq, rfl⟩
  rw [Client.history, hlog, Client.history]

/-- **When a copy of a block is harmless.** Let a packet have been accepted for a
request as a block, and let the request be listed still. The same packet once more is
without effect if and only if whichever request it is taken for drops it as out of
order or has had the block, and, where that is the request itself, the block has the
size negotiated by now and announces no other total. -/
theorem noEffect_iff (hupdate : e.zephyr.UpdateContract)
    (hnegotiate : e.zephyr.NegotiationContract) {app : σ} {c₀ : Client κ σ} {req₀ : CoapReq κ}
    (hreach : Reachable e app c₀) (haccepted : AcceptedBlock e ref rx c₀ req₀)
    (hblock : Zephyr.WellFormedBlock2 rx) {ops : List (Op κ)}
    (hrun : Run (Step e) (.processRx rx :: ops) c₀ c) (hlisted : ref ∈ c.refs) :
    NoEffect ref c (coapReqProcessRx e rx c) ↔
      ∀ req, answered e rx c = some req → OutOfOrder e rx c req ∨
        Had rx req.blockCtx ∧ (req.ref = ref → Agrees rx req.blockCtx) := by
  have hwf := wellFormed_of_reachable (hreach.trans ⟨_, hrun⟩)
  have hcode : coapCodeToPosix rx.code = 0 := by
    obtain ⟨blockCtx, rsp, hoffered⟩ := haccepted.offered
    by_contra hcode
    rw [verdict, if_pos hcode] at hoffered
    cases hoffered
  constructor
  · intro h req hanswered
    rw [or_iff_not_imp_left]
    intro hinOrder
    obtain ⟨c₁, reply, hwf₁, hfind₁, hlog₁, -, hrx⟩ := processRx_of_inOrder hwf hanswered hinOrder
    have hsilent := h.silent req.ref
    have hhistory₁ : c.history req.ref = c₁.history req.ref := by
      rw [Client.history, ← hlog₁, Client.history]
    rw [hrx, hhistory₁] at hsilent
    obtain ⟨blockCtx, hverdict⟩ := ignored_of_silent hwf₁ hfind₁
      (consistent_verdict e.zephyr req rx) hsilent
    have hhad := had_of_ignore hupdate hnegotiate hblock hverdict
    refine ⟨hhad, fun href => ?_⟩
    -- for the request itself the context that is left is the one it had
    subst href
    obtain ⟨req₁, req₂, hfind, hfind₂, hsame⟩ := h.kept
    rw [find_answered hwf hanswered, Option.some_inj] at hfind
    subst hfind
    have hafter := verdict_of_had hupdate hnegotiate hblock hcode hhad
    rw [hrx, hafter, (carryOut_ignore hfind₁ _).1, Option.some_inj] at hfind₂
    subst hfind₂
    exact contextAfter_eq_self_iff.mp hsame
  · intro h
    cases hanswered : answered e rx c with
    | none =>
      rw [processRx_of_none hanswered]
      exact noEffect_of_same hlisted rfl rfl
    | some req =>
      by_cases hinOrder : OutOfOrder e rx c req
      · rw [processRx_of_outOfOrder hanswered hinOrder]
        exact noEffect_of_same hlisted rfl rfl
      · obtain ⟨hhad, hagrees⟩ := (h req hanswered).resolve_left hinOrder
        obtain ⟨c₁, reply, hwf₁, hfind₁, hlog₁, -, hrx⟩ :=
          processRx_of_inOrder hwf hanswered hinOrder
        have hverdict := verdict_of_had hupdate hnegotiate hblock hcode hhad
        obtain ⟨hkept, hlog⟩ := carryOut_ignore (e := e) hfind₁ (contextAfter rx req.blockCtx)
        rw [hverdict] at hrx
        have hlog' : (coapReqProcessRx e rx c).log = c.log := by rw [hrx, hlog, hlog₁]
        by_cases href : req.ref = ref
        · subst href
          refine ⟨fun other => ?_, req, _, find_answered hwf hanswered, hrx ▸ hkept, ?_⟩
          · rw [Client.history, hlog', Client.history]
          · exact contextAfter_eq_self_iff.mpr (hagrees rfl)
        · refine noEffect_of_same hlisted hlog' ?_
          refine (processRx_frame hwf (hwf.refs_lt ref hlisted) fun req' hanswered' => ?_).1
          rw [Option.some_inj.mp (hanswered'.symm.trans hanswered)]
          exact href

/-- The library as far as it looks at the size of a block. -/
def Reference.negotiating : Zephyr where
  __ := Reference.zephyr
  coapUpdateFromBlock rx context :=
    let block := coapGetOptionInt rx .block2
    if 0 < context.current ∧ context.blockSize < blockSzx block then (-Errno.einval, context)
    else
      (0,
        { totalSize := if Zephyr.announcedTotal rx ≠ 0 then Zephyr.announcedTotal rx
            else context.totalSize
          current := blockNum block * coapBlockSizeToBytes (blockSzx block)
          blockSize := min (blockSzx block) context.blockSize })

/-- The quiet environment with this library. -/
def Env.negotiating : Env Unit Unit := { Env.quiet with zephyr := Reference.negotiating }

private theorem updateContract_negotiating : Env.negotiating.zephyr.UpdateContract := by
  intro rx context _ _ hok
  change (Reference.negotiating.coapUpdateFromBlock rx context).1 = 0 at hok
  change (Reference.negotiating.coapUpdateFromBlock rx context).2 = _
  have hfailed : -Errno.einval ≠ 0 := by decide
  simp only [Reference.negotiating] at hok ⊢
  split_ifs at hok ⊢
  all_goals first | rfl | exact absurd hok hfailed

private theorem negotiationContract_negotiating :
    Env.negotiating.zephyr.NegotiationContract := by
  intro rx context _ _
  change (Reference.negotiating.coapUpdateFromBlock rx context).1 = 0 ↔ _
  have hfailed : -Errno.einval ≠ 0 := by decide
  simp only [Reference.negotiating]
  by_cases hlarger : 0 < context.current ∧
      context.blockSize < blockSzx (coapGetOptionInt rx .block2)
  · rw [if_pos hlarger]
    exact iff_of_false hfailed fun h => absurd (h hlarger.1) (not_le.mpr hlarger.2)
  · rw [if_neg hlarger]
    exact iff_of_true rfl fun hpos => not_lt.mp fun hlt => hlarger ⟨hpos, hlt⟩

/-- A block of zeros in a response of which more follows. -/
def blockOfZeros (num szx : ℕ) : RxPacket where
  type := .ack
  code := 69
  id := 0
  token := firstToken
  options := [(.block2, blockValue num true szx)]
  payload := List.replicate (coapBlockSizeToBytes szx) 0

private theorem wellFormed_blockOfZeros : Zephyr.WellFormedBlock2 (blockOfZeros 0 1) where
  nonneg := by decide
  three_bytes := by decide
  szx_lt := by decide
  no_block1 := by decide

/-- A connected client with one request. -/
def zerosRun : Option (Client Unit Unit) :=
  execute .negotiating [.onConnect, .submit (.getA () false)] ()

/-- After some packets: what is listed, with the block contexts, and what is listed
after a copy of the first block. -/
def zerosAfter (rxs : List RxPacket) : Option (List ℕ × List BlockContext × List ℕ) :=
  (zerosRun.bind (Run.execute (perform .negotiating) (rxs.map .processRx))).map fun c =>
    (c.refs, c.coapReqs.map (·.blockCtx),
      (coapReqProcessRx .negotiating (blockOfZeros 0 1) c).refs)

private theorem accepted_blockOfZeros :
    ∃ c req, zerosRun = some c ∧ AcceptedBlock .negotiating 0 (blockOfZeros 0 1) c req := by
  have hfacts : (zerosRun.bind fun c => (answered .negotiating (blockOfZeros 0 1) c).map
      fun req => (req.ref, match verdict Reference.negotiating req (blockOfZeros 0 1) with
        | .offer _ _ => true
        | _ => false)) = some (0, true) := by decide
  obtain ⟨c, hrun, hfacts⟩ := Option.bind_eq_some_iff.mp hfacts
  obtain ⟨req, hanswered, hreq⟩ := Option.map_eq_some_iff.mp hfacts
  obtain ⟨href, hoffer⟩ := Prod.mk.inj hreq
  refine ⟨c, req, hrun, hanswered, href, fun h => absurd rfl h.1, ?_⟩
  split at hoffer
  · next blockCtx rsp hverdict => exact ⟨blockCtx, rsp, hverdict⟩
  · cases hoffer

/-- After a first block of thirty-two bytes and a second one of sixteen, a copy of the
first ends the request. -/
theorem lateCopy_ends :
    ∃ c₀ c req, zerosRun = some c₀ ∧ AcceptedBlock .negotiating 0 (blockOfZeros 0 1) c₀ req ∧
      Run (Step .negotiating) [.processRx (blockOfZeros 0 1), .processRx (blockOfZeros 2 0)] c₀ c ∧
      0 ∈ c.refs ∧ ¬ NoEffect 0 c (coapReqProcessRx .negotiating (blockOfZeros 0 1) c) := by
  obtain ⟨c₀, req, hrun, haccepted⟩ := accepted_blockOfZeros
  have hfacts : zerosAfter [blockOfZeros 0 1, blockOfZeros 2 0] =
      some ([0], [⟨0, 48, 0⟩], []) := by decide +kernel
  rw [zerosAfter, hrun, Option.bind_some] at hfacts
  obtain ⟨c, hrest, hc⟩ := Option.map_eq_some_iff.mp hfacts
  obtain ⟨hlisted, -, hgone⟩ := by simpa only [Prod.mk.injEq] using hc
  refine ⟨c₀, c, req, hrun, haccepted, Run.of_execute hrest, ?_, fun h => ?_⟩
  · rw [hlisted]
    exact List.mem_singleton_self 0
  · obtain ⟨_, req', _, hfind, _⟩ := h.kept
    have hmem := (Client.mem_refs_iff _).mpr ⟨req', hfind⟩
    rw [hgone] at hmem
    cases hmem

/-- A copy that arrives before that is without effect. -/
theorem noEffect_iff_firstBlock :
    ∃ c₀ c req, zerosRun = some c₀ ∧ AcceptedBlock .negotiating 0 (blockOfZeros 0 1) c₀ req ∧
      Run (Step .negotiating) [.processRx (blockOfZeros 0 1)] c₀ c ∧
      NoEffect 0 c (coapReqProcessRx .negotiating (blockOfZeros 0 1) c) := by
  obtain ⟨c₀, req, hrun, haccepted⟩ := accepted_blockOfZeros
  have hfacts : zerosAfter [blockOfZeros 0 1] = some ([0], [⟨0, 32, 1⟩], [0]) := by
    decide +kernel
  rw [zerosAfter, hrun, Option.bind_some] at hfacts
  obtain ⟨c, hrest, hc⟩ := Option.map_eq_some_iff.mp hfacts
  obtain ⟨hlisted, hctx, -⟩ := by simpa only [Prod.mk.injEq] using hc
  have hrun' : Run (Step .negotiating) [.processRx (blockOfZeros 0 1)] c₀ c := Run.of_execute hrest
  have hzero : 0 ∈ c.refs := by
    rw [hlisted]
    exact List.mem_singleton_self 0
  refine ⟨c₀, c, req, hrun, haccepted, hrun',
    (noEffect_iff updateContract_negotiating negotiationContract_negotiating
      (reachable_of_execute _ hrun) haccepted wellFormed_blockOfZeros hrun' hzero).mpr
      fun req' hanswered => .inr ?_⟩
  have hmem := List.mem_map_of_mem (f := (·.blockCtx)) (List.mem_of_find?_eq_some hanswered)
  rw [hctx, List.mem_singleton] at hmem
  rw [hmem]
  exact ⟨⟨by decide, by decide⟩, fun _ => ⟨by decide, .inl (by decide)⟩⟩

/-! ## What a copy finds -/

/-- While a request is listed it is no observation, expects an offset from `offset` on,
and its block size is `szx` at most. -/
def Ahead (offset szx : ℕ) (listed : Option (CoapReq κ)) (_ : List Event) : Prop :=
  ∀ req, listed = some req →
    req.isObserve = false ∧ offset ≤ req.blockCtx.current ∧ req.blockCtx.blockSize ≤ szx

private theorem keeps_ahead (offset szx : ℕ) : Keeps (Ahead (κ := κ) offset szx) ref where
  rearm req events pending h req' hreq' := by
    obtain rfl := Option.some_inj.mp hreq'
    exact h req rfl
  note req events reply h req' hreq' := by
    obtain rfl := Option.some_inj.mp hreq'
    exact h req rfl
  send req events h := h
  close req events rsp ret _ _ _ req' hreq' := by cases hreq'

/-- **Decision.** The handler moves neither back nor to a larger block. -/
private theorem verdict_forward {z : Zephyr} (hmonotone : z.MonotoneContract)
    {blockCtx : BlockContext}
    (h : verdict z req rx = .ignore blockCtx ∨ ∃ rsp, verdict z req rx = .offer blockCtx rsp) :
    req.blockCtx.current ≤ blockCtx.current ∧ blockCtx.blockSize ≤ req.blockCtx.blockSize := by
  have hsize := hmonotone.blockSize_le rx req.blockCtx
  rcases h with hverdict | ⟨rsp, hverdict⟩
  · obtain ⟨-, -, -, -, rfl⟩ := verdict_eq_ignore hverdict
    exact ⟨le_rfl, hsize⟩
  · obtain ⟨-, hnew, rfl⟩ := verdict_eq_offer hverdict
    obtain ⟨hadvances, hsame⟩ := hmonotone.advances rx (z.coapUpdateFromBlock rx req.blockCtx).2
    exact ⟨hnew.trans hadvances, hsame.trans_le hsize⟩

private theorem survives_ahead {offset szx : ℕ} {v : Verdict} {events : List Event}
    (hobserve : req.isObserve = false) (hconsistent : v.Consistent req.isObserve)
    (hforward : ∀ blockCtx, (v = .ignore blockCtx ∨ ∃ rsp, v = .offer blockCtx rsp) →
      offset ≤ blockCtx.current ∧ blockCtx.blockSize ≤ szx) :
    Survives e (Ahead offset szx) ref req events v := by
  intro c reply hwf hfind hhistory _ req' hreq'
  have hplain : CoapReq.isObserve { req with reply := reply } = false := hobserve
  cases v with
  | ignore blockCtx =>
    rw [(carryOut_ignore hfind blockCtx).1, Option.some_inj] at hreq'
    subst hreq'
    exact ⟨hobserve, hforward blockCtx (.inl rfl)⟩
  | deliver blockCtx rsp err =>
    obtain ⟨ret, -, hgone⟩ := carryOut_deliver (e := e) hwf hfind blockCtx err hconsistent.1
    have hfinal : ¬ (CoapReq.isObserve { req with reply := reply } = true ∧ err = 0) := by
      simp [hobserve]
    rw [hgone, if_neg hfinal] at hreq'
    cases hreq'
  | offer blockCtx rsp =>
    obtain ⟨ret, req'', hprepared, -, -, hkept⟩ :=
      carryOut_offer (e := e) hwf hfind hplain blockCtx rsp
    rw [hkept] at hreq'
    split at hreq'
    · cases hreq'
    · obtain rfl := Option.some_inj.mp hreq'
      rw [hprepared.same.isObserve, hprepared.same.blockCtx]
      exact ⟨hplain, hforward blockCtx (.inr ⟨rsp, rfl⟩)⟩

/-- An accepted block that does not end past the total puts the offset behind its end. -/
private theorem ahead_of_accept (hupdate : e.zephyr.UpdateContract)
    (hnext : e.zephyr.NextBlockContract) (hwf : WellFormed c)
    (haccepted : AcceptedBlock e ref rx c req)
    (hobserve : req.isObserve = false) (hblock : Zephyr.WellFormedBlock2 rx)
    (hfits : ¬ Zephyr.Overruns rx (e.zephyr.coapUpdateFromBlock rx req.blockCtx).2) :
    Follows (Ahead (blockStart (coapGetOptionInt rx .block2) + rx.payload.length)
      (blockSzx (coapGetOptionInt rx .block2))) ref (coapReqProcessRx e rx c) := by
  obtain ⟨hanswered, rfl, hinOrder, blockCtx, rsp, hverdict⟩ := haccepted
  obtain ⟨hok, -, rfl⟩ := verdict_eq_offer hverdict
  have hcode : coapCodeToPosix rx.code = 0 := by
    by_contra hfailed
    rw [verdict, if_pos hfailed] at hverdict
    cases hverdict
  obtain ⟨c₁, reply, hwf₁, hfind₁, hlog₁, hnext₁, hrx⟩ :=
    processRx_of_inOrder hwf hanswered hinOrder
  have hstep : Step e (.processRx rx) c (coapReqProcessRx e rx c) := rfl
  have hlt := hwf.refs_lt req.ref (c.mem_refs_iff.mpr ⟨req, find_answered hwf hanswered⟩)
  obtain ⟨hwf', hle⟩ := wellFormed_of_run (perform_run hwf hstep) hwf
  refine ⟨hwf', hlt.trans_le hle, fun req' hreq' => ?_⟩
  have hplain : CoapReq.isObserve { req with reply := reply } = false := hobserve
  obtain ⟨ret, req'', hprepared, -, -, hkept⟩ :=
    carryOut_offer (e := e) hwf₁ hfind₁ hplain _ rsp
  rw [hrx, hverdict, hkept] at hreq'
  split at hreq'
  · cases hreq'
  · obtain rfl := Option.some_inj.mp hreq'
    rw [hprepared.same.isObserve, hprepared.same.blockCtx]
    dsimp only
    rw [hnext.advance rx _ hblock.nonneg hfits,
      hupdate rx req.blockCtx (responseCode_of_success hcode) hblock hok]
    exact ⟨hplain, le_rfl, min_le_left _ _⟩

/-- **What a copy finds.** After a block was accepted for a request that is not an
observation, and did not end past the total, a listed request expects an offset from
the end of the block on, and the size negotiated is that of the block at most. A copy
of a block with data is had therefore if and only if the server has not turned to
smaller blocks. -/
theorem had_iff_of_accepted (hupdate : e.zephyr.UpdateContract)
    (hnext : e.zephyr.NextBlockContract) (hmonotone : e.zephyr.MonotoneContract) {app : σ}
    {c₀ : Client κ σ} {req₀ : CoapReq κ} (hreach : Reachable e app c₀)
    (haccepted : AcceptedBlock e ref rx c₀ req₀) (hobserve : req₀.isObserve = false)
    (hblock : Zephyr.WellFormedBlock2 rx) (hdata : rx.payload ≠ [])
    (hfits : ¬ Zephyr.Overruns rx (e.zephyr.coapUpdateFromBlock rx req₀.blockCtx).2)
    {ops : List (Op κ)} (hrun : Run (Step e) (.processRx rx :: ops) c₀ c)
    (hfind : c.find ref = some req) :
    Had rx req.blockCtx ↔ blockSzx (coapGetOptionInt rx .block2) = req.blockCtx.blockSize := by
  obtain ⟨c₁, hstep, hrest⟩ := Run.cons_iff.mp hrun
  obtain rfl := Option.some_inj.mp hstep
  have hahead := hrest.invariant _ (fun op d d' h hstep => ?_)
    (ahead_of_accept hupdate hnext (wellFormed_of_reachable hreach) haccepted hobserve hblock hfits)
  · obtain ⟨-, hcurrent, hsize⟩ := hahead.holds req hfind
    have hpos := List.length_pos_of_ne_nil hdata
    exact ⟨fun h => le_antisymm h.size_le hsize, fun h => ⟨h.le, by omega⟩⟩
  · refine h.step (keeps_ahead _ _) (fun rx' req' _ hanswered href => ?_) hstep
    have hfind' := find_answered h.wellFormed hanswered
    rw [href] at hfind'
    obtain ⟨hplain, hcurrent, hsize⟩ := h.holds req' hfind'
    refine survives_ahead hplain (consistent_verdict e.zephyr req' rx') fun blockCtx hv => ?_
    obtain ⟨hfront, hsmall⟩ := verdict_forward hmonotone hv
    exact ⟨hcurrent.trans hfront, hsmall.trans hsize⟩

end Golioth.Requests
