/-
# Reading a LightDB value into a buffer

`golioth_lightdb_get` of `lightdb.c` stores the blocks of a response in a buffer of
its caller. It checks the announced total against the capacity, but writes at the
offset of the block, and reports the total as the length. That is right as long
as the blocks follow one another and agree with the total; the last section shows
a block for which it is not.
-/
import Golioth.Requests.Sync

namespace Golioth.Lightdb

open Golioth.Coap Golioth.Requests

variable {κ σ : Type} {e : Env κ σ} {c c' : Client κ σ} {ref capacity : ℕ} {k : κ}
  {req : CoapReq κ} {rx : RxPacket}

/-! ## The calls -/

/-- `struct golioth_lightdb_get_prealloc_data`. The buffer is represented by the
writes to it, each an offset and the bytes. -/
structure GetPreallocData where
  data : List (ℕ × List UInt8)
  capacity : ℕ
  len : ℕ
  deriving DecidableEq

/-- The total `golioth_lightdb_get_prealloc_cb` goes by: the announced one, or
what has been received with this response if none is announced. -/
def totalOf (rsp : Rsp) : ℕ := if rsp.total = 0 then sizeAdd rsp.off rsp.len else rsp.total

/-- `golioth_lightdb_get_prealloc_cb`. -/
def goliothLightdbGetPreallocCb (rsp : Rsp) (preallocData : GetPreallocData) :
    ℤ × GetPreallocData :=
  if preallocData.capacity < totalOf rsp then (-Errno.enospc, preallocData)
  else
    (0, { preallocData with
      len := totalOf rsp
      data := preallocData.data ++ [(rsp.off, rsp.data)] })

/-- `LIGHTDB_PATH`. -/
def lightdbPath : List UInt8 := [46, 100]

/-- The request `golioth_lightdb_get` makes. -/
def goliothLightdbGetArgs (path : List UInt8) (format : ℕ) (k : κ) (userData : ℕ) :
    Submission κ :=
  .reqCb
    { method := .get, pathv := [lightdbPath, path], format := format, data := none, dataLen := 0
      cb := some k, userData := userData, flagObserve := false, flagNoRespBody := false }

/-- The data of `golioth_lightdb_get` when it makes its request. -/
def initialData (capacity : ℕ) : SyncData GetPreallocData where
  sem := false
  err := 0
  userData := { data := [], capacity := capacity, len := 0 }

/-- What `golioth_lightdb_get` returns once its request was accepted, and the
length it reports if that is zero. -/
def goliothLightdbGet (syncData : SyncData GetPreallocData) : Option (ℤ × Option ℕ) :=
  (goliothCoapReqSync syncData).map fun err =>
    if err ≠ 0 then (err, none) else (0, some syncData.userData.len)

/-- The data of a call after some events of its request. -/
def dataAfter (capacity : ℕ) (events : List Event) : SyncData GetPreallocData :=
  (initialData capacity).after (some goliothLightdbGetPreallocCb) events

/-- The function pointer `k` is the callback of a call with the given capacity.
What it returns does not depend on the rest of its data. -/
def RunsGet (e : Env κ σ) (k : κ) (capacity : ℕ) : Prop :=
  ∀ rsp syncData, syncData.userData.capacity = capacity →
    e.code k rsp = (goliothReqSyncCb (some goliothLightdbGetPreallocCb) rsp syncData).1.program

/-! ## What a call promises -/

/-- All bytes below a bound have been written. -/
def Covers (data : List (ℕ × List UInt8)) (bound : ℕ) : Prop :=
  ∀ i < bound, ∃ write ∈ data, write.1 ≤ i ∧ i < write.1 + write.2.length

/-- A call is memory safe and complete: no write leaves the buffer, and if the
call returns zero, the length it reports is at most the capacity and all bytes
below it have been written. -/
structure Sound (capacity : ℕ) (syncData : SyncData GetPreallocData) : Prop where
  inside : ∀ write ∈ syncData.userData.data, write.1 + write.2.length ≤ capacity
  complete : ∀ len, goliothLightdbGet syncData = some (0, some len) →
    len ≤ capacity ∧ Covers syncData.userData.data len

/-! ## Blocks that agree with their total -/

/-- A block follows the ones before it and agrees with the total: it starts where
the last one ended and does not end past the total; if it is the last it ends
there; and if it is too much for the buffer, the length reported so far is no
more than has been received. -/
structure Agrees (capacity len : ℕ) (rx : RxPacket) (req : CoapReq κ) (context : BlockContext) :
    Prop where
  nonneg : 0 ≤ coapGetOptionInt rx .block2
  bounded : context.current + rx.payload.length < sizeModulus
  follows : context.current ≤ req.blockCtx.current
  within : ¬ Zephyr.Overruns rx context
  ends : context.totalSize = 0 ∨ context.current + rx.payload.length = context.totalSize ∨
    blockMore (coapGetOptionInt rx .block2) = true ∧ 0 < context.current + rx.payload.length
  affordable : capacity <
      (if context.totalSize = 0 then context.current + rx.payload.length else context.totalSize) →
    len ≤ req.blockCtx.current

/-- Every response to the request of a call is an error, or has been had, or
agrees with its total. -/
def Agreeing (e : Env κ σ) (capacity ref : ℕ) : Op κ → Client κ σ → Prop
  | .processRx rx, c => ∀ req, answered e rx c = some req → req.ref = ref →
      coapCodeToPosix rx.code = 0 →
      if coapGetOptionInt rx .block2 = -Errno.enoent then
        capacity < rx.payload.length →
          (dataAfter capacity (c.history ref)).userData.len ≤ req.blockCtx.current
      else
        (e.zephyr.coapUpdateFromBlock rx req.blockCtx).1 = 0 →
          req.blockCtx.current ≤ (e.zephyr.coapUpdateFromBlock rx req.blockCtx).2.current →
          Agrees capacity (dataAfter capacity (c.history ref)).userData.len rx req
            (e.zephyr.coapUpdateFromBlock rx req.blockCtx).2
  | _, _ => True

/-- The invariant of a call. While its request is listed, the semaphore has not
been given, and everything up to the offset of the request has been written. -/
structure Getting (k : κ) (capacity : ℕ) (listed : Option (CoapReq κ)) (events : List Event) :
    Prop where
  sound : Sound capacity (dataAfter capacity events)
  capacity_eq : (dataAfter capacity events).userData.capacity = capacity
  len_le : (dataAfter capacity events).userData.len ≤ capacity
  waiting : ∀ req, listed = some req → req.isObserve = false ∧ req.cb = some k ∧
    (dataAfter capacity events).sem = false ∧ (dataAfter capacity events).err = 0 ∧
    Covers (dataAfter capacity events).userData.data req.blockCtx.current

/-! ## Responses -/

/-- A successful response starts at the given offset or before, ends within the
buffer if its total does, and finds a reported length that is no more than the
offset if its total does not. -/
structure Fits (capacity len current : ℕ) (rsp : Rsp) : Prop where
  off_le : rsp.off ≤ current
  inside : totalOf rsp ≤ capacity → rsp.off + rsp.data.length ≤ capacity
  affordable : capacity < totalOf rsp → len ≤ current

/-- What the handler makes of a response to the request of a call, by the offset
the request has reached. -/
inductive Outcome (capacity len current : ℕ) : Verdict → Prop
  | failed (blockCtx : BlockContext) (rsp : Rsp) : rsp.err ≠ 0 → rsp.getNext = false →
      Outcome capacity len current (.deliver blockCtx rsp rsp.err)
  | stale (blockCtx : BlockContext) : blockCtx.current = current →
      Outcome capacity len current (.ignore blockCtx)
  | last (blockCtx : BlockContext) (rsp : Rsp) : rsp.err = 0 → rsp.getNext = false →
      Fits capacity len current rsp → totalOf rsp ≤ rsp.off + rsp.data.length →
      Outcome capacity len current (.deliver blockCtx rsp 0)
  | more (blockCtx : BlockContext) (rsp : Rsp) : rsp.err = 0 → rsp.getNext = true →
      Fits capacity len current rsp → blockCtx.current ≤ rsp.off + rsp.data.length →
      Outcome capacity len current (.offer blockCtx rsp)

private theorem outcome_of_plain {len : ℕ} (hcode : coapCodeToPosix rx.code = 0)
    (hblock2 : coapGetOptionInt rx .block2 = -Errno.enoent)
    (haffordable : capacity < rx.payload.length → len ≤ req.blockCtx.current) :
    Outcome capacity len req.blockCtx.current (verdict e.zephyr req rx) := by
  have htotal : totalOf
      { data := rx.payload, total := rx.payload.length, userData := req.userData } =
      rx.payload.length := by
    rw [totalOf]
    split
    · next hzero =>
      have hempty : rx.payload.length = 0 := hzero
      rw [Rsp.len, hempty]
      rfl
    · rfl
  simp only [verdict, hcode, hblock2, ne_eq, not_true_eq_false, if_false]
  refine .last _ _ rfl rfl ⟨Nat.zero_le _, fun hle => ?_, fun hlt => ?_⟩ ?_
  · rw [htotal] at hle
    rwa [Nat.zero_add]
  · exact haffordable (htotal ▸ hlt)
  · rw [htotal, Nat.zero_add]

private theorem next_of_agrees (hnext : e.zephyr.NextBlockContract) {len : ℕ}
    {context : BlockContext} (hagrees : Agrees capacity len rx req context) :
    (e.zephyr.coapNextBlockForOption rx context .block2).2 =
        { context with current := context.current + rx.payload.length } ∧
      (sizeOfInt (e.zephyr.coapNextBlockForOption rx context .block2).1 = 0 ↔
        ¬ (blockMore (coapGetOptionInt rx .block2) = true ∧
          0 < context.current + rx.payload.length)) := by
  refine ⟨hnext.advance rx context hagrees.nonneg hagrees.within, ?_⟩
  cases hmore : blockMore (coapGetOptionInt rx .block2) with
  | false =>
    rw [hnext.last rx context hagrees.nonneg hagrees.within hmore]
    simp
  | true =>
    have hbounded := hagrees.bounded
    rw [hnext.more rx context hagrees.nonneg hagrees.within hmore,
      sizeOfInt_nonneg (by omega) (by exact_mod_cast hbounded), Int.toNat_natCast]
    simp only [true_and]
    omega

private theorem totalOf_of_agrees {len : ℕ} {context : BlockContext}
    (hagrees : Agrees capacity len rx req context) (userData : ℕ) (getNext : Bool) :
    totalOf
        { data := rx.payload, off := context.current, total := context.totalSize
          getNext := getNext, userData := userData, err := 0 } =
      if context.totalSize = 0 then context.current + rx.payload.length
      else context.totalSize := by
  rw [totalOf]
  exact if_congr Iff.rfl (sizeAdd_eq hagrees.bounded) rfl

private theorem outcome_of_agrees (hnext : e.zephyr.NextBlockContract) {len : ℕ}
    (hobserve : req.isObserve = false) (hcode : coapCodeToPosix rx.code = 0)
    (hblock2 : coapGetOptionInt rx .block2 ≠ -Errno.enoent)
    (hok : (e.zephyr.coapUpdateFromBlock rx req.blockCtx).1 = 0)
    (hnew : req.blockCtx.current ≤ (e.zephyr.coapUpdateFromBlock rx req.blockCtx).2.current)
    (hagrees : Agrees capacity len rx req (e.zephyr.coapUpdateFromBlock rx req.blockCtx).2) :
    Outcome capacity len req.blockCtx.current (verdict e.zephyr req rx) := by
  obtain ⟨hadvanced, hlast⟩ := next_of_agrees hnext hagrees
  have hne : ¬ (e.zephyr.coapUpdateFromBlock rx req.blockCtx).2.current <
      req.blockCtx.current := not_lt.mpr hnew
  simp only [verdict, blockVerdict, hcode, hblock2, hok, hne, hadvanced, hobserve, ne_eq,
    not_true_eq_false, not_false_eq_true, if_true, if_false, Bool.false_eq_true]
  generalize (e.zephyr.coapUpdateFromBlock rx req.blockCtx).2 = context at *
  have htotal := fun getNext => totalOf_of_agrees hagrees req.userData getNext
  have hwithin := hagrees.within
  have hfits : ∀ getNext, Fits capacity len req.blockCtx.current
      { data := rx.payload, off := context.current, total := context.totalSize
        getNext := getNext, userData := req.userData, err := 0 } := by
    intro getNext
    refine ⟨hagrees.follows, fun hle => ?_, fun hlt => hagrees.affordable (htotal getNext ▸ hlt)⟩
    rw [htotal getNext] at hle
    rw [Zephyr.Overruns] at hwithin
    change context.current + rx.payload.length ≤ capacity
    split at hle <;> omega
  by_cases hmore : blockMore (coapGetOptionInt rx .block2) = true ∧
      0 < context.current + rx.payload.length
  · rw [if_neg (hlast.not.mpr (not_not.mpr hmore))]
    exact .more _ _ rfl rfl (hfits true) le_rfl
  · rw [if_pos (hlast.mpr hmore)]
    refine .last _ _ rfl rfl (hfits false) ?_
    rw [htotal false]
    change _ ≤ context.current + rx.payload.length
    rcases hagrees.ends with hzero | hends | hends
    · rw [if_pos hzero]
    · split <;> omega
    · exact absurd hends hmore

private theorem outcome_of_agreeing (hnext : e.zephyr.NextBlockContract)
    (hobserve : req.isObserve = false) (hanswered : answered e rx c = some req)
    (hagreeing : Agreeing e capacity req.ref (.processRx rx) c) :
    Outcome capacity (dataAfter capacity (c.history req.ref)).userData.len
      req.blockCtx.current (verdict e.zephyr req rx) := by
  have hagreeing := hagreeing req hanswered rfl
  by_cases hcode : coapCodeToPosix rx.code = 0
  · have hagreeing := hagreeing hcode
    by_cases hblock2 : coapGetOptionInt rx .block2 = -Errno.enoent
    · rw [if_pos hblock2] at hagreeing
      exact outcome_of_plain hcode hblock2 hagreeing
    · rw [if_neg hblock2] at hagreeing
      by_cases hok : (e.zephyr.coapUpdateFromBlock rx req.blockCtx).1 = 0
      · by_cases hnew : req.blockCtx.current ≤
          (e.zephyr.coapUpdateFromBlock rx req.blockCtx).2.current
        · exact outcome_of_agrees hnext hobserve hcode hblock2 hok hnew (hagreeing hok hnew)
        · simp only [verdict, blockVerdict, hcode, hblock2, hok, not_le.mp hnew, ne_eq,
            not_true_eq_false, not_false_eq_true, if_true, if_false]
          exact .stale _ rfl
      · simp only [verdict, blockVerdict, hcode, hblock2, hok, ne_eq, not_true_eq_false,
          not_false_eq_true, if_true, if_false]
        exact .failed _ { userData := req.userData, err := -Errno.ebadmsg }
          (show -Errno.ebadmsg ≠ 0 by decide) rfl
  · rw [verdict, if_pos hcode]
    exact .failed _ { userData := req.userData, err := coapCodeToPosix rx.code } hcode rfl

/-! ## The data of a call -/

section Data

variable {rsp : Rsp} {ret : ℤ} {events rest : List Event}

theorem dataAfter_called (hquiet : invocations rest = []) :
    dataAfter capacity (events ++ .called ref rsp :: rest) =
      (goliothReqSyncCb (some goliothLightdbGetPreallocCb) rsp (dataAfter capacity events)).2 := by
  rw [dataAfter, SyncData.after_append, SyncData.after_called _ _ _ _ hquiet]
  rfl

/-- A response with an error ends the call with the error. -/
private theorem Getting.fail {listed : Option (CoapReq κ)} (h : Getting k capacity listed events)
    (herr : rsp.err ≠ 0) (hquiet : invocations rest = []) :
    Getting (κ := κ) k capacity none (events ++ .called ref rsp :: rest) := by
  have hdata : dataAfter capacity (events ++ .called ref rsp :: rest) =
      { dataAfter capacity events with err := rsp.err, sem := true } := by
    rw [dataAfter_called hquiet, goliothReqSyncCb, if_pos herr]
  refine ⟨?_, ?_, ?_, nofun⟩ <;> rw [hdata]
  · refine ⟨h.sound.inside, fun len hlen => ?_⟩
    simp [goliothLightdbGet, goliothCoapReqSync, herr] at hlen
  · exact h.capacity_eq
  · exact h.len_le

private theorem Covers.mono {data : List (ℕ × List UInt8)} {bound bound' : ℕ}
    (h : Covers data bound) (hle : bound' ≤ bound) : Covers data bound' :=
  fun i hlt => h i (hlt.trans_le hle)

private theorem Covers.write {data : List (ℕ × List UInt8)} {current off bound : ℕ}
    {bytes : List UInt8} (h : Covers data current) (hoff : off ≤ current)
    (hbound : bound ≤ off + bytes.length) : Covers (data ++ [(off, bytes)]) bound := by
  intro i hi
  by_cases hold : i < current
  · obtain ⟨write, hmem, hwrite⟩ := h i hold
    exact ⟨write, List.mem_append_left _ hmem, hwrite⟩
  · exact ⟨(off, bytes), List.mem_append_right _ (List.mem_singleton_self _),
      show off ≤ i by omega, show i < off + bytes.length by omega⟩

/-- What the callback returns depends on the response and the capacity only. -/
theorem return_goliothReqSyncCb {syncData : SyncData GetPreallocData}
    (hcapacity : syncData.userData.capacity = capacity) :
    (goliothReqSyncCb (some goliothLightdbGetPreallocCb) rsp syncData).1 =
      if rsp.err ≠ 0 then ⟨false, 0⟩
      else if capacity < totalOf rsp then ⟨false, -Errno.enospc⟩ else ⟨rsp.getNext, 0⟩ := by
  have hfull : -Errno.enospc ≠ 0 := by decide
  subst hcapacity
  unfold goliothReqSyncCb goliothLightdbGetPreallocCb
  dsimp only
  by_cases herr : rsp.err ≠ 0
  · rw [if_pos herr, if_pos herr]
  · rw [if_neg herr, if_neg herr]
    by_cases htotal : syncData.userData.capacity < totalOf rsp
    · simp only [if_pos htotal, if_pos hfull]
    · simp only [if_neg htotal, ne_eq, not_true_eq_false, if_false]
      cases rsp.getNext <;> rfl

/-- What a response without an error does to the data. It is refused if its total
exceeds the capacity, and the call then returns zero all the same. -/
theorem dataAfter_success (ref : ℕ)
    (hcapacity : (dataAfter capacity events).userData.capacity = capacity)
    (herr : rsp.err = 0) (hquiet : invocations rest = []) :
    (capacity < totalOf rsp ∧
      (goliothReqSyncCb (some goliothLightdbGetPreallocCb) rsp
        (dataAfter capacity events)).1.ret = -Errno.enospc ∧
      dataAfter capacity (events ++ .called ref rsp :: rest) =
        { dataAfter capacity events with sem := true }) ∨
    (totalOf rsp ≤ capacity ∧
      (goliothReqSyncCb (some goliothLightdbGetPreallocCb) rsp
        (dataAfter capacity events)).1.ret = 0 ∧
      dataAfter capacity (events ++ .called ref rsp :: rest) =
        { sem := if rsp.getNext then (dataAfter capacity events).sem else true
          err := (dataAfter capacity events).err
          userData :=
            { data := (dataAfter capacity events).userData.data ++ [(rsp.off, rsp.data)]
              capacity := capacity
              len := totalOf rsp } }) := by
  have hfull : -Errno.enospc ≠ 0 := by decide
  rw [dataAfter_called hquiet, goliothReqSyncCb, if_neg (not_not.mpr herr)]
  by_cases htotal : capacity < totalOf rsp
  · have hrefused : goliothLightdbGetPreallocCb rsp (dataAfter capacity events).userData =
        (-Errno.enospc, (dataAfter capacity events).userData) := by
      rw [goliothLightdbGetPreallocCb, hcapacity, if_pos htotal]
    refine .inl ⟨htotal, ?_, ?_⟩ <;> simp only [hrefused, if_pos hfull]
  · have hstored : goliothLightdbGetPreallocCb rsp (dataAfter capacity events).userData =
        (0, { data := (dataAfter capacity events).userData.data ++ [(rsp.off, rsp.data)]
              capacity := capacity
              len := totalOf rsp }) := by
      rw [goliothLightdbGetPreallocCb, hcapacity, if_neg htotal]
    refine .inr ⟨not_lt.mp htotal, ?_, ?_⟩ <;>
      simp only [hstored, ne_eq, not_true_eq_false, if_false] <;> split <;> rfl

/-- The last response ends the call. -/
private theorem Getting.last {listed : Option (CoapReq κ)} {req : CoapReq κ}
    (h : Getting k capacity listed events) (hlisted : listed = some req) (herr : rsp.err = 0)
    (hnext : rsp.getNext = false)
    (hfits : Fits capacity (dataAfter capacity events).userData.len req.blockCtx.current rsp)
    (hends : totalOf rsp ≤ rsp.off + rsp.data.length) (hquiet : invocations rest = []) :
    Getting (κ := κ) k capacity none (events ++ .called ref rsp :: rest) := by
  obtain ⟨-, -, -, hok, hcovers⟩ := h.waiting req hlisted
  rcases dataAfter_success ref h.capacity_eq herr hquiet with
    ⟨hlt, -, hdata⟩ | ⟨hle, -, hdata⟩
  · refine ⟨?_, ?_, ?_, nofun⟩ <;> rw [hdata]
    · refine ⟨h.sound.inside, fun len hlen => ?_⟩
      -- the call returns zero and reports the length from before
      obtain rfl : (dataAfter capacity events).userData.len = len := by
        simpa [goliothLightdbGet, goliothCoapReqSync, hok] using hlen
      exact ⟨h.len_le, hcovers.mono (hfits.affordable hlt)⟩
    · exact h.capacity_eq
    · exact h.len_le
  · refine ⟨?_, ?_, ?_, nofun⟩ <;> rw [hdata]
    · refine ⟨fun write hmem => ?_, fun len hlen => ?_⟩
      · rcases List.mem_append.mp hmem with hmem | hmem
        · exact h.sound.inside write hmem
        · rw [List.mem_singleton.mp hmem]
          exact hfits.inside hle
      · obtain rfl : totalOf rsp = len := by
          simpa [goliothLightdbGet, goliothCoapReqSync, hok, hnext] using hlen
        exact ⟨hle, hcovers.write hfits.off_le hends⟩
    · exact hle

/-- A response with `get_next` is stored, or ends the call. -/
private theorem Getting.more {listed : Option (CoapReq κ)} {req : CoapReq κ}
    (h : Getting k capacity listed events) (hlisted : listed = some req) (herr : rsp.err = 0)
    (hnext : rsp.getNext = true)
    (hfits : Fits capacity (dataAfter capacity events).userData.len req.blockCtx.current rsp)
    (hquiet : invocations rest = []) {listed' : Option (CoapReq κ)}
    (hreturned : (goliothReqSyncCb (some goliothLightdbGetPreallocCb) rsp
      (dataAfter capacity events)).1.ret ≠ 0 → listed' = none)
    (hlisted' : ∀ req', listed' = some req' → req'.isObserve = false ∧ req'.cb = some k ∧
      req'.blockCtx.current ≤ rsp.off + rsp.data.length) :
    Getting k capacity listed' (events ++ .called ref rsp :: rest) := by
  obtain ⟨-, -, hwaiting, hok, hcovers⟩ := h.waiting req hlisted
  rcases dataAfter_success ref h.capacity_eq herr hquiet with
    ⟨hlt, hret, hdata⟩ | ⟨hle, hret, hdata⟩
  · have hgone := hreturned (by rw [hret]; decide)
    refine ⟨?_, ?_, ?_, fun req' hreq' => ?_⟩
    · rw [hdata]
      refine ⟨h.sound.inside, fun len hlen => ?_⟩
      obtain rfl : (dataAfter capacity events).userData.len = len := by
        simpa [goliothLightdbGet, goliothCoapReqSync, hok] using hlen
      exact ⟨h.len_le, hcovers.mono (hfits.affordable hlt)⟩
    · rw [hdata]
      exact h.capacity_eq
    · rw [hdata]
      exact h.len_le
    · rw [hgone] at hreq'
      cases hreq'
  · refine ⟨?_, ?_, ?_, fun req' hreq' => ?_⟩ <;> rw [hdata]
    · refine ⟨fun write hmem => ?_, fun len hlen => ?_⟩
      · rcases List.mem_append.mp hmem with hmem | hmem
        · exact h.sound.inside write hmem
        · rw [List.mem_singleton.mp hmem]
          exact hfits.inside hle
      · simp [goliothLightdbGet, goliothCoapReqSync, hwaiting, hnext] at hlen
    · exact hle
    · obtain ⟨hobserve, hcb, hcurrent⟩ := hlisted' req' hreq'
      refine ⟨hobserve, hcb, ?_, hok, hcovers.write hfits.off_le hcurrent⟩
      rw [if_pos hnext]
      exact hwaiting

end Data

/-! ## The calls over whole runs -/

private theorem keeps_getting (capacity : ℕ) : Keeps (Getting k capacity) ref where
  rearm req events pending h := by
    refine { h with waiting := fun req' hreq' => ?_ }
    obtain rfl := Option.some_inj.mp hreq'
    exact h.waiting req rfl
  note req events reply h := by
    refine { h with waiting := fun req' hreq' => ?_ }
    obtain rfl := Option.some_inj.mp hreq'
    exact h.waiting req rfl
  send req events h := by
    have hsame : dataAfter capacity (events ++ [.sent ref req.request.data]) =
        dataAfter capacity events := SyncData.after_append _ _ _ _
    exact ⟨hsame ▸ h.sound, hsame ▸ h.capacity_eq, hsame ▸ h.len_le, hsame ▸ h.waiting⟩
  close req events rsp ret herr _ h := h.fail herr rfl

/-- **Response.** What the callback makes of a response keeps the invariant. -/
private theorem survives_of_outcome (hcode : RunsGet e k capacity) {events : List Event}
    {v : Verdict}
    (houtcome : Outcome capacity (dataAfter capacity events).userData.len
      req.blockCtx.current v) :
    Survives e (Getting k capacity) ref req events v := by
  intro c reply hwf hfind hhistory h
  have houtcome : Outcome capacity (dataAfter capacity events).userData.len
    ({ req with reply := reply } : CoapReq κ).blockCtx.current v := houtcome
  obtain ⟨hobserve, hcb, -, -, hcovers⟩ := h.waiting _ rfl
  generalize { req with reply := reply } = req at *
  subst hhistory
  cases houtcome with
  | failed blockCtx rsp herr hlast =>
    obtain ⟨ret, hhistory, hgone⟩ := carryOut_deliver (e := e) hwf hfind blockCtx rsp.err hlast
    rw [if_neg fun h => herr h.2] at hhistory hgone
    rw [hgone, hhistory]
    exact h.fail herr rfl
  | stale blockCtx hcurrent =>
    obtain ⟨hkept, hlog⟩ := carryOut_ignore (e := e) hfind blockCtx
    rw [hkept, Client.history, hlog]
    refine { h with waiting := fun req' hreq' => ?_ }
    obtain rfl := Option.some_inj.mp hreq'
    obtain ⟨-, -, hsem, hok, -⟩ := h.waiting req rfl
    exact ⟨hobserve, hcb, hsem, hok, hcurrent ▸ hcovers⟩
  | last blockCtx rsp herr hlast hfits hends =>
    obtain ⟨ret, hhistory, hgone⟩ := carryOut_deliver (e := e) hwf hfind blockCtx 0 hlast
    have hplain : ¬ (req.isObserve = true ∧ (0 : ℤ) = 0) := by simp [hobserve]
    rw [if_neg hplain] at hhistory hgone
    rw [hgone, hhistory]
    exact h.last rfl herr hlast hfits hends rfl
  | more blockCtx rsp herr hnext hfits hcurrent =>
    obtain ⟨ret, req', hprepared, ⟨d, hret⟩, hhistory, hkept⟩ := carryOut_offer (e := e) hwf hfind
      hobserve blockCtx rsp
    have hprogram := hcode rsp (dataAfter capacity (c.history ref)) h.capacity_eq
    rw [hcb, ret_invoke_of_program hprogram] at hret
    rw [hkept, hhistory]
    refine h.more rfl herr hnext hfits ?_ (fun hne => ?_) fun req'' hreq'' => ?_
    · split <;> rfl
    · rw [if_pos (hret ▸ hne)]
    · split at hreq''
      · cases hreq''
      · obtain rfl := Option.some_inj.mp hreq''
        have hsame := hprepared.same
        exact ⟨hsame.isObserve.trans hobserve, hsame.cb.trans hcb,
          by rw [hsame.blockCtx]; exact hcurrent⟩

/-- **A value is read soundly** as long as the blocks of the response agree with
their total. In every state the client gets to after `golioth_lightdb_get` has
made its request, all writes are inside the buffer, and if the call returns zero,
everything it reports has been written. -/
theorem sound_of_agreeing (hnext : e.zephyr.NextBlockContract) (hcode : RunsGet e k capacity)
    {app : σ} (hreach : Reachable e app c) {path : List UInt8} {format userData : ℕ}
    (hscheduled : Scheduled e (goliothLightdbGetArgs path format k userData) ref c)
    {ops : List (Op κ)}
    (hrun : CS.Run (CS.Guarded (Agreeing e capacity ref) (Step e)) ops c c') :
    Sound capacity (dataAfter capacity (c'.history ref)) := by
  have hwf := wellFormed_of_reachable hreach
  obtain ⟨req, hbuilt, hfind⟩ := hscheduled.listed
  have hempty : dataAfter capacity (c.history ref) = initialData capacity := by
    rw [hscheduled.history]
    rfl
  have hinit : Follows (Getting k capacity) ref c := by
    refine ⟨hwf, hwf.refs_lt ref (c.mem_refs_iff.mpr ⟨req, hfind⟩), ?_, ?_, ?_, ?_⟩ <;> rw [hempty]
    · exact ⟨by simp [initialData], by simp [goliothLightdbGet, goliothCoapReqSync, initialData]⟩
    · rfl
    · exact Nat.zero_le _
    · intro req' hreq'
      obtain rfl := Option.some_inj.mp (hfind.symm.trans hreq')
      have hzero : req.blockCtx.current = 0 := by rw [hbuilt.blockCtx]; rfl
      refine ⟨hbuilt.isObserve, hbuilt.cb, rfl, rfl, fun i hi => ?_⟩
      omega
  refine (hrun.invariant (Follows (Getting k capacity) ref) (fun op s t h hstep => ?_)
    hinit).holds.sound
  refine h.step (keeps_getting capacity) (fun rx req hop hanswered href => ?_) hstep.2
  subst hop href
  obtain ⟨hobserve, -⟩ := h.holds.waiting req (find_answered h.wellFormed hanswered)
  exact survives_of_outcome hcode (outcome_of_agreeing hnext hobserve hanswered hstep.1)

/-- A client all of whose callbacks are that of a call with a buffer of sixteen
bytes. -/
def getEnv : Env Unit Unit := .calm fun _ rsp =>
  (goliothReqSyncCb (some goliothLightdbGetPreallocCb) rsp (initialData 16)).1.program

/-- The client has connected and the call has made its request. -/
def gettingRun : Option (Client Unit Unit) :=
  execute getEnv [.onConnect, .submit (goliothLightdbGetArgs [97] 60 () 7)] ()

/-- A last block that announces a total of sixteen bytes. -/
def blockOfLength (length : ℕ) : RxPacket where
  type := .ack
  code := 69
  id := 4
  token := firstToken
  options := [(.block2, blockValue 0 false 1), (.size2, 16)]
  payload := List.replicate length 0

theorem runsGet_getEnv : RunsGet getEnv () 16 := by
  intro rsp syncData hcapacity
  change (goliothReqSyncCb (some goliothLightdbGetPreallocCb) rsp (initialData 16)).1.program = _
  rw [return_goliothReqSyncCb (show (initialData 16).userData.capacity = 16 from rfl),
    return_goliothReqSyncCb hcapacity]

private theorem gettingRun_facts :
    ∃ c req, gettingRun = some c ∧ Scheduled getEnv (goliothLightdbGetArgs [97] 60 () 7) 0 c ∧
      c.find 0 = some req ∧ req.blockCtx = ⟨0, 0, 6⟩ ∧
      (dataAfter 16 ((coapReqProcessRx getEnv (blockOfLength 32) c).history 0)).userData.data =
        [(0, List.replicate 32 0)] := by
  obtain ⟨c, hrun⟩ : ∃ c, gettingRun = some c := Option.isSome_iff_exists.mp (by decide)
  have hfacts : gettingRun.map (fun c => ((c.find 0).map (·.blockCtx),
      (dataAfter 16 ((coapReqProcessRx getEnv (blockOfLength 32) c).history 0)).userData.data)) =
      some (some ⟨0, 0, 6⟩, [(0, List.replicate 32 0)]) := by decide
  have hconnected : Reachable getEnv () (coapReqsOnConnect (Client.init ())) :=
    ⟨[.onConnect], .single rfl⟩
  have hscheduled : Scheduled getEnv (goliothLightdbGetArgs [97] 60 () 7) 0 c := by
    have hsubmit : some (submit getEnv (goliothLightdbGetArgs [97] 60 () 7)
        (coapReqsOnConnect (Client.init ()))).2 = some c := hrun
    obtain rfl := Option.some_inj.mp hsubmit
    exact scheduled_of_submit (wellFormed_of_reachable hconnected) (by decide)
  rw [hrun, Option.map_some, Option.some_inj, Prod.mk.injEq] at hfacts
  obtain ⟨req, hfind, hctx⟩ := Option.map_eq_some_iff.mp hfacts.1
  exact ⟨c, req, hrun, hscheduled, hfind, hctx, hfacts.2⟩

/-- A block of thirty-two bytes is written to the buffer of sixteen. -/
theorem blockOfLength_not_sound :
    ∃ c c', gettingRun = some c ∧
      Scheduled getEnv (goliothLightdbGetArgs [97] 60 () 7) 0 c ∧
      CS.Run (Step getEnv) [.processRx (blockOfLength 32)] c c' ∧
      ¬ Sound 16 (dataAfter 16 (c'.history 0)) := by
  obtain ⟨c, req, hrun, hscheduled, -, -, hdata⟩ := gettingRun_facts
  refine ⟨c, _, hrun, hscheduled, .single rfl, fun hsound => ?_⟩
  have hinside := hsound.inside (0, List.replicate 32 0)
    (by rw [hdata]; exact List.mem_singleton_self _)
  simp at hinside

/-- A block of sixteen bytes is read soundly. -/
theorem sound_of_agreeing_blockOfLength :
    ∃ c, gettingRun = some c ∧
      Sound 16 (dataAfter 16 ((coapReqProcessRx getEnv (blockOfLength 16) c).history 0)) := by
  obtain ⟨c, req, hrun, hscheduled, hfind, hctx, -⟩ := gettingRun_facts
  have hreach := reachable_of_execute _ hrun
  have hagreeing : Agreeing getEnv 16 0 (.processRx (blockOfLength 16)) c := by
    intro req' hanswered href _
    have hfind' := find_answered (wellFormed_of_reachable hreach) hanswered
    rw [href, hfind] at hfind'
    obtain rfl := Option.some_inj.mp hfind'
    have hupdate : (getEnv.zephyr.coapUpdateFromBlock (blockOfLength 16) ⟨0, 0, 6⟩).2 =
        ⟨16, 0, 1⟩ := by decide
    rw [if_neg (by decide), hctx, hupdate]
    intro _ _
    refine ⟨by decide, by decide, ?_, by unfold Zephyr.Overruns; decide, by decide, ?_⟩
    · rw [hctx]
    · intro hlt
      exact absurd hlt (by decide)
  have hstep : CS.Guarded (Agreeing getEnv 16 0) (Step getEnv) (.processRx (blockOfLength 16)) c
    (coapReqProcessRx getEnv (blockOfLength 16) c) := ⟨hagreeing, rfl⟩
  exact ⟨c, hrun, sound_of_agreeing Reference.nextBlockContract runsGet_getEnv hreach hscheduled
    (.single hstep)⟩

end Golioth.Lightdb
