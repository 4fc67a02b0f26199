/-
# Requests are answered

What `on_rpc` makes of a request: the first method that is registered under the name
is called, once, with a decoding state at the first of the parameters, and the
response says what it has written and returned. A request for any other method is
answered without a call.
-/
import Golioth.Rpc.Calls
import Golioth.Requests.Room
import Golioth.Zcbor.Encoding
import Golioth.Zcbor.Lookup

namespace Golioth.Rpc

open CS CS.Cbor Golioth.Zcbor Golioth.Requests

variable {S E σ κ α : Type}

/-! ## Requests -/

def idKey : Key := .tstr (ascii "id")
def methodKey : Key := .tstr (ascii "method")
def paramsKey : Key := .tstr (ascii "params")

/-- A request: its entries, and what they say. -/
structure RpcRequest where
  framing : Framing
  pairs : List Pair
  id : List UInt8
  method : List UInt8
  paramsFraming : Framing
  params : List (List UInt8)

/-- The data are a well-formed map with text keys, which are different from each other and among
them an id, a method and a list of parameters. -/
structure RpcRequest.WellFormed (profile : Profile) (request : RpcRequest) (data : List UInt8) :
    Prop where
  map : IsMap profile request.framing request.pairs data
  pairs : ∀ pair ∈ request.pairs, pair.WellFormed profile ∧ pair.key.type = .tstr
  keys : (request.pairs.map Pair.key).Nodup
  id : ∃ pair ∈ request.pairs, pair.key = idKey ∧ TextItem profile request.id pair.value
  method : ∃ pair ∈ request.pairs, pair.key = methodKey ∧
    TextItem profile request.method pair.value
  params : ∃ pair ∈ request.pairs, pair.key = paramsKey ∧
    IsList profile request.paramsFraming request.params pair.value
  param : ∀ item ∈ request.params, Cbor.WellFormed profile item

/-- The decoding state stands at the first of the parameters. -/
def AtParams (d : Decoding S) (request : RpcRequest) (zsd : S) : Prop :=
  ∃ q rest, d.At zsd q ∧ q.left = leftOf request.params.length request.paramsFraming ∧
    q.payload = request.params.flatten ++ (request.paramsFraming.close ++ rest)

section Decode

variable {lib : ZcborDecode S} {d : Decoding S} {p q : Position} {w : Cursor S σ}
  {request : RpcRequest} {framing : Framing} {items : List (List UInt8)} {rest : List UInt8}
  {fuel : ℕ}

/-- **Run of the loop.** The parameters are skipped, up to the end of the list. -/
theorem skipParams_eq (hlib : Conforms lib d)
    (hitems : ∀ item ∈ items, Cbor.WellFormed d.profile item) (hat : d.At w.zsd q)
    (houter : q.outer ≠ []) (hleft : q.left = leftOf items.length framing)
    (hpayload : q.payload = items.flatten ++ (framing.close ++ rest))
    (hfuel : items.length < fuel) :
    ∃ w', skipParams lib fuel w = (some 0, w') ∧ d.At w'.zsd (q.leave rest) ∧ w'.out = w.out := by
  obtain ⟨fuel, rfl⟩ : ∃ steps, fuel = steps + 1 := ⟨fuel - 1, by omega⟩
  have hrecord : d.At (w.record (.element w.zsd)).zsd q := hat
  induction items generalizing w q fuel with
  | nil =>
    obtain ⟨w₁, hend, hsame⟩ := hlib.atEnd hrecord hleft hpayload
    have hat₁ : d.At w₁.zsd q := by
      rw [hsame.zsd]
      exact hat
    obtain ⟨zsd', hleave, hat'⟩ := hlib.listEnd.leaves hat₁ houter hpayload hleft
    refine ⟨{ w₁ with zsd := zsd' }, ?_, hat', hsame.out⟩
    rw [skipParams, hend]
    simp only [okOrReturn, hleave, if_pos]
  | cons item items ih =>
    obtain ⟨hitem, hitems⟩ := List.forall_mem_cons.mp hitems
    rw [List.flatten_cons, List.append_assoc] at hpayload
    obtain ⟨byte, following, hbytes, hbyte⟩ := hitem.initial
    have hfirst : q.payload = byte :: (following ++ (items.flatten ++ (framing.close ++ rest))) := by
      rw [hpayload, hbytes]
      rfl
    have hnext : q.HasNext := by
      intro hnone
      rw [hleft] at hnone
      cases framing with
      | definite => exact absurd (Option.some_inj.mp hnone) (Nat.succ_ne_zero _)
      | indefinite => cases hnone
    obtain ⟨w₁, hend, hsame⟩ := hlib.notAtEnd hrecord hnext hfirst hbyte
    have hat₁ : d.At w₁.zsd q := by
      rw [hsame.zsd]
      exact hat
    obtain ⟨zsd₂, hskip, hat₂⟩ := hlib.skip hat₁ hnext hpayload hitem
    have hleft₂ : (q.next (items.flatten ++ (framing.close ++ rest))).left =
        leftOf items.length framing := by
      rw [Position.left_next, hleft]
      cases framing <;> rfl
    obtain ⟨fuel, rfl⟩ : ∃ steps, fuel = steps + 1 :=
      ⟨fuel - 1, by rw [List.length_cons] at hfuel; omega⟩
    obtain ⟨w', hloop, hat', hout⟩ := @ih _ { w₁ with zsd := zsd₂ } hitems hat₂ houter hleft₂ rfl
      fuel (Nat.lt_of_succ_lt_succ hfuel) hat₂
    refine ⟨w', ?_, hat', hout.trans hsame.out⟩
    rw [skipParams, hend]
    simp only [okOrReturn, hskip, if_pos]
    exact hloop

/-- `params_decode` keeps the state at the first of the parameters, and comes to the end of their
list. -/
theorem paramsDecode_takes (hlib : Conforms lib d) (assign : S → σ → σ)
    (hparams : ∀ item ∈ request.params, Cbor.WellFormed d.profile item) (hat : d.At w.zsd q)
    (hnext : q.HasNext) (hroom : 0 < q.room) {item : List UInt8}
    (hpayload : q.payload = item ++ rest)
    (hlist : IsList d.profile request.paramsFraming request.params item)
    (hfuel : request.params.length < fuel) :
    ∃ zsd w', paramsDecode lib fuel assign w = (some 0, w') ∧ d.At w'.zsd (q.next rest) ∧
      AtParams d request zsd ∧ w'.out = assign zsd w.out := by
  obtain ⟨head, hopens, rfl⟩ := hlist
  rw [List.append_assoc, List.append_assoc] at hpayload
  obtain ⟨zsd, hstart, hat₁⟩ := hlib.listStart hat hnext hroom hpayload hopens
  rw [Nat.one_mul] at hat₁
  obtain ⟨w', hskip, hat', hout⟩ := @skipParams_eq _ _ _ _ _ { w with
    zsd := zsd, out := assign zsd w.out } _ _ _ _ hlib hparams hat₁ (List.cons_ne_nil _ _) rfl rfl
    hfuel
  rw [Position.leave_enter q hroom] at hat'
  refine ⟨zsd, w', ?_, hat', ⟨_, _, hat₁, rfl, rfl⟩, hout⟩
  rw [paramsDecode, okOrReturn, hstart]
  exact hskip

end Decode

section Lookup

variable {lib : ZcborDecode S} {d : Decoding S} {p : Position} {request : RpcRequest}
  {data : List UInt8} {fuel : ℕ}

/-- What some of the entries of a request have been decoded to. -/
structure Decoded (d : Decoding S) (p : Position) (request : RpcRequest) (done : List Pair)
    (vars : RpcVars S) : Prop where
  id : idKey ∈ done.map Pair.key → p.text vars.id.value = request.id
  method : methodKey ∈ done.map Pair.key → p.text vars.method.value = request.method
  params : paramsKey ∈ done.map Pair.key → AtParams d request vars.params.value

/-- The entries of the table take what the request holds for them. -/
theorem takesAll_request (hlib : Conforms lib d) (hrequest : request.WellFormed d.profile data)
    (hroom : 1 < p.room) (hfuel : request.params.length < fuel) :
    TakesAll d p.inside (rpcEntries lib fuel) request.pairs (Decoded d p request) where
  takes := by
    intro done pair after hsplit i entry hplace hentry w q rest hat halike hnext hpayload hdecoded
    -- the place of the pair in the table says which of the three entries takes it
    have hmem : pair ∈ request.pairs := by simp [hsplit]
    obtain ⟨other, hother, hkey⟩ := getElem?_of_place hplace
    obtain rfl := Option.some_inj.mp (hentry.symm.trans hother)
    have hentry := List.mem_of_getElem? hentry
    have hmemory : ∀ str, q.text str = p.text str := Position.text_congr halike.memory
    have hidMethod : idKey ≠ methodKey := by decide
    have hidParams : idKey ≠ paramsKey := by decide
    have hmethodParams : methodKey ≠ paramsKey := by decide
    simp only [rpcEntries, List.mem_cons, List.not_mem_nil, or_false] at hentry
    rcases hentry with rfl | rfl | rfl
    · have hkey : pair.key = idKey := hkey.symm
      obtain ⟨str, w', hdecode, hat', htext, hout⟩ := hlib.tstr_takes
        (fun str (vars : RpcVars S) => { vars with id := { value := str, decoded := true } }) hat
        hnext hpayload (value_of_key hrequest.keys hmem hrequest.id hkey)
      refine ⟨w', hdecode, hat', ?_⟩
      rw [hout]
      constructor
      · exact fun _ => (hmemory str).symm.trans htext
      · rw [mem_keys_append_singleton (hkey ▸ hidMethod)]
        exact hdecoded.method
      · rw [mem_keys_append_singleton (hkey ▸ hidParams)]
        exact hdecoded.params
    · have hkey : pair.key = methodKey := hkey.symm
      obtain ⟨str, w', hdecode, hat', htext, hout⟩ := hlib.tstr_takes
        (fun str (vars : RpcVars S) => { vars with method := { value := str, decoded := true } })
        hat hnext hpayload (value_of_key hrequest.keys hmem hrequest.method hkey)
      refine ⟨w', hdecode, hat', ?_⟩
      rw [hout]
      constructor
      · rw [mem_keys_append_singleton (hkey ▸ hidMethod.symm)]
        exact hdecoded.id
      · exact fun _ => (hmemory str).symm.trans htext
      · rw [mem_keys_append_singleton (hkey ▸ hmethodParams)]
        exact hdecoded.params
    · have hkey : pair.key = paramsKey := hkey.symm
      -- the parameters are walked one level further in, so a backup must be left
      have hroom : 0 < q.room := by
        rw [halike.room]
        exact Nat.sub_pos_of_lt hroom
      obtain ⟨zsd, w', hdecode, hat', hparams, hout⟩ := paramsDecode_takes hlib
        (fun zsd (vars : RpcVars S) => { vars with params := { value := zsd, decoded := true } })
        hrequest.param hat hnext hroom hpayload
        (value_of_key hrequest.keys hmem hrequest.params hkey) hfuel
      refine ⟨w', hdecode, hat', ?_⟩
      rw [hout]
      constructor
      · rw [mem_keys_append_singleton (hkey ▸ hidParams.symm)]
        exact hdecoded.id
      · rw [mem_keys_append_singleton (hkey ▸ hmethodParams.symm)]
        exact hdecoded.method
      · exact fun _ => hparams
  skips := by
    intro done pair after hsplit hplace out hdecoded
    -- a pair of no entry has none of the three keys, so what is decoded stays
    rw [place_eq_none_iff] at hplace
    simp only [rpcEntries, List.forall_mem_cons] at hplace
    obtain ⟨hid, hmethod, hparams, -⟩ := hplace
    have hid : pair.key ≠ idKey := hid
    have hmethod : pair.key ≠ methodKey := hmethod
    have hparams : pair.key ≠ paramsKey := hparams
    constructor
    · rw [mem_keys_append_singleton hid]
      exact hdecoded.id
    · rw [mem_keys_append_singleton hmethod]
      exact hdecoded.method
    · rw [mem_keys_append_singleton hparams]
      exact hdecoded.params

theorem matching_request (lib : ZcborDecode S) (fuel : ℕ)
    (hrequest : request.WellFormed d.profile data) :
    Matching d .tstr (rpcEntries lib fuel) request.pairs where
  table := by simp [TypedTable, rpcEntries, Key.type]
  wellFormed := hrequest.pairs
  entryKeys := by
    show [idKey, methodKey, paramsKey].Nodup
    decide
  pairKeys := hrequest.keys

/-- The request is decoded. -/
theorem decodeRpc_eq (hlib : Conforms lib d) (vars : RpcVars S)
    (hrequest : request.WellFormed d.profile data) (hlen : data.length < 2 ^ 16)
    (hpairs : request.pairs.length < fuel) (hfuel : request.params.length < fuel) :
    ∃ w, (decodeRpc lib fuel data vars).2 = (some 0, w) ∧
      lib.text w.zsd w.out.id.value = request.id ∧
      lib.text w.zsd w.out.method.value = request.method ∧
      AtParams d request w.out.params.value := by
  obtain ⟨memory, hstart⟩ := hlib.atMap_newDecodeState hrequest.map hlen 1
  set p : Position := ⟨memory, data, some 1, [], 2⟩ with hp
  have hmap : AtMap d request.framing request.pairs (⟨lib.newDecodeState data 1 2, vars, []⟩ :
      Cursor S (RpcVars S)).zsd p [] := hstart
  have hfound : ∀ entry ∈ rpcEntries lib fuel, ∃ pair ∈ request.pairs, pair.key = entry.key := by
    obtain ⟨idPair, hid, hidKey, -⟩ := hrequest.id
    obtain ⟨methodPair, hmethod, hmethodKey, -⟩ := hrequest.method
    obtain ⟨paramsPair, hparams, hparamsKey, -⟩ := hrequest.params
    simp only [rpcEntries, List.forall_mem_cons]
    exact ⟨⟨idPair, hid, hidKey⟩, ⟨methodPair, hmethod, hmethodKey⟩,
      ⟨paramsPair, hparams, hparamsKey⟩, by simp⟩
  obtain ⟨visits, w, done, last, after, i, hdecode, hsplit, hlast, hafter, hat', hdecoded, -⟩ :=
    hlib.mapDecode_complete hmap (matching_request lib fuel hrequest) hpairs (List.cons_ne_nil _ _)
      hfound (takesAll_request hlib hrequest (by simp [hp]) hfuel) ⟨by simp, by simp, by simp⟩
  rw [hsplit] at hfound
  have hmem := mem_keys_of_hits_eq_zero hfound hafter
  simp only [rpcEntries, List.forall_mem_cons] at hmem
  obtain ⟨hid, hmethod, hparams, -⟩ := hmem
  refine ⟨w, ?_, ?_, ?_, hdecoded.params hparams⟩
  · rw [decodeRpc, hdecode]
  · rw [hlib.text_eq hat']
    exact (Position.text_congr rfl _).trans (hdecoded.id hid)
  · rw [hlib.text_eq hat']
    exact (Position.text_congr rfl _).trans (hdecoded.method hmethod)

end Lookup

/-! ## Responses -/

/-- The payload is a response: a map with the id of the request, the details if a method has been
called, and a status. -/
def IsResponse (profile : Profile) (id : List UInt8) (detail : Option (List Pair)) (status : ℕ)
    (payload : List UInt8) : Prop :=
  ∃ idPair detailPairs statusPair,
    IsMap profile .indefinite (idPair :: (detailPairs ++ [statusPair])) payload ∧
    TextEntry profile (ascii "id") (TextItem profile id) idPair ∧
    (detail = none → detailPairs = []) ∧
    (∀ written, detail = some written → ∃ detailPair, detailPairs = [detailPair] ∧
      TextEntry profile (ascii "detail") (IsMap profile .indefinite written) detailPair) ∧
    TextEntry profile (ascii "statusCode") (IntegerItem status) statusPair

/-- What is written before the details. -/
def startBytes (e : Encoding E) (id : List UInt8) : List UInt8 :=
  mapHead ++ (e.text (ascii "id") ++ e.text id)

/-- What is written before a method is called. -/
def detailStart (e : Encoding E) : List UInt8 := e.text (ascii "detail") ++ mapHead

def detailBytes (e : Encoding E) : Option (List Pair) → List UInt8
  | none => []
  | some written => detailStart e ++ (pairBytes written ++ [breakCode])

/-- What is written after the details. -/
def endBytes (e : Encoding E) (status : ℕ) : List UInt8 :=
  e.text (ascii "statusCode") ++ (e.integer status ++ [breakCode])

def responseBytes (e : Encoding E) (id : List UInt8) (detail : Option (List Pair))
    (status : ℕ) : List UInt8 :=
  startBytes e id ++ (detailBytes e detail ++ endBytes e status)

/-- A callback writes whole pairs to the details, and returns a status. -/
def WritesPairs (e : Encoding E) (callback : (params : S) → (zse : E) → ℕ × E) : Prop :=
  ∀ params zse before room, e.At zse before room →
    ∃ written, (∀ pair ∈ written, pair.WellFormed e.profile) ∧
      (pairBytes written).length ≤ room ∧
      e.At (callback params zse).2 (before ++ pairBytes written)
        (room - (pairBytes written).length) ∧
      (callback params zse).1 < 2 ^ 32

/-- The response is sent if it fits. -/
structure Replies (e : Encoding E) (maxResponseLen : ℕ) (id : List UInt8)
    (detail : Option (List Pair)) (status : ℕ) (replied : Replied) : Prop where
  response : IsResponse e.profile id detail status (responseBytes e id detail status)
  fits : (responseBytes e id detail status).length ≤ maxResponseLen →
    replied = .sent (responseBytes e id detail status)
  full : maxResponseLen < (responseBytes e id detail status).length →
    replied = .returned (-Errno.enomem)

section Response

variable {enc : ZcborEncode E} {e : Encoding E} {id : List UInt8} {detail : Option (List Pair)}
  {status : ℕ} {zse : E} {before : List UInt8} {room : ℕ}

theorem isResponse_responseBytes (henc : Writes enc e) (hid : id.length < sizeModulus)
    (hstatus : status < 2 ^ 32) :
    IsResponse e.profile id detail status (responseBytes e id detail status) := by
  have hentry : ∀ {key value : List UInt8} {reads : List UInt8 → Prop}, key.length ≤ 10 →
      reads value → TextEntry e.profile key reads (textPair e key value) := by
    intro key value reads hkey hvalue
    have hmodulus : 10 < sizeModulus := by decide
    exact henc.textEntry (hkey.trans_lt hmodulus) hvalue
  have hidEntry : TextEntry e.profile (ascii "id") (TextItem e.profile id) _ :=
    hentry (by decide) (henc.text id hid)
  have hstatusEntry : TextEntry e.profile (ascii "statusCode") (IntegerItem status) _ :=
    hentry (by decide) (henc.integer status (by omega) (by omega))
  cases detail with
  | none =>
    refine ⟨_, [], _, ⟨mapHead, rfl, ?_⟩, hidEntry, fun _ => rfl, by simp, hstatusEntry⟩
    simp [responseBytes, startBytes, detailBytes, endBytes, textPair, Framing.close]
  | some written =>
    set item := mapHead ++ (pairBytes written ++ [breakCode]) with hitem
    have hmap : IsMap e.profile .indefinite written item := ⟨mapHead, rfl, rfl⟩
    have hdetailEntry : TextEntry e.profile (ascii "detail")
        (IsMap e.profile .indefinite written) _ := hentry (by decide) hmap
    refine ⟨_, [textPair e (ascii "detail") item], _, ⟨mapHead, rfl, ?_⟩, hidEntry, by simp, ?_,
      hstatusEntry⟩
    · simp [responseBytes, startBytes, detailBytes, detailStart, endBytes, textPair, Framing.close,
        hitem]
    · rintro written' heq
      obtain rfl := Option.some_inj.mp heq
      exact ⟨_, rfl, hdetailEntry⟩

/-- The beginning of a response. -/
theorem emits_start (henc : Writes enc e) (id : List UInt8) :
    Emits e (fun zse => do
      let zse ← encoding (enc.mapStartEncode 1 zse)
      let zse ← encoding (enc.tstrEncode (ascii "id") zse)
      encoding (enc.tstrEncode id zse)) (startBytes e id) :=
  (henc.mapStart 1).emits.bind ((henc.tstr _).emits.bind (henc.tstr _).emits)

theorem emits_detailStart (henc : Writes enc e) :
    Emits e (fun zse => do
      let zse ← encoding (enc.tstrEncode (ascii "detail") zse)
      encoding (enc.mapStartEncode sizeMax zse)) (detailStart e) :=
  (henc.tstr _).emits.bind (henc.mapStart _).emits

/-- The end of a response. -/
theorem end_eq (henc : Writes enc e) (hstatus : status < 2 ^ 32) (hat : e.At zse before room) :
    (do
      let zse ← encoding (enc.tstrEncode (ascii "statusCode") zse)
      let zse ← encoding (enc.uint64Put status zse)
      let zse ← encoding (enc.mapEndEncode 1 zse)
      return enc.encoded zse) =
      if (endBytes e status).length ≤ room then .ok (before ++ endBytes e status)
      else .error (-Errno.enomem) := by
  have hparts : Emits e _ (endBytes e status) := (henc.tstr (ascii "statusCode")).emits.bind
    ((henc.uint64 status (by omega)).emits.bind (henc.mapEnd 1).emits)
  rw [← hparts.encoded henc hat]
  simp only [bind_assoc]

end Response

/-! ## Answers -/

/-- What `on_rpc` comes to, for the methods that are registered. -/
inductive Answered (d : Decoding S) (e : Encoding E) (methods : List (RpcMethod S E))
    (request : RpcRequest) (maxResponseLen : ℕ) : List (Call S E) → Replied → Prop
  /-- No method has the name. -/
  | unknown {replied : Replied}
      (hnone : ∀ rpcMethod ∈ methods, cString rpcMethod.name ≠ request.method)
      (hreplies : Replies e maxResponseLen request.id none statusUnknown replied) :
      Answered d e methods request maxResponseLen [] replied
  /-- The first method with the name is called. -/
  | called {call : Call S E} {rpcMethod : RpcMethod S E} {before : List UInt8} {room : ℕ}
      {written : List Pair} {replied : Replied} (hget : methods[call.index]? = some rpcMethod)
      (hname : cString rpcMethod.name = request.method)
      (hfirst : ∀ other ∈ methods.take call.index, cString other.name ≠ request.method)
      (hparams : AtParams d request call.params) (hbefore : e.At call.zse before room)
      (hwritten : e.At (rpcMethod.callback call.params call.zse).2 (before ++ pairBytes written)
        (room - (pairBytes written).length))
      (hpairs : ∀ pair ∈ written, pair.WellFormed e.profile)
      (hreplies : Replies e maxResponseLen request.id (some written)
        (rpcMethod.callback call.params call.zse).1 replied) :
      Answered d e methods request maxResponseLen [call] replied
  /-- A method has the name, and there is no room for the beginning of the response. -/
  | full (hfull : ∀ written status,
        maxResponseLen < (responseBytes e request.id (some written) status).length) :
      Answered d e methods request maxResponseLen [] (.returned (-Errno.enomem))

section Answer

variable {lib : ZcborDecode S} {d : Decoding S} {enc : ZcborEncode E} {e : Encoding E}
  {methods : List (RpcMethod S E)} {request : RpcRequest} {data : List UInt8}
  {maxResponseLen fuel : ℕ} {zse : E} {room : ℕ} {before : List UInt8} {params : S}

/-- Where no method has the name, none is called. -/
theorem rpcFindAndCallCalls_none (enc : ZcborEncode E) (params : S) (zse : E)
    (hnone : ∀ rpcMethod ∈ methods, cString rpcMethod.name ≠ request.method) :
    rpcFindAndCallCalls enc methods params request.method zse = ([], .ok (statusUnknown, zse)) := by
  have hindex : (methods.findIdx fun rpcMethod => rpcMethod.isNamed request.method) =
      methods.length := by
    rw [List.findIdx_eq_length]
    intro rpcMethod hmem
    rw [← Bool.not_eq_true, isNamed_iff]
    exact hnone rpcMethod hmem
  rw [rpcFindAndCallCalls]
  simp only [hindex, List.getElem?_length]

/-- The place of the first method with the name. -/
theorem exists_first_named (h : ∃ rpcMethod ∈ methods, cString rpcMethod.name = request.method) :
    ∃ index rpcMethod, (methods.findIdx fun rpcMethod => rpcMethod.isNamed request.method) = index ∧
      methods[index]? = some rpcMethod ∧ cString rpcMethod.name = request.method ∧
      ∀ other ∈ methods.take index, cString other.name ≠ request.method := by
  obtain ⟨first, rpcMethod, after, rfl, hname, hfirst⟩ := exists_first h
  refine ⟨first.length, rpcMethod, ?_, by simp, hname, ?_⟩
  · rw [List.findIdx_append, List.findIdx_eq_length.mpr]
    · simp [List.findIdx_cons, isNamed_iff.mpr hname]
    · intro other hother
      rw [← Bool.not_eq_true, isNamed_iff]
      exact hfirst other hother
  · simpa using hfirst

theorem replies_of_eq (henc : Writes enc e) {id : List UInt8} (hid : id.length < sizeModulus)
    {detail : Option (List Pair)} {status : ℕ} (hstatus : status < 2 ^ 32) {replied : Replied}
    (heq : replied = .ofResponse
      (if (responseBytes e id detail status).length ≤ maxResponseLen
        then .ok (responseBytes e id detail status)
        else .error (-Errno.enomem))) :
    Replies e maxResponseLen id detail status replied where
  response := isResponse_responseBytes henc hid hstatus
  fits hfits := by
    rw [heq, if_pos hfits]
    rfl
  full hfull := by
    rw [heq, if_neg (not_le.mpr hfull)]
    rfl

/-- The response after a method has been called. -/
theorem afterCall_eq (henc : Writes enc e) {status : ℕ} (hstatus : status < 2 ^ 32)
    (hat : e.At zse before room) :
    (do
      let (status, zse) ← (do
        let zse ← encoding (enc.mapEndEncode sizeMax zse)
        return (status, zse) : Except ℤ (ℕ × E))
      let zse ← encoding (enc.tstrEncode (ascii "statusCode") zse)
      let zse ← encoding (enc.uint64Put status zse)
      let zse ← encoding (enc.mapEndEncode 1 zse)
      return enc.encoded zse) =
      if ([breakCode] ++ endBytes e status).length ≤ room
      then .ok (before ++ ([breakCode] ++ endBytes e status))
      else .error (-Errno.enomem) := by
  have hparts : Emits e _ ([breakCode] ++ endBytes e status) :=
    (henc.mapEnd sizeMax).emits.bind ((henc.tstr (ascii "statusCode")).emits.bind
      ((henc.uint64 status (by omega)).emits.bind (henc.mapEnd 1).emits))
  rw [← hparts.encoded henc hat]
  simp only [bind_assoc, pure_bind]

/-- The response to a decoded request. -/
theorem rpcResponseCalls_answered (maxResponseLen : ℕ) (henc : Writes enc e)
    (hcallbacks : ∀ rpcMethod ∈ methods, WritesPairs e rpcMethod.callback)
    {w : Cursor S (RpcVars S)} (hid : lib.text w.zsd w.out.id.value = request.id)
    (hmethod : lib.text w.zsd w.out.method.value = request.method)
    (hparams : AtParams d request w.out.params.value) (hidLen : request.id.length < sizeModulus) :
    Answered d e methods request maxResponseLen
      (rpcResponseCalls lib enc methods maxResponseLen w).1
      (.ofResponse (rpcResponseCalls lib enc methods maxResponseLen w).2) := by
  have hnew := henc.newEncodeState maxResponseLen 1
  have hstart := emits_start henc request.id
  have hunknown : statusUnknown < 2 ^ 32 := by decide
  rw [rpcResponseCalls, hid, hmethod]
  by_cases hnamed : ∃ rpcMethod ∈ methods, cString rpcMethod.name = request.method
  · obtain ⟨index, rpcMethod, hindex, hget, hname, hfirst⟩ := exists_first_named hnamed
    have hdetail := emits_detailStart henc
    have hfull : maxResponseLen < (startBytes e request.id).length + (detailStart e).length →
        ∀ written status,
          maxResponseLen < (responseBytes e request.id (some written) status).length := by
      intro hlt written status
      simp only [responseBytes, detailBytes, List.length_append]
      omega
    by_cases hstartFits : (startBytes e request.id).length ≤ maxResponseLen
    · obtain ⟨zse₁, hstarted, hat₁⟩ := hstart.fits hnew hstartFits
      rw [List.nil_append] at hat₁
      simp only [hstarted]
      rw [rpcFindAndCallCalls]
      simp only [hindex, hget]
      by_cases hdetailFits : (detailStart e).length ≤
          maxResponseLen - (startBytes e request.id).length
      · -- the method is called
        obtain ⟨zse₂, hcalling, hat₂⟩ := hdetail.fits hat₁ hdetailFits
        obtain ⟨written, hpairs, hroom, hat₃, hstatus⟩ := hcallbacks rpcMethod
          (List.mem_of_getElem? hget) w.out.params.value zse₂ _ _ hat₂
        simp only [hcalling]
        refine .called hget hname hfirst hparams hat₂ hat₃ hpairs
          (replies_of_eq henc hidLen hstatus ?_)
        have hbytes : responseBytes e request.id (some written)
            (rpcMethod.callback w.out.params.value zse₂).1 =
            startBytes e request.id ++ detailStart e ++ pairBytes written ++
              ([breakCode] ++ endBytes e (rpcMethod.callback w.out.params.value zse₂).1) := by
          simp [responseBytes, detailBytes]
        rw [afterCall_eq henc hstatus hat₃, hbytes]
        refine congrArg Replied.ofResponse (if_congr ?_ rfl rfl)
        simp only [List.length_append]
        omega
      · simp only [hdetail.full hat₁ (not_le.mp hdetailFits)]
        exact .full (hfull (by omega))
    · simp only [hstart.full hnew (not_le.mp hstartFits)]
      exact .full (hfull (by omega))
  · have hnone : ∀ rpcMethod ∈ methods, cString rpcMethod.name ≠ request.method :=
      fun rpcMethod hmem hname => hnamed ⟨rpcMethod, hmem, hname⟩
    by_cases hstartFits : (startBytes e request.id).length ≤ maxResponseLen
    · obtain ⟨zse₁, hstarted, hat₁⟩ := hstart.fits hnew hstartFits
      rw [List.nil_append] at hat₁
      simp only [hstarted, rpcFindAndCallCalls_none enc _ zse₁ hnone]
      refine .unknown hnone (replies_of_eq henc hidLen hunknown ?_)
      have hbytes : responseBytes e request.id none statusUnknown =
          startBytes e request.id ++ endBytes e statusUnknown := rfl
      refine (congrArg Replied.ofResponse (end_eq henc hunknown hat₁)).trans ?_
      rw [hbytes]
      refine congrArg Replied.ofResponse (if_congr ?_ rfl rfl)
      rw [List.length_append]
      omega
    · simp only [hstart.full hnew (not_le.mp hstartFits)]
      refine .unknown hnone (replies_of_eq henc hidLen hunknown ?_)
      rw [if_neg]
      simp only [responseBytes, List.length_append]
      omega

end Answer

/-! ## What the client does -/

/-- `GOLIOTH_CONTENT_FORMAT_APP_CBOR`. -/
def contentFormatAppCbor : ℕ := 60

/-- The arguments `send_response` gives to `golioth_coap_req_cb`; `userData` is the address of
its text. -/
def sendResponseArgs (userData : ℕ) (payload : List UInt8) : ReqArgs κ where
  method := .post
  pathv := [ascii ".rpc/status"]
  format := contentFormatAppCbor
  data := some payload
  dataLen := payload.length
  cb := none
  userData := userData
  flagObserve := false
  flagNoRespBody := true

theorem dataThere_sendResponseArgs (userData : ℕ) (payload : List UInt8) :
    (sendResponseArgs userData payload : ReqArgs κ).DataThere :=
  ReqArgs.dataThere_of_length_eq rfl rfl

/-- What a callback of an observation does to the client, and what it returns. -/
def Replied.run (env : Env κ α) (args : List UInt8 → ReqArgs κ) (c : Client κ α) :
    Replied → ℤ × Client κ α
  | .returned err => (err, c)
  | .sent payload => submit env (.reqCb (args payload)) c

/-- An error is returned and the client is as it was, or one request is submitted and what
`golioth_coap_req_cb` returns is returned. With a library that builds packets as it should, that
is refused for want of memory or of a connection only, and a request that is listed holds what has
been asked for, as long as its buffer is not too long for 16 bits. -/
structure Sends (env : Env κ α) (args : List UInt8 → ReqArgs κ) (c : Client κ α)
    (replied : Replied) : Prop where
  returned : ∀ err, replied = .returned err → err ≠ 0 ∧ replied.run env args c = (err, c)
  sent : ∀ payload, replied = .sent payload →
    Submitted env (.reqCb (args payload)) c (replied.run env args c)
  taken : ∀ payload, replied = .sent payload → BuildingContract env.zephyr →
    (Submission.reqCb (args payload)).bufferLen < 2 ^ 16 →
      Taken env (args payload) c (replied.run env args c)

section Client

variable {lib : ZcborDecode S} {d : Decoding S} {enc : ZcborEncode E} {e : Encoding E}
  {methods : List (RpcMethod S E)} {request : RpcRequest} {data : List UInt8}
  {maxNumMethods maxResponseLen fuel : ℕ} {vars : RpcVars S} {rsp : Rsp} {calls : List (Call S E)}
  {replied : Replied}

theorem sends_of_ne (env : Env κ α) {args : List UInt8 → ReqArgs κ}
    (hthere : ∀ payload, (args payload).DataThere) (c : Client κ α)
    (h : ∀ err, replied = .returned err → err ≠ 0) : Sends env args c replied where
  returned err heq := by
    rw [heq]
    exact ⟨h err heq, rfl⟩
  sent payload heq := by
    rw [heq]
    exact submitted env (.reqCb (args payload)) c
  taken payload heq hz hshort := by
    rw [heq]
    have htaken := taken_coapReqCb hz (args payload) (hthere payload) hshort c
    exact ⟨htaken.status, htaken.refused, htaken.listed⟩

theorem Replies.ne_zero {id : List UInt8} {detail : Option (List Pair)} {status : ℕ}
    (h : Replies e maxResponseLen id detail status replied) :
    ∀ err, replied = .returned err → err ≠ 0 := by
  intro err heq
  rcases le_or_gt (responseBytes e id detail status).length maxResponseLen with hfits | hfull
  · rw [h.fits hfits] at heq
    cases heq
  · rw [h.full hfull] at heq
    cases heq
    decide

theorem Answered.ne_zero (h : Answered d e methods request maxResponseLen calls replied) :
    ∀ err, replied = .returned err → err ≠ 0 := by
  cases h with
  | unknown hnone hreplies => exact hreplies.ne_zero
  | called hget hname hfirst hparams hbefore hwritten hpairs hreplies => exact hreplies.ne_zero
  | full hfull =>
    rintro err heq
    cases heq
    decide

theorem Answered.length_le (h : Answered d e methods request maxResponseLen calls replied) :
    calls.length ≤ 1 := by
  cases h <;> simp

/-- The data of a request are not the ones of the response to the observation itself. -/
theorem not_isOk {profile : Profile} (hrequest : request.WellFormed profile data) :
    isOk data = false := by
  obtain ⟨pair, hpair, hkey, -⟩ := hrequest.params
  have hle := hrequest.map.length_text_le hpair (hrequest.pairs pair hpair).1.labels hkey
  have hparams : (ascii "params").length = 6 := by decide
  have hlen : data.length ≠ 3 := by omega
  simp [isOk, hlen]

end Client

/-! ## A request -/

/-- `{"id": "1", "method": "a", "params": [1]}`. -/
def sampleData : List UInt8 :=
  [0xa3, 0x62, 0x69, 0x64, 0x61, 0x31, 0x66, 0x6d, 0x65, 0x74, 0x68, 0x6f, 0x64, 0x61, 0x61, 0x66,
    0x70, 0x61, 0x72, 0x61, 0x6d, 0x73, 0x81, 0x01]

def sampleRsp : Rsp := { data := sampleData, userData := 0 }

def sampleRequest : RpcRequest where
  framing := .definite
  pairs := [⟨idKey, [0x62, 0x69, 0x64], [0x61, 0x31]⟩,
    ⟨methodKey, [0x66, 0x6d, 0x65, 0x74, 0x68, 0x6f, 0x64], [0x61, 0x61]⟩,
    ⟨paramsKey, [0x66, 0x70, 0x61, 0x72, 0x61, 0x6d, 0x73], [0x81, 0x01]⟩]
  id := [0x31]
  method := [0x61]
  paramsFraming := .definite
  params := [[0x01]]

/-- The pair `"b": 1`. -/
def samplePair : Pair :=
  textPair Reference.encoding (ascii "b") (Reference.encoding.integer 1)

/-- The functions of the encoder that write it. -/
def writeSamplePair (zse : Reference.Output) : Except ℤ Reference.Output :=
  encoding (Reference.encoder.tstrEncode (ascii "b") zse) >>= fun zse =>
    encoding (Reference.encoder.int64Put 1 zse)

/-- A method that writes the pair and returns zero, or writes nothing and returns one if there is
no room for it. -/
def sampleCallback (_params : Reference.State) (zse : Reference.Output) : ℕ × Reference.Output :=
  match writeSamplePair zse with
  | .ok zse => (0, zse)
  | .error _ => (1, zse)

/-- A method `a`, which writes a pair, in front of another one. -/
def sampleMethods : List (RpcMethod Reference.State Reference.Output) :=
  [⟨ascii "a", sampleCallback⟩, ⟨ascii "ab", fun _ zse => (1, zse)⟩]

theorem wellFormed_sampleRequest : sampleRequest.WellFormed Reference.profile sampleData := by
  have hone : Cbor.WellFormed Reference.profile [0x01] :=
    .integer (.inl rfl) (@Head.inside 0 0x01 rfl (by decide))
  have hlist : Cbor.WellFormed Reference.profile ([0x81] ++ ([[0x01]].flatten ++ [])) :=
    @Cbor.WellFormed.list _ .definite [0x81] [[0x01]]
      ⟨@Head.inside 4 0x81 rfl (by decide), by decide⟩ (by simpa using hone)
  have hshort : ∀ byte : UInt8, TextItem Reference.profile [byte] [0x61, byte] := fun byte =>
    ⟨[0x61], ⟨@Head.inside 3 0x61 rfl (by decide), by decide⟩, rfl⟩
  have hid : TextItem Reference.profile (ascii "id") [0x62, 0x69, 0x64] :=
    ⟨[0x62], ⟨@Head.inside 3 0x62 rfl (by decide), by decide⟩, rfl⟩
  have hmethod : TextItem Reference.profile (ascii "method")
      [0x66, 0x6d, 0x65, 0x74, 0x68, 0x6f, 0x64] :=
    ⟨[0x66], ⟨@Head.inside 3 0x66 rfl (by decide), by decide⟩, rfl⟩
  have hparams : TextItem Reference.profile (ascii "params")
      [0x66, 0x70, 0x61, 0x72, 0x61, 0x6d, 0x73] :=
    ⟨[0x66], ⟨@Head.inside 3 0x66 rfl (by decide), by decide⟩, rfl⟩
  refine ⟨⟨[0xa3], ⟨@Head.inside 5 0xa3 rfl (by decide), by decide⟩, rfl⟩, ?_, by decide,
    ⟨_, .head _, rfl, hshort 0x31⟩, ⟨_, .tail _ (.head _), rfl, hshort 0x61⟩,
    ⟨_, .tail _ (.tail _ (.head _)), rfl, [0x81],
      ⟨@Head.inside 4 0x81 rfl (by decide), by decide⟩, rfl⟩, by simpa [sampleRequest] using hone⟩
  simp only [sampleRequest, List.forall_mem_cons]
  exact ⟨⟨⟨hid, (hshort 0x31).wellFormed⟩, rfl⟩, ⟨⟨hmethod, (hshort 0x61).wellFormed⟩, rfl⟩,
    ⟨⟨hparams, hlist⟩, rfl⟩, by simp⟩

theorem writesPairs_sampleCallback : WritesPairs Reference.encoding sampleCallback := by
  have hlow : -2 ^ 63 ≤ (1 : ℤ) := by norm_num
  have hhigh : (1 : ℤ) < 2 ^ 63 := by norm_num
  have hone : Cbor.WellFormed Reference.profile (Reference.encoding.integer 1) :=
    .integer (.inl rfl) (@Head.inside 0 0x01 rfl (by decide))
  have hpair : samplePair.WellFormed Reference.encoding.profile :=
    ⟨Reference.writes.text (ascii "b") (by decide), hone⟩
  have hemits : Emits Reference.encoding writeSamplePair (pairBytes [samplePair]) :=
    ((Reference.writes.tstr (ascii "b")).emits.bind (Reference.writes.int64 1 hlow hhigh).emits)
  intro params zse before room hat
  rw [sampleCallback]
  by_cases hle : (pairBytes [samplePair]).length ≤ room
  · obtain ⟨zse', heq, hat'⟩ := hemits.fits hat hle
    rw [heq]
    exact ⟨[samplePair], by simpa using hpair, hle, hat', Nat.two_pow_pos 32⟩
  · rw [hemits.full hat (not_le.mp hle)]
    exact ⟨[], by simp, by simp, by simpa using hat, Nat.one_lt_two_pow (by decide)⟩

theorem writesPairs_sampleMethods :
    ∀ rpcMethod ∈ sampleMethods, WritesPairs Reference.encoding rpcMethod.callback := by
  simp only [sampleMethods, List.forall_mem_cons]
  refine ⟨writesPairs_sampleCallback, ?_, by simp⟩
  intro params zse before room hat
  exact ⟨[], by simp, by simp, by simpa using hat, Nat.one_lt_two_pow (by decide)⟩

/-- The variables of `on_rpc` before the request is decoded. -/
def sampleVars : RpcVars Reference.State where
  id := { value := ⟨0, 0⟩ }
  method := { value := ⟨0, 0⟩ }
  params := { value := Reference.newDecodeState [] 0 0 }

end Golioth.Rpc
