/-
# Calls of methods

The methods that `golioth_rpc_register` accepts, and `on_rpc` with the calls of them
that it makes: `rpc_find_and_call` compares the lengths of the names, and their bytes
up to the first that is zero.
-/
import Golioth.Rpc

namespace Golioth.Rpc

open Golioth.Zcbor Golioth.Requests

variable {S E : Type}

/-! ## Registration -/

/-- `golioth_rpc_register`, which turns a method away where there is no room for it. -/
def goliothRpcRegister (maxNumMethods : ℕ) (method : RpcMethod S E)
    (methods : List (RpcMethod S E)) : ℤ × List (RpcMethod S E) :=
  if maxNumMethods ≤ methods.length then (-Errno.enobufs, methods) else (0, methods ++ [method])

/-- The methods after a sequence of calls of `golioth_rpc_register`. -/
def registered (maxNumMethods : ℕ) (methods : List (RpcMethod S E)) : List (RpcMethod S E) :=
  methods.foldl (fun methods method => (goliothRpcRegister maxNumMethods method methods).2) []

/-- The first ones are accepted, as many as there is room for. -/
theorem registered_eq_take (maxNumMethods : ℕ) (methods : List (RpcMethod S E)) :
    registered maxNumMethods methods = methods.take maxNumMethods := by
  have hfold : ∀ accepted : List (RpcMethod S E), accepted.length ≤ maxNumMethods →
      methods.foldl (fun methods method => (goliothRpcRegister maxNumMethods method methods).2)
        accepted = accepted ++ methods.take (maxNumMethods - accepted.length) := by
    induction methods with
    | nil => simp
    | cons method methods ih =>
      intro accepted hle
      rw [List.foldl_cons, goliothRpcRegister]
      by_cases hfull : maxNumMethods ≤ accepted.length
      · have hroom : maxNumMethods - accepted.length = 0 := by omega
        rw [if_pos hfull, ih accepted hle, hroom, List.take_zero, List.take_zero]
      · have hroom : maxNumMethods - accepted.length =
            (maxNumMethods - (accepted ++ [method]).length) + 1 := by
          rw [List.length_append, List.length_singleton]
          omega
        have hlt : (accepted ++ [method]).length ≤ maxNumMethods := by
          rw [List.length_append, List.length_singleton]
          omega
        rw [if_neg hfull, ih _ hlt, hroom, List.take_succ_cons,
          List.append_assoc]
        rfl
  simpa [registered] using hfold [] (Nat.zero_le _)

/-! ## Names -/

/-- `strncmp` of what memory holds from two pointers on. -/
def strncmp : (n : ℕ) → List UInt8 → List UInt8 → ℤ
  | 0, _, _ => 0
  | n + 1, s, t =>
    if s.headD 0 ≠ t.headD 0 then (s.headD 0).toNat - (t.headD 0).toNat
    else if s.headD 0 = 0 then 0
    else strncmp n s.tail t.tail

/-- The comparison of `rpc_find_and_call`: the lengths are equal, and so are the bytes, up to the
first that is zero. -/
def RpcMethod.isNamed (rpcMethod : RpcMethod S E) (method : List UInt8) : Bool :=
  (cString rpcMethod.name).length = method.length &&
    strncmp method.length rpcMethod.name method = 0

theorem strncmp_eq_zero_iff {name method : List UInt8}
    (hlen : (cString name).length = method.length) :
    strncmp method.length name method = 0 ↔ cString name = method := by
  induction method generalizing name with
  | nil => exact iff_of_true rfl (List.length_eq_zero_iff.mp hlen)
  | cons b method ih =>
    cases name with
    | nil => simp [cString] at hlen
    | cons a name =>
      -- the name goes on, since it is as long as the method
      have ha : a ≠ 0 := by
        rintro rfl
        simp [cString] at hlen
      have hname : cString (a :: name) = a :: cString name := by
        simp [cString, ha]
      rw [hname, List.length_cons, List.length_cons] at hlen
      rw [hname, List.cons_eq_cons, List.length_cons, strncmp]
      by_cases hab : a = b
      · simp [hab, hab ▸ ha, ih (Nat.succ_injective hlen)]
      · have hne : a.toNat ≠ b.toNat := fun h => hab (UInt8.toNat_inj.mp h)
        simp only [List.headD_cons, ne_eq, hab, not_false_eq_true, if_true, false_and, iff_false]
        omega

/-- A method that is called has the name byte for byte. -/
theorem isNamed_iff {rpcMethod : RpcMethod S E} {method : List UInt8} :
    rpcMethod.isNamed method ↔ cString rpcMethod.name = method := by
  rw [RpcMethod.isNamed, Bool.and_eq_true, decide_eq_true_eq, decide_eq_true_eq]
  constructor
  · rintro ⟨hlen, heq⟩
    exact (strncmp_eq_zero_iff hlen).mp heq
  · intro heq
    have hlen : (cString rpcMethod.name).length = method.length := by rw [heq]
    exact ⟨hlen, (strncmp_eq_zero_iff hlen).mpr heq⟩

/-! ## Calls -/

/-- A call of a callback: the place of its method, and the states it is given. -/
structure Call (S E : Type) where
  index : ℕ
  params : S
  zse : E

/-- `rpc_find_and_call`, with the calls it makes. -/
def rpcFindAndCallCalls (enc : ZcborEncode E) (methods : List (RpcMethod S E)) (params : S)
    (method : List UInt8) (zse : E) : List (Call S E) × Except ℤ (ℕ × E) :=
  let index := methods.findIdx fun rpcMethod => rpcMethod.isNamed method
  match methods[index]? with
  | none => ([], .ok (statusUnknown, zse))
  | some rpcMethod =>
    let started := do
      let zse ← encoding (enc.tstrEncode (ascii "detail") zse)
      encoding (enc.mapStartEncode sizeMax zse)
    match started with
    | .error err => ([], .error err)
    | .ok zse =>
      -- the callback writes into the map of details, which is closed after it
      let (status, zse') := rpcMethod.callback params zse
      ([⟨index, params, zse⟩], do
        let zse' ← encoding (enc.mapEndEncode sizeMax zse')
        return (status, zse'))

/-- The response of `on_rpc`, with the calls it takes. -/
def rpcResponseCalls (lib : ZcborDecode S) (enc : ZcborEncode E) (methods : List (RpcMethod S E))
    (maxResponseLen : ℕ) (w : Cursor S (RpcVars S)) : List (Call S E) × Except ℤ (List UInt8) :=
  let started := do
    let zse ← encoding (enc.mapStartEncode 1 (enc.newEncodeState maxResponseLen 1))
    let zse ← encoding (enc.tstrEncode (ascii "id") zse)
    encoding (enc.tstrEncode (lib.text w.zsd w.out.id.value) zse)
  match started with
  | .error err => ([], .error err)
  | .ok zse =>
    let (calls, result) := rpcFindAndCallCalls enc methods w.out.params.value
      (lib.text w.zsd w.out.method.value) zse
    (calls, do
      let (status, zse) ← result
      let zse ← encoding (enc.tstrEncode (ascii "statusCode") zse)
      let zse ← encoding (enc.uint64Put status zse)
      let zse ← encoding (enc.mapEndEncode 1 zse)
      return enc.encoded zse)

/-- `on_rpc`, with the calls it makes. -/
def onRpcCalls (lib : ZcborDecode S) (enc : ZcborEncode E) (methods : List (RpcMethod S E))
    (maxResponseLen fuel : ℕ) (vars : RpcVars S) (rsp : Rsp) :
    Option (List (Call S E) × Replied) :=
  if rsp.err ≠ 0 then some ([], .returned rsp.err)
  -- the response to the observation itself
  else if isOk rsp.data then some ([], .returned 0)
  else
    match (decodeRpc lib fuel rsp.data vars).2 with
    | (none, _) => none
    | (some err, w) =>
      if err ≠ 0 then some ([], .returned err)
      else
        let (calls, response) := rpcResponseCalls lib enc methods maxResponseLen w
        some (calls, .ofResponse response)

/-! ## The calls and the model without them -/

section Calls

variable (lib : ZcborDecode S) (enc : ZcborEncode E) {methods : List (RpcMethod S E)}

theorem find?_isNamed (hnames : ∀ rpcMethod ∈ methods, cString rpcMethod.name = rpcMethod.name)
    (method : List UInt8) :
    (methods.find? fun rpcMethod => rpcMethod.isNamed method) =
      methods.find? fun rpcMethod => decide (rpcMethod.name = method) := by
  induction methods with
  | nil => rfl
  | cons rpcMethod methods ih =>
    obtain ⟨hname, hnames⟩ := List.forall_mem_cons.mp hnames
    have hsame : rpcMethod.isNamed method = decide (rpcMethod.name = method) := by
      rw [Bool.eq_iff_iff, isNamed_iff, hname, decide_eq_true_eq]
    rw [List.find?_cons, List.find?_cons, hsame, ih hnames]

theorem snd_rpcFindAndCallCalls
    (hnames : ∀ rpcMethod ∈ methods, cString rpcMethod.name = rpcMethod.name) (params : S)
    (method : List UInt8) (zse : E) :
    (rpcFindAndCallCalls enc methods params method zse).2 =
      rpcFindAndCall enc methods params method zse := by
  rw [rpcFindAndCall, ← find?_isNamed hnames, List.find?_eq_getElem?_findIdx, rpcFindAndCallCalls]
  dsimp only
  cases methods[methods.findIdx fun rpcMethod => rpcMethod.isNamed method]? with
  | none => rfl
  | some rpcMethod =>
    cases hdetail : encoding (enc.tstrEncode (ascii "detail") zse) with
    | error err => rfl
    | ok zse₁ =>
      cases hstart : encoding (enc.mapStartEncode sizeMax zse₁) with
      | error err => simp [bind, Except.bind, hstart]
      | ok zse₂ => simp [bind, Except.bind, hstart]

/-- Where the names are the C strings they are read as, the response is the one of the model
without the calls. -/
theorem snd_rpcResponseCalls
    (hnames : ∀ rpcMethod ∈ methods, cString rpcMethod.name = rpcMethod.name)
    (maxResponseLen : ℕ) (w : Cursor S (RpcVars S)) :
    (rpcResponseCalls lib enc methods maxResponseLen w).2 =
      rpcResponse lib enc methods maxResponseLen w := by
  rw [rpcResponse, rpcResponseCalls]
  dsimp only
  cases hmap : encoding (enc.mapStartEncode 1 (enc.newEncodeState maxResponseLen 1)) with
  | error err => rfl
  | ok zse₁ =>
    cases hlabel : encoding (enc.tstrEncode (ascii "id") zse₁) with
    | error err => simp [bind, Except.bind, hlabel]
    | ok zse₂ =>
      cases hid : encoding (enc.tstrEncode (lib.text w.zsd w.out.id.value) zse₂) with
      | error err => simp [bind, Except.bind, hlabel, hid]
      | ok zse₃ =>
        simp only [bind, Except.bind, hlabel, hid]
        rw [snd_rpcFindAndCallCalls enc hnames]

theorem snd_onRpcCalls (hnames : ∀ rpcMethod ∈ methods, cString rpcMethod.name = rpcMethod.name)
    (maxResponseLen fuel : ℕ) (vars : RpcVars S) (rsp : Rsp) :
    (onRpcCalls lib enc methods maxResponseLen fuel vars rsp).map Prod.snd =
      onRpc lib enc methods maxResponseLen fuel vars rsp := by
  rw [onRpc, onRpcCalls]
  obtain ⟨ret, w⟩ := (decodeRpc lib fuel rsp.data vars).2
  dsimp only
  split
  · rfl
  · split
    · rfl
    · cases ret with
      | none => rfl
      | some err =>
        dsimp only
        split
        · rfl
        · rw [Option.map_some, snd_rpcResponseCalls lib enc hnames]

end Calls

end Golioth.Rpc
