/-
# Connecting and disconnecting

The client owns at most one socket. Connecting resolves the host and tries the
addresses one after the other: each try takes a socket from the system, sets its
options, connects it, publishes it in the client and sends an empty packet; on every
failure the socket is given back. The outcome of each call of the socket interface is
read from the environment. What is recorded of the calls are the sockets taken and
given back.
-/
import Golioth.CS.Ownership
import Golioth.Requests.Disconnect

namespace Golioth.Sockets

open Golioth.Coap CS CS.Ownership

/-! ## The socket interface -/

/-- What a call of the socket interface returns, and `errno` as it leaves it. -/
structure SockRet where
  ret : ℤ
  errno : ℤ
  deriving DecidableEq

/-- The socket options the client sets. -/
inductive SockOpt
  | tlsSecTagList (tags : List ℕ)
  | tlsHostname (host : Option (List UInt8))
  | tlsCiphersuiteList (suites : List ℕ)
  | tlsDtlsCid (enabled : Bool)

/-- `struct sockaddr`: the family, and the rest of the address. -/
structure Sockaddr where
  saFamily : ℕ
  saData : List UInt8

/-- The configuration the module is built with. -/
structure Config where
  /-- `CONFIG_GOLIOTH_HOSTNAME_VERIFICATION` -/
  hostnameVerification : Bool
  /-- `CONFIG_GOLIOTH_HOSTNAME_VERIFICATION_SKIP` -/
  hostnameVerificationSkip : Bool
  /-- `GOLIOTH_CIPHERSUITES` -/
  ciphersuites : List ℕ
  /-- `CONFIG_GOLIOTH_USE_CONNECTION_ID` -/
  useConnectionId : Bool

/-- The outcome of each call, by the number of the call and its arguments.
`zsock_getaddrinfo` returns an `int` and a list of addresses. -/
structure Net where
  config : Config
  zsockGetaddrinfo : ℕ → (host : List UInt8) → (port : UInt16) → ℤ × List Sockaddr
  zsockSocket : ℕ → (family proto : ℕ) → SockRet
  zsockSetsockopt : ℕ → (sock : ℤ) → SockOpt → SockRet
  zsockConnect : ℕ → (sock : ℤ) → Sockaddr → SockRet
  zsockSend : ℕ → (sock : ℤ) → (data : List UInt8) → SockRet
  zsockClose : ℕ → (sock : ℤ) → SockRet
  /-- `coap_next_id` -/
  coapNextId : ℕ → UInt16

/-- A call that fails sets a positive `errno`. -/
structure Net.SetsErrno (net : Net) : Prop where
  socket : ∀ n family proto, (net.zsockSocket n family proto).ret < 0 →
    0 < (net.zsockSocket n family proto).errno
  setsockopt : ∀ n sock opt, (net.zsockSetsockopt n sock opt).ret < 0 →
    0 < (net.zsockSetsockopt n sock opt).errno
  connect : ∀ n sock addr, (net.zsockConnect n sock addr).ret < 0 →
    0 < (net.zsockConnect n sock addr).errno
  send : ∀ n sock data, (net.zsockSend n sock data).ret < 0 →
    0 < (net.zsockSend n sock data).errno

/-! ## The client -/

/-- The part of `struct golioth_client` that has to do with the connection, over the
requests of the client. `calls` counts the calls of the socket interface; `uses` are
the sockets it returned and the sockets passed to `zsock_close`. -/
structure GoliothClient (κ σ : Type) where
  requests : Requests.Client κ σ
  sock : ℤ
  proto : ℕ
  secTagList : Option (List ℕ)
  calls : ℕ
  uses : List (Use ℤ)

variable {κ σ : Type}

namespace GoliothClient

/-- Make one call. -/
def tick (c : GoliothClient κ σ) : GoliothClient κ σ := { c with calls := c.calls + 1 }

/-- Record a use of a socket. -/
def record (c : GoliothClient κ σ) (use : Use ℤ) : GoliothClient κ σ :=
  { c with uses := c.uses ++ [use] }

end GoliothClient

/-- `golioth_init`. -/
def goliothInit (app : σ) : GoliothClient κ σ where
  requests := .init app
  sock := -1
  proto := 0
  secTagList := none
  calls := 0
  uses := []

/-- `IPPROTO_DTLS_1_2`. -/
def ipprotoDtls12 : ℕ := 272

/-- `golioth_set_proto_coap_dtls`. -/
def goliothSetProtoCoapDtls (secTagList : Option (List ℕ)) (c : GoliothClient κ σ) :
    ℤ × GoliothClient κ σ :=
  match secTagList with
  | none => (-Errno.einval, c)
  | some [] => (-Errno.einval, c)
  | some tags => (0, { c with proto := ipprotoDtls12, secTagList := some tags })

section Connect

variable (net : Net)

/-- The options `golioth_setsockopt_dtls` sets, in order. -/
def dtlsOptions (c : GoliothClient κ σ) (host : List UInt8) : List SockOpt :=
  (match c.secTagList with
    | none => []
    | some [] => []
    | some tags => [.tlsSecTagList tags]) ++
  (if net.config.hostnameVerification then
    [.tlsHostname (if net.config.hostnameVerificationSkip then none else some host)] else []) ++
  (if net.config.ciphersuites ≠ [] then
    [.tlsCiphersuiteList net.config.ciphersuites] else []) ++
  (if net.config.useConnectionId then [.tlsDtlsCid true] else [])

/-- Set options until one cannot be set. -/
def setOptions (sock : ℤ) : List SockOpt → GoliothClient κ σ → ℤ × GoliothClient κ σ
  | [], c => (0, c)
  | opt :: opts, c =>
    let r := net.zsockSetsockopt c.calls sock opt
    if r.ret < 0 then (-r.errno, c.tick) else setOptions sock opts c.tick

/-- `golioth_setsockopt_dtls`. -/
def goliothSetsockoptDtls (sock : ℤ) (host : List UInt8) (c : GoliothClient κ σ) :
    ℤ × GoliothClient κ σ :=
  setOptions net sock (dtlsOptions net c host) c

/-- `__golioth_close`. -/
def closeSock (sock : ℤ) (c : GoliothClient κ σ) : ℤ × GoliothClient κ σ :=
  if sock < 0 then (-Errno.enotconn, c)
  else
    let r := net.zsockClose c.calls sock
    (if r.ret < 0 then -r.errno else 0, c.tick.record (.release sock))

/-- `__golioth_send`. The number of bytes sent is compared as a `size_t`. -/
def sendUnlocked (data : List UInt8) (c : GoliothClient κ σ) : ℤ × GoliothClient κ σ :=
  if c.sock < 0 then (-Errno.enotconn, c)
  else
    let r := net.zsockSend c.calls c.sock data
    if r.ret < 0 then (-r.errno, c.tick)
    else if sizeOfInt r.ret < data.length then (-Errno.eio, c.tick)
    else (0, c.tick)

/-- `GOLIOTH_EMPTY_PACKET_LEN`. -/
def goliothEmptyPacketLen : ℕ := 16 + 32

/-- `__golioth_send_empty_coap`. -/
def sendEmptyCoap (z : Zephyr) (c : GoliothClient κ σ) : ℤ × GoliothClient κ σ :=
  let init := z.coapPacketInit goliothEmptyPacketLen .nonCon ⟨[], Nat.zero_le _⟩ codeEmpty
    (net.coapNextId c.calls)
  if init.1 ≠ 0 then (init.1, c.tick) else sendUnlocked net init.2.data c.tick

/-- The label `close_sock` of `golioth_connect_sockaddr`. -/
def labelCloseSock (sock : ℤ) (err : ℤ) (c : GoliothClient κ σ) : ℤ × GoliothClient κ σ :=
  (err, if err ≠ 0 then (closeSock net sock c).2 else c)

/-- `golioth_connect_sockaddr`. -/
def goliothConnectSockaddr (z : Zephyr) (host : List UInt8) (addr : Sockaddr)
    (c : GoliothClient κ σ) : ℤ × GoliothClient κ σ :=
  let socket := net.zsockSocket c.calls addr.saFamily c.proto
  if socket.ret < 0 then (-socket.errno, c.tick)
  else
    let sock := socket.ret
    let set := goliothSetsockoptDtls net sock host (c.tick.record (.acquire sock))
    if set.1 ≠ 0 then labelCloseSock net sock set.1 set.2
    else
      let connect := net.zsockConnect set.2.calls sock addr
      if connect.ret < 0 then labelCloseSock net sock (-connect.errno) set.2.tick
      else
        -- the socket is published, and withdrawn if the handshake cannot be started
        let sent := sendEmptyCoap net z { set.2.tick with sock := sock }
        labelCloseSock net sock sent.1
          (if sent.1 ≠ 0 then { sent.2 with sock := -1 } else sent.2)

/-- The loop of `__golioth_connect`. -/
def connectAddrs (z : Zephyr) (host : List UInt8) :
    List Sockaddr → (err : ℤ) → GoliothClient κ σ → ℤ × GoliothClient κ σ
  | [], err, c => (err, c)
  | addr :: addrs, _, c =>
    let connected := goliothConnectSockaddr net z host addr c
    if connected.1 = 0 then connected else connectAddrs z host addrs connected.1 connected.2

/-- `__golioth_connect`. -/
def connectHost (z : Zephyr) (host : List UInt8) (port : UInt16) (c : GoliothClient κ σ) :
    ℤ × GoliothClient κ σ :=
  let resolved := net.zsockGetaddrinfo c.calls host port
  if resolved.1 < 0 then (-Errno.eagain, c.tick)
  else connectAddrs net z host resolved.2 (-Errno.enoent) c.tick

/-- `golioth_connect`. The callback `on_connect` comes last; what it does are
operations of the client that follow. -/
def goliothConnect (z : Zephyr) (host : List UInt8) (port : UInt16) (c : GoliothClient κ σ) :
    ℤ × GoliothClient κ σ :=
  if 0 ≤ c.sock then (-Errno.ealready, c)
  else
    let connected := connectHost net z host port c
    if connected.1 = 0 then
      (0, { connected.2 with requests := Requests.coapReqsOnConnect connected.2.requests })
    else connected

/-- `golioth_close`. -/
def goliothClose (c : GoliothClient κ σ) : ℤ × GoliothClient κ σ :=
  let closed := closeSock net c.sock c
  (closed.1, { closed.2 with sock := -1 })

/-- `golioth_disconnect`, if the requests can be cancelled. -/
def goliothDisconnect (e : Requests.Env κ σ) (c : GoliothClient κ σ) :
    Option (ℤ × GoliothClient κ σ) :=
  (Requests.coapReqsOnDisconnect e c.requests).map fun requests =>
    goliothClose net { c with requests := requests }

end Connect

/-! ## Operations -/

section Operations

variable (e : Requests.Env κ σ) (net : Net)

/-- The entry points: those of the connection, and those of the request module that
leave the connection alone. -/
inductive Op (κ : Type)
  | setProtoCoapDtls (secTagList : Option (List ℕ))
  | connect (host : List UInt8) (port : UInt16)
  | disconnect
  | submit (submission : Requests.Submission κ)
  | processRx (rx : RxPacket)
  | pollPrepare (now : ℤ) (visits : ℕ)

/-- One operation, if it returns. -/
def perform : Op κ → GoliothClient κ σ → Option (GoliothClient κ σ)
  | .setProtoCoapDtls secTagList, c => some (goliothSetProtoCoapDtls secTagList c).2
  | .connect host port, c => some (goliothConnect net e.zephyr host port c).2
  | .disconnect, c => (goliothDisconnect net e c).map Prod.snd
  | .submit submission, c => (Requests.perform e (.submit submission) c.requests).map
      fun requests => { c with requests := requests }
  | .processRx rx, c => (Requests.perform e (.processRx rx) c.requests).map
      fun requests => { c with requests := requests }
  | .pollPrepare now visits, c => (Requests.perform e (.pollPrepare now visits) c.requests).map
      fun requests => { c with requests := requests }

/-- The steps of a client. -/
def Step (op : Op κ) (c c' : GoliothClient κ σ) : Prop := perform e net op c = some c'

/-- The states of a client some sequence of operations leads to. -/
def Reachable (app : σ) (c : GoliothClient κ σ) : Prop :=
  CS.Reachable (Step e net) (goliothInit app) c

end Operations

/-! ## One try -/

variable {e : Requests.Env κ σ} {net : Net} {z : Zephyr} {c c' : GoliothClient κ σ}

/-- The client owns no socket, and those it took from the system are given back. -/
structure Closed (c : GoliothClient κ σ) : Prop where
  sock_neg : c.sock < 0
  accounts : Accounts c.uses ∅

/-- A socket was taken from the system, and is the socket of the client. -/
def SetBy (c c' : GoliothClient κ σ) : Prop :=
  0 ≤ c'.sock ∧ ∃ uses, c'.uses = c.uses ++ uses ∧ .acquire c'.sock ∈ uses

/-- What an attempt to connect comes to: an error and no socket, or zero and a socket. -/
inductive Attempt (c : GoliothClient κ σ) : ℤ × GoliothClient κ σ → Prop
  | failed {err : ℤ} {c' : GoliothClient κ σ} : err ≠ 0 → Closed c' →
      c'.requests = c.requests → c.uses <+: c'.uses → Attempt c (err, c')
  | connected {c' : GoliothClient κ σ} : SetBy c c' → Accounts c'.uses {c'.sock} →
      c'.requests = c.requests → Attempt c (0, c')

/-- Calls were made that neither took a socket nor gave one back. -/
structure OnlyCalls (c c' : GoliothClient κ σ) : Prop where
  requests : c'.requests = c.requests
  sock : c'.sock = c.sock
  uses : c'.uses = c.uses

theorem onlyCalls_setOptions (sock : ℤ) (opts : List SockOpt) (c : GoliothClient κ σ) :
    OnlyCalls c (setOptions net sock opts c).2 := by
  induction opts generalizing c with
  | nil => exact ⟨rfl, rfl, rfl⟩
  | cons opt opts ih =>
    rw [setOptions]
    split
    · exact ⟨rfl, rfl, rfl⟩
    · have hrest := ih c.tick
      exact ⟨hrest.requests, hrest.sock, hrest.uses⟩

theorem onlyCalls_sendEmptyCoap (z : Zephyr) (c : GoliothClient κ σ) :
    OnlyCalls c (sendEmptyCoap net z c).2 := by
  unfold sendEmptyCoap sendUnlocked
  dsimp only
  split_ifs <;> exact ⟨rfl, rfl, rfl⟩

/-- The way out of a failed try gives the socket back. -/
theorem attempt_labelCloseSock {d : GoliothClient κ σ} {sock err : ℤ} (hsock : 0 ≤ sock)
    (herr : err ≠ 0) (hneg : c.sock < 0) (haccounts : Accounts d.uses ∅)
    (huses : c.uses = d.uses ++ [.acquire sock]) (hrequests : c.requests = d.requests) :
    Attempt d (labelCloseSock net sock err c) := by
  have hclose : (closeSock net sock c).2 = c.tick.record (.release sock) := by
    rw [closeSock, if_neg (not_lt.mpr hsock)]
  have hheld : Accounts c.uses {sock} := huses ▸ haccounts.first sock
  have hgrown : d.uses <+: c.uses := huses ▸ List.prefix_append _ _
  rw [labelCloseSock, if_pos herr, hclose]
  exact .failed herr ⟨hneg, hheld.last⟩ hrequests (hgrown.trans (List.prefix_append _ _))

/-- **Try.** Connecting to an address leaves no socket behind, or the socket of the
client. -/
theorem attempt_connectSockaddr (herrno : net.SetsErrno) (hclosed : Closed c)
    (host : List UInt8) (addr : Sockaddr) :
    Attempt c (goliothConnectSockaddr net z host addr c) := by
  unfold goliothConnectSockaddr
  dsimp only
  split
  · next hsocket =>
    have hpos := herrno.socket _ _ _ hsocket
    exact .failed (by omega) ⟨hclosed.sock_neg, hclosed.accounts⟩ rfl List.prefix_rfl
  · next hsocket =>
    have hsock := not_lt.mp hsocket
    generalize (net.zsockSocket c.calls addr.saFamily c.proto).ret = sock at hsock
    have hset : OnlyCalls (c.tick.record (.acquire sock))
        (goliothSetsockoptDtls net sock host (c.tick.record (.acquire sock))).2 :=
      onlyCalls_setOptions sock _ _
    generalize goliothSetsockoptDtls net sock host (c.tick.record (.acquire sock)) = set at hset
    have hneg : set.2.sock < 0 := hset.sock.trans_lt hclosed.sock_neg
    have haccounts := hclosed.accounts
    split
    · next herr => exact attempt_labelCloseSock hsock herr hneg haccounts hset.uses hset.requests
    · split
      · next hconnect =>
        have hpos := herrno.connect _ _ _ hconnect
        exact attempt_labelCloseSock hsock (by omega) hneg haccounts hset.uses hset.requests
      · -- the socket is published before the empty packet is sent
        have hsent : OnlyCalls { set.2.tick with sock := sock }
            (sendEmptyCoap net z { set.2.tick with sock := sock }).2 :=
          onlyCalls_sendEmptyCoap z _
        generalize sendEmptyCoap net z { set.2.tick with sock := sock } = sent at hsent
        have huses : sent.2.uses = c.uses ++ [.acquire sock] := hsent.uses.trans hset.uses
        have hrequests : sent.2.requests = c.requests := hsent.requests.trans hset.requests
        have hpublished : sent.2.sock = sock := hsent.sock
        obtain ⟨err, d⟩ := sent
        by_cases herr : err = 0
        · subst herr
          refine .connected ⟨?_, [.acquire sock], huses, ?_⟩ ?_ hrequests
          · exact hsock.trans_eq hpublished.symm
          · exact List.mem_singleton.mpr (congrArg Use.acquire hpublished)
          · exact huses ▸ hpublished ▸ haccounts.first sock
        · rw [if_pos herr]
          exact attempt_labelCloseSock hsock herr (show (-1 : ℤ) < 0 by decide) haccounts huses hrequests

/-- **Loop.** So does trying the addresses one after the other. -/
theorem attempt_connectAddrs (herrno : net.SetsErrno) (host : List UInt8)
    (addrs : List Sockaddr) {err : ℤ} (herr : err ≠ 0) (hclosed : Closed c) :
    Attempt c (connectAddrs net z host addrs err c) := by
  induction addrs generalizing err c with
  | nil => exact .failed herr hclosed rfl List.prefix_rfl
  | cons addr addrs ih =>
    rw [connectAddrs]
    have htry := attempt_connectSockaddr (z := z) herrno hclosed host addr
    generalize goliothConnectSockaddr net z host addr c = tried at htry
    cases htry with
    | @failed err c' herr hclosed' hrequests huses =>
      rw [if_neg herr]
      have hrest := ih herr hclosed'
      generalize connectAddrs net z host addrs err c' = rest at hrest
      cases hrest with
      | failed herr hclosed'' hrequests' huses' =>
        exact .failed herr hclosed'' (hrequests'.trans hrequests) (huses.trans huses')
      | connected hset haccounts hrequests' =>
        obtain ⟨earlier, huses⟩ := huses
        obtain ⟨hsock, later, hlater, hmem⟩ := hset
        refine .connected ⟨hsock, earlier ++ later, ?_, List.mem_append_right _ hmem⟩ haccounts
          (hrequests'.trans hrequests)
        rw [hlater, ← huses, List.append_assoc]
    | connected hset haccounts hrequests =>
      exact .connected hset haccounts hrequests

theorem attempt_connectHost (herrno : net.SetsErrno) (hclosed : Closed c) (host : List UInt8)
    (port : UInt16) : Attempt c (connectHost net z host port c) := by
  unfold connectHost
  dsimp only
  split
  · exact .failed (by decide) ⟨hclosed.sock_neg, hclosed.accounts⟩ rfl List.prefix_rfl
  · have hclosed' : Closed c.tick := ⟨hclosed.sock_neg, hclosed.accounts⟩
    have hloop := attempt_connectAddrs (z := z) herrno host
      (net.zsockGetaddrinfo c.calls host port).2 (show -Errno.enoent ≠ 0 by decide) hclosed'
    generalize connectAddrs net z host _ _ c.tick = tried at hloop
    cases hloop with
    | failed herr hclosed'' hrequests huses => exact .failed herr hclosed'' hrequests huses
    | connected hset haccounts hrequests => exact .connected hset haccounts hrequests

/-! ## The invariant -/

/-- The descriptor the client owns, if any. -/
def owned (c : GoliothClient κ σ) : Set ℤ := {sock | sock = c.sock ∧ 0 ≤ sock}

theorem owned_of_neg (hneg : c.sock < 0) : owned c = ∅ :=
  Set.eq_empty_of_forall_notMem fun _ h => absurd (h.1 ▸ h.2) (not_le.mpr hneg)

theorem owned_of_nonneg (hnonneg : 0 ≤ c.sock) : owned c = {c.sock} :=
  Set.ext fun sock => ⟨fun h => h.1, fun h => ⟨h, (show sock = c.sock from h) ▸ hnonneg⟩⟩

/-- **The invariant.** The sockets taken from the system are accounted for by the one
the client owns, and requests are accepted only while there is one. -/
structure Sound (c : GoliothClient κ σ) : Prop where
  wellFormed : Requests.WellFormed c.requests
  accounts : Accounts c.uses (owned c)
  connected : c.requests.coapReqsConnected = true → 0 ≤ c.sock

theorem sound_goliothInit (app : σ) : Sound (goliothInit (κ := κ) app) where
  wellFormed := Requests.wellFormed_init app
  accounts := by
    rw [owned_of_neg (show (-1 : ℤ) < 0 by decide)]
    exact .nil
  connected h := by cases h

theorem Sound.closed (h : Sound c) (hneg : c.sock < 0) : Closed c :=
  ⟨hneg, owned_of_neg hneg ▸ h.accounts⟩

/-- **Connect.** It returns zero if and only if the client owns a socket now that this
call took from the system. -/
theorem sound_connect (herrno : net.SetsErrno) (h : Sound c) (host : List UInt8) (port : UInt16) :
    Sound (goliothConnect net z host port c).2 ∧
      ((goliothConnect net z host port c).1 = 0 ↔
        SetBy c (goliothConnect net z host port c).2) := by
  unfold goliothConnect
  split
  · -- there is a connection already
    refine ⟨h, iff_of_false (show ¬ -Errno.ealready = 0 by decide) ?_⟩
    rintro ⟨-, uses, huses, hmem⟩
    rw [List.append_right_eq_self.mp huses.symm] at hmem
    cases hmem
  · next hneg =>
    have hattempt := attempt_connectHost (z := z) herrno (h.closed (not_le.mp hneg)) host port
    generalize connectHost net z host port c = tried at hattempt
    cases hattempt with
    | @failed err c' herr hclosed hrequests huses =>
      rw [if_neg herr]
      refine ⟨⟨hrequests ▸ h.wellFormed, ?_, fun hconnected => ?_⟩, iff_of_false herr ?_⟩
      · rw [owned_of_neg hclosed.sock_neg]
        exact hclosed.accounts
      · rw [hrequests] at hconnected
        exact absurd (h.connected hconnected) hneg
      · exact fun hset => absurd hset.1 (not_le.mpr hclosed.sock_neg)
    | @connected c' hset haccounts hrequests =>
      have hwf := h.wellFormed
      rw [← hrequests] at hwf
      refine ⟨⟨⟨hwf.nodup, hwf.refs_lt, hwf.log_lt⟩, ?_, fun _ => hset.1⟩, iff_of_true rfl hset⟩
      have howned : owned c' = {c'.sock} := owned_of_nonneg hset.1
      exact howned.symm ▸ haccounts

theorem sound_goliothClose (h : Sound c) (hconnected : c.requests.coapReqsConnected = false) :
    Sound (goliothClose net c).2 := by
  have hrequests : (goliothClose net c).2.requests = c.requests := by
    unfold goliothClose closeSock
    dsimp only
    split <;> rfl
  have howned : owned (goliothClose net c).2 = ∅ := owned_of_neg (show (-1 : ℤ) < 0 by decide)
  refine ⟨hrequests ▸ h.wellFormed, ?_, fun h' => ?_⟩
  · rw [howned]
    by_cases hneg : c.sock < 0
    · have huses : (goliothClose net c).2.uses = c.uses := by
        rw [goliothClose, closeSock, if_pos hneg]
      exact huses ▸ (h.closed hneg).accounts
    · have huses : (goliothClose net c).2.uses = c.uses ++ [.release c.sock] := by
        rw [goliothClose, closeSock, if_neg hneg]
        rfl
      have haccounts := h.accounts
      rw [owned_of_nonneg (not_lt.mp hneg)] at haccounts
      exact huses ▸ haccounts.last
  · rw [hrequests, hconnected] at h'
    cases h'

/-- **Disconnect.** It returns, and leaves the client without a socket. -/
theorem sound_disconnect (h : Sound c) {ret : ℤ}
    (hdisconnect : goliothDisconnect net e c = some (ret, c')) : Sound c' := by
  obtain ⟨requests, hdrained⟩ := Requests.drained_onDisconnect (e := e) h.wellFormed
  have hreturns : Requests.coapReqsOnDisconnect e c.requests = some requests := hdrained.returns
  have hwf := Requests.wellFormed_step h.wellFormed hdrained.returns
  rw [goliothDisconnect, hreturns, Option.map_some, Option.some_inj] at hdisconnect
  have hsound : Sound { c with requests := requests } := by
    refine ⟨hwf, h.accounts, fun hconnected => ?_⟩
    rw [hdrained.disconnected] at hconnected
    cases hconnected
  have hclosed : Sound (goliothClose net { c with requests := requests }).2 :=
    sound_goliothClose hsound hdrained.disconnected
  rwa [hdisconnect] at hclosed

/-- What the request module does leaves the connection alone. -/
private theorem sound_requests (h : Sound c) {op : Requests.Op κ} {requests : Requests.Client κ σ}
    (hstep : Requests.Step e op c.requests requests)
    (hconnected : requests.coapReqsConnected = c.requests.coapReqsConnected) :
    Sound { c with requests := requests } :=
  ⟨Requests.wellFormed_step h.wellFormed hstep, h.accounts, fun h' =>
    h.connected (hconnected.symm.trans h')⟩

/-- **Step.** Every operation keeps the invariant. -/
theorem sound_step (herrno : net.SetsErrno) (h : Sound c) {op : Op κ}
    (hstep : Step e net op c c') : Sound c' := by
  cases op with
  | setProtoCoapDtls secTagList =>
    obtain rfl := Option.some_inj.mp hstep
    unfold goliothSetProtoCoapDtls
    split
    · exact h
    · exact h
    · exact ⟨h.wellFormed, h.accounts, h.connected⟩
  | connect host port =>
    obtain rfl := Option.some_inj.mp hstep
    exact (sound_connect herrno h host port).1
  | disconnect =>
    obtain ⟨⟨ret, c₁⟩, hdisconnect, rfl⟩ := Option.map_eq_some_iff.mp hstep
    exact sound_disconnect h hdisconnect
  | submit submission =>
    obtain rfl := Option.some_inj.mp hstep
    have hrequests : Requests.Step e (.submit submission) c.requests _ := rfl
    exact sound_requests h hrequests (Requests.connected_submit submission c.requests)
  | processRx rx =>
    obtain rfl := Option.some_inj.mp hstep
    have hrequests : Requests.Step e (.processRx rx) c.requests _ := rfl
    exact sound_requests h hrequests (Requests.connected_processRx h.wellFormed rx)
  | pollPrepare now visits =>
    obtain ⟨requests, hrequests, rfl⟩ := Option.map_eq_some_iff.mp hstep
    have hstep' : Requests.Step e (.pollPrepare now visits) c.requests requests := hrequests
    obtain ⟨s, hpass, rfl⟩ := Option.map_eq_some_iff.mp hrequests
    exact sound_requests h hstep' (Requests.connected_pollPrepare hpass)

/-- **Sockets are owned.** After any sequence of operations, every socket taken from the
system was passed to `zsock_close` exactly once, or is the socket of the client and was
not; connecting returns zero if and only if it leaves the client with a socket it took
itself; and while requests are accepted there is a socket. -/
theorem sockets_owned (herrno : net.SetsErrno) {app : σ} (hreach : Reachable e net app c) :
    EachReleasedOnce c.uses (owned c) ∧
      (∀ host port, (goliothConnect net e.zephyr host port c).1 = 0 ↔
        SetBy c (goliothConnect net e.zephyr host port c).2) ∧
      (c.requests.coapReqsConnected = true → 0 ≤ c.sock) := by
  have hsound : Sound c := hreach.invariant Sound (sound_goliothInit app)
    fun _ _ _ h hstep => sound_step herrno h hstep
  exact ⟨hsound.accounts.eachReleasedOnce,
    fun host port => (sound_connect herrno hsound host port).2, hsound.connected⟩

/-- A network in which a host has two addresses, the first of which does not answer.
Sockets are numbered by the calls made so far. -/
def Net.secondAnswers : Net where
  config :=
    { hostnameVerification := true, hostnameVerificationSkip := false, ciphersuites := [1]
      useConnectionId := false }
  zsockGetaddrinfo _ _ _ := (0, [⟨10, []⟩, ⟨1, []⟩])
  zsockSocket calls _ _ := ⟨calls, 0⟩
  zsockSetsockopt _ _ _ := ⟨0, 0⟩
  zsockConnect _ _ addr := if addr.saFamily = 10 then ⟨-1, 116⟩ else ⟨0, 0⟩
  zsockSend _ _ data := ⟨data.length, 0⟩
  zsockClose _ _ := ⟨0, 0⟩
  coapNextId calls := UInt16.ofNat (calls + 1)

theorem setsErrno_secondAnswers : Net.secondAnswers.SetsErrno where
  socket calls family proto h := by
    have hnonneg : (0 : ℤ) ≤ calls := Int.natCast_nonneg calls
    exact absurd h (not_lt.mpr hnonneg)
  setsockopt calls sock opt h := absurd h (lt_irrefl 0)
  connect calls sock addr h := by
    unfold Net.secondAnswers at h ⊢
    dsimp only at h ⊢
    split at h
    · next hfamily =>
      rw [if_pos hfamily]
      decide
    · exact absurd h (lt_irrefl 0)
  send calls sock data h := by
    have hnonneg : (0 : ℤ) ≤ data.length := Int.natCast_nonneg data.length
    exact absurd h (not_lt.mpr hnonneg)

/-- A connection, and the next one after it was closed. -/
def reconnectRun : Option (GoliothClient Unit Unit) :=
  Run.execute (perform .quiet .secondAnswers)
    [.connect [104] 5684, .disconnect, .connect [104] 5684] (goliothInit ())

theorem sockets_owned_reconnect :
    ∃ c, reconnectRun = some c ∧
      c.uses = [.acquire 1, .release 1, .acquire 6, .release 6, .acquire 14, .release 14,
        .acquire 19] ∧
      EachReleasedOnce c.uses (owned c) ∧
      (∀ host port, (goliothConnect .secondAnswers Requests.Env.quiet.zephyr host port c).1 = 0 ↔
        SetBy c (goliothConnect .secondAnswers Requests.Env.quiet.zephyr host port c).2) ∧
      (c.requests.coapReqsConnected = true → 0 ≤ c.sock) := by
  have huses : reconnectRun.map (·.uses) = some [.acquire 1, .release 1, .acquire 6, .release 6,
      .acquire 14, .release 14, .acquire 19] := by decide
  obtain ⟨c, hrun, huses⟩ := Option.map_eq_some_iff.mp huses
  have hreach : Reachable .quiet .secondAnswers () c := ⟨_, Run.of_execute hrun⟩
  exact ⟨c, hrun, huses, sockets_owned setsErrno_secondAnswers hreach⟩

end Golioth.Sockets
